import Peony.Validation.DisconnectBlock

namespace Peony
open Except

namespace CCoinsView

def Above (base view : CCoinsView) : Prop := ∃ layer filled, view = .cache layer filled ∧ Filled base filled

variable {base view result : CCoinsView}
lemma Above.newCache (wf : base.WellFormed) : base.Above base.newCache := ⟨_, _, rfl, .refl wf⟩

section
variable (above : base.Above view)
include above

variable (outpoint : COutPoint)
lemma Above.getCoin : base.Above (view.getCoin outpoint).2 := by
  obtain ⟨layer, full, rfl, fills⟩ := above
  have reads := (getCoin_spec fills.wellFormed outpoint).filled
  rcases getCoin_cases _ _ _ with ⟨entry, -, own⟩ | ⟨-, ⟨further, below, own⟩ | ⟨coin, further, below, own⟩⟩
  · rw [own]
    exact ⟨_, _, rfl, fills⟩
  · rw [below] at reads
    rw [own]
    exact ⟨_, _, rfl, fills.trans reads⟩
  · rw [below] at reads
    rw [own]
    exact ⟨_, _, rfl, fills.trans reads⟩

lemma Above.haveCoin : base.Above (view.haveCoin outpoint).2 := by
  have read := above.getCoin outpoint
  obtain ⟨layer, full, rfl, -⟩ := above
  exact read

lemma Above.spendCoin : base.Above (view.spendCoin outpoint).2 := by
  have read := above.getCoin outpoint
  obtain ⟨layer, full, rfl, -⟩ := above
  rcases spendCoin_cases layer full outpoint with ⟨further, reads, spends⟩ | ⟨layer', further, entry, reads, -, outcome⟩
  · grind
  · rw [reads] at read
    obtain ⟨_, _, ⟨⟩, fills⟩ := read
    rcases outcome with ⟨-, spends⟩ | ⟨-, spends⟩
    · rw [spends]
      exact ⟨_, _, rfl, fills⟩
    · rw [spends]
      exact ⟨_, _, rfl, fills⟩

lemma Above.addCoin {outpoint coin overwrite}
    (adds : view.addCoin outpoint coin overwrite = .ok result) : base.Above result := by
  rcases addCoin_cases adds with ⟨-, ⟨-, rfl⟩ | ⟨-, layer, under, rfl, -, rfl⟩⟩
  · exact above
  · obtain ⟨_, _, ⟨⟩, fills⟩ := above
    exact ⟨_, _, rfl, fills⟩

lemma Above.setBestBlock (hash) : base.Above (view.setBestBlock hash) := by
  obtain ⟨layer, full, rfl, fills⟩ := above
  exact ⟨_, _, rfl, fills⟩

lemma Above.getBestBlock : base.Above view.getBestBlock.2 := by
  obtain ⟨layer, full, rfl, fills⟩ := above
  rw [CCoinsView.getBestBlock]
  split
  · exact ⟨_, _, rfl, fills.trans (getBestBlock_filled fills.wellFormed)⟩
  · exact ⟨_, _, rfl, fills⟩
end

lemma Above.haveInputs (vin) (above : base.Above view) : base.Above (view.haveInputs vin).2 := by
  induction vin generalizing view with
  | nil => exact above
  | cons txin vin ih =>
    rw [CCoinsView.haveInputs]
    split
    · exact ih (above.haveCoin _)
    · exact above.haveCoin _

lemma Above.spendInputs (vin) (above : base.Above view) : base.Above (Peony.spendInputs view vin).2 := by
  induction vin generalizing view with
  | nil => exact above
  | cons txin vin ih => exact ih (above.spendCoin _)

variable {tx : CTransaction}
lemma Above.addCoinsFrom {txid nHeight} (vout) {i} (above : base.Above view)
    (adds : Peony.addCoinsFrom tx txid nHeight view i vout = .ok result) : base.Above result := by
  induction vout generalizing view i with
  | nil =>
    cases adds
    exact above
  | cons out vout ih =>
    obtain ⟨added, first, rest⟩ := bind_eq_ok.mp adds
    exact ih (above.addCoin first) rest

variable {host : Host}
lemma Above.updateCoins {nHeight txundo} (above : base.Above view)
    (upd : Peony.updateCoins host tx view nHeight = .ok (txundo, result)) : base.Above result := by
  obtain ⟨added, adds, same⟩ := bind_eq_ok.mp upd
  cases same
  refine Above.addCoinsFrom _ ?_ adds
  split
  · exact above
  · exact above.spendInputs _

lemma Above.spendOutputs (txid fClean o vout) (above : base.Above view) :
    base.Above (Peony.spendOutputs txid fClean view o vout).2 := by
  induction vout generalizing view o fClean with
  | nil => exact above
  | cons out vout ih =>
    rw [Peony.spendOutputs]
    split
    · exact ih _ _ above
    · exact ih _ _ (above.spendCoin _)

lemma Above.applyTxInUndo {undo out res} (above : base.Above view)
    (applies : Peony.applyTxInUndo undo view out = .ok (res, result)) : base.Above result := by
  unfold Peony.applyTxInUndo at applies
  dsimp only at applies
  split at applies
  · cases applies
    exact above.haveCoin _
  · obtain ⟨added, adds, same⟩ := bind_eq_ok.mp applies
    cases same
    exact (above.haveCoin _).addCoin adds

variable {fClean clean : Bool}
lemma Above.restoreInputs (inputs) (above : base.Above view)
    (restores : Peony.restoreInputs fClean view inputs = .ok (some (clean, result))) : base.Above result := by
  induction inputs generalizing view fClean with
  | nil =>
    cases restores
    exact above
  | cons input inputs ih =>
    obtain ⟨⟨res, back⟩, applies, rest⟩ := bind_eq_ok.mp restores
    have next := above.applyTxInUndo applies
    cases res with
    | disconnectFailed => cases rest
    | disconnectUnclean => exact ih next rest
    | disconnectOk => exact ih next rest

lemma Above.disconnectTx {txundo} (above : base.Above view)
    (disc : Peony.disconnectTx host fClean view tx txundo = .ok (some (clean, result))) : base.Above result := by
  obtain ⟨nValueOut, -, disc⟩ := bind_eq_ok.mp disc
  have spent := above.spendOutputs (host.getHash tx) fClean 0 tx.vout
  split at disc
  · have same := Option.some.inj (Except.ok.inj disc)
    rw [same] at spent
    exact spent
  · split at disc
    · cases disc
    · split at disc
      · cases disc
      · exact spent.restoreInputs _ disc

lemma Above.disconnectTxs (vtx) (above : base.Above view)
    (disc : Peony.disconnectTxs host fClean view vtx = .ok (some (clean, result))) : base.Above result := by
  induction vtx generalizing view fClean with
  | nil =>
    cases disc
    exact above
  | cons first vtx ih =>
    rcases bind_eq_ok.mp disc with ⟨_ | ⟨undoneClean, undone⟩, undoes, rest⟩
    · cases rest
    · exact ih (above.disconnectTx undoes) rest

lemma Above.disconnectBlock {block pindex pprev undo fHooks res} (above : base.Above view)
    (disc : Peony.disconnectBlock host block pindex pprev undo view fHooks = .ok (res, result)) : base.Above result := by
  obtain ⟨-, disc⟩ := require_bind_eq_ok.mp disc
  have opened := above.getBestBlock
  split at disc
  · cases disc
    exact opened
  · split at disc
    · cases disc
      exact opened
    · rcases bind_eq_ok.mp disc with ⟨_ | ⟨clean, undone⟩, undoes, rest⟩
      · cases rest
        exact opened
      · cases rest
        exact (opened.disconnectTxs _ undoes).setBestBlock _

variable {params : CChainParams} {context : BlockContext}
lemma Above.connectTx {state next i} (above : base.Above state.view)
    (conn : Peony.connectTx host params context state i tx = .ok next) :
    base.Above next.view := by
  obtain ⟨-, conn⟩ := require_bind_eq_ok.mp conn
  obtain ⟨-, conn⟩ := require_bind_eq_ok.mp conn
  obtain ⟨-, conn⟩ := require_bind_eq_ok.mp conn
  obtain ⟨nTxValueOut, -, conn⟩ := bind_eq_ok.mp conn
  obtain ⟨_, -, conn⟩ := bind_eq_ok.mp conn
  obtain ⟨⟨txundo, view⟩, upd, conn⟩ := bind_eq_ok.mp conn
  cases conn
  refine Above.updateCoins ?_ upd
  split
  · exact above
  · exact above.haveInputs _

lemma Above.connectTxs (vtx) {state next i} (above : base.Above state.view)
    (conn : Peony.connectTxs host params context state i vtx = .ok next) : base.Above next.view := by
  induction vtx generalizing state i with
  | nil =>
    cases conn
    exact above
  | cons tx vtx ih =>
    obtain ⟨middle, first, rest⟩ := bind_eq_ok.mp conn
    exact ih (above.connectTx first) rest

end CCoinsView

end Peony
