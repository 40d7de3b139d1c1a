import Mathlib.Logic.Relation
import Peony.Coins.Flush
import Peony.Validation.ConnectSpec

namespace Peony
open CCoinsView

def connectTip (host : Host) (params : CChainParams) (mDynamicRewards : DynamicRewards) (block : CBlock)
    (pindexNew pprev : CBlockIndex) (pcoinsTip : CCoinsView) : Except Failure (ConnectResult × CCoinsView) := do
  let result ← connectBlock host params mDynamicRewards block pindexNew pprev pcoinsTip.newCache
  match ← result.view.flush with
  | .cache _ written => return (result, written)
  | .db _ => .error (.assertion "Flush is a method of CCoinsViewCache")

/-- The tip, the coin cache over the database, the transactions so far. -/
structure ChainState where
  tip : CBlockIndex
  pcoinsTip : CCoinsView
  vtx : List CTransaction

def genesisState (genesis : CBlockIndex) : ChainState :=
  ⟨genesis, connectGenesis genesis (.newCache (.db ⟨0, ∅⟩)), []⟩

/-- What happens to the coins while `allowed` blocks are connected. -/
inductive ChainStep (host : Host) (params : CChainParams) (allowed : ChainState → CBlock → CBlockIndex → Prop) :
    ChainState → ChainState → Prop where
  | connect {state : ChainState} {block : CBlock} {pindexNew : CBlockIndex} {mDynamicRewards : DynamicRewards}
      {result : ConnectResult} {pcoinsTip : CCoinsView} (linked : pindexNew.nHeight = state.tip.nHeight + 1)
      (admitted : allowed state block pindexNew)
      (connects : connectTip host params mDynamicRewards block pindexNew state.tip state.pcoinsTip = .ok (result, pcoinsTip)) :
      ChainStep host params allowed state
        ⟨{ pindexNew with nMoneySupply := result.nMoneySupply }, pcoinsTip, state.vtx ++ block.vtx⟩
  | flush {state : ChainState} {pcoinsTip : CCoinsView} (flushes : state.pcoinsTip.flush = .ok pcoinsTip) :
      ChainStep host params allowed state { state with pcoinsTip }
  | getCoin (state : ChainState) (outpoint : COutPoint) :
      ChainStep host params allowed state { state with pcoinsTip := (state.pcoinsTip.getCoin outpoint).2 }
  | uncache (state : ChainState) (outpoint : COutPoint) :
      ChainStep host params allowed state { state with pcoinsTip := state.pcoinsTip.uncache outpoint }

abbrev ChainRun (host : Host) (params : CChainParams) (allowed : ChainState → CBlock → CBlockIndex → Prop) :
    ChainState → ChainState → Prop :=
  Relation.ReflTransGen (ChainStep host params allowed)

lemma genesisState_valid (genesis) : (genesisState genesis).pcoinsTip.ValidCache := by
  refine ⟨trivial, ?_, ?_⟩
  · intro op coin found
    cases found
  · simp

lemma connectTip_ok {host params mDynamicRewards block pindexNew pprev pcoinsTip wrote res}
    (conn : connectTip host params mDynamicRewards block pindexNew pprev pcoinsTip = .ok (res, wrote)) :
    connectBlock host params mDynamicRewards block pindexNew pprev pcoinsTip.newCache = .ok res ∧
      ∃ layer, res.view.flush = .ok (.cache layer wrote) := by
  obtain ⟨connected, conn', rest⟩ := Except.bind_eq_ok.mp conn
  obtain ⟨flushed, flushes, rest⟩ := Except.bind_eq_ok.mp rest
  cases flushed with
  | db database => cases rest
  | cache layer base =>
    cases rest
    exact ⟨conn', _, flushes⟩

lemma flush_ok {view res : CCoinsView} (valid : view.ValidCache) (flushes : view.flush = .ok res) :
    res.ValidCache ∧ res.visible = view.visible ∧ res.depth = view.depth ∧ ∃ layer base layer' wrote, view = .cache layer base ∧
      res = .cache layer' wrote ∧ wrote.WellFormed ∧ wrote.visible = view.visible ∧
      wrote.depth = base.depth := by
  obtain ⟨layer, base, rfl⟩ := valid.exists_cache
  obtain ⟨wrote, flushes', -, writtenWF, shown, depth⟩ := flush_spec valid.wellFormed
  rw [flushes] at flushes'
  cases flushes'
  exact ⟨⟨trivial, wellFormed_empty writtenWF _⟩, (visible_empty _ _).trans shown,
    congrArg (· + 1) depth, _, _, _, _, rfl, rfl, writtenWF, shown, depth⟩

end Peony
