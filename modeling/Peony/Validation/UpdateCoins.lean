import Peony.Consensus.TxVerify

namespace Peony
open Function

abbrev CTxUndo := List Coin
abbrev CBlockUndo := List CTxUndo
def txCoin (tx : CTransaction) (nHeight : Nat) (out : CTxOut) : Coin := ⟨tx.isCoinBase, tx.isCoinStake, out, nHeight⟩

def addCoinsFrom (tx : CTransaction) (txid : UInt256) (nHeight : Nat) (view : CCoinsView) :
    (i : Nat) → List CTxOut → Except Failure CCoinsView
  | _, [] => .ok view
  | i, out :: vout => do
    let added ← view.addCoin ⟨txid, i⟩ (txCoin tx nHeight out) false
    addCoinsFrom tx txid nHeight added (i + 1) vout

def addCoins (host : Host) (view : CCoinsView) (tx : CTransaction) (nHeight : Nat) : Except Failure CCoinsView :=
  addCoinsFrom tx (host.getHash tx) nHeight view 0 tx.vout

def spendInputs (view : CCoinsView) : List CTxIn → CTxUndo × CCoinsView
  | [] => ([], view)
  | txin :: vin =>
    let spent := view.spendCoin txin.prevout
    let rest := spendInputs spent.2 vin
    (spent.1 :: rest.1, rest.2)

section
variable (host : Host) (tx : CTransaction)
def updateCoins (view : CCoinsView) (nHeight : Nat) : Except Failure (CTxUndo × CCoinsView) := do
  let spent := if tx.isCoinBase then ([], view) else spendInputs view tx.vin
  let added ← addCoins host spent.2 tx nHeight
  return (spent.1, added)

def createdCoin (nHeight : Nat) (outpoint : COutPoint) : Option Coin :=
  if outpoint.hash = host.getHash tx then
    (tx.vout[outpoint.n]?).bind fun out =>
      if isUnspendable out.scriptPubKey then none else some (txCoin tx nHeight out)
  else none
end

variable {tx : CTransaction} {outpoint : COutPoint}
lemma createdCoin_eq_some {host nHeight coin} (made : createdCoin host tx nHeight outpoint = some coin) :
    outpoint.hash = host.getHash tx ∧ ∃ out, tx.vout[outpoint.n]? = some out ∧
      isUnspendable out.scriptPubKey = false ∧ coin = txCoin tx nHeight out := by
  unfold createdCoin at made
  split at made
  · rename_i own
    obtain ⟨out, found, kept⟩ := Option.bind_eq_some_iff.mp made
    split at kept
    · cases kept
    · rename_i live
      cases kept
      exact ⟨own, _, found, by simpa using live, rfl⟩
  · cases made

def CTransaction.prevouts (tx : CTransaction) : List COutPoint :=
  if tx.isCoinBase then [] else tx.vin.map (·.prevout)

namespace FlatMap
variable (coins : FlatMap)
def spendAll (outpoints : List COutPoint) : FlatMap :=
  fun outpoint => if outpoint ∈ outpoints then none else coins outpoint

def create (host : Host) (tx : CTransaction) (nHeight : Nat) : FlatMap :=
  fun outpoint => (createdCoin host tx nHeight outpoint).or (coins outpoint)

def applyTx (host : Host) (nHeight : Nat) (tx : CTransaction) : FlatMap :=
  (coins.spendAll tx.prevouts).create host tx nHeight

def applyTxs (host : Host) (nHeight : Nat) (vtx : List CTransaction) : FlatMap :=
  vtx.foldl (fun coins tx => coins.applyTx host nHeight tx) coins

lemma spendAll_nil : coins.spendAll [] = coins := by rfl

lemma spendAll_cons (outpoint ops) :
    coins.spendAll (outpoint :: ops) = spendAll (update coins outpoint none) ops := by
  funext other
  by_cases same : other = outpoint
  · subst same
    simp [spendAll]
  · simp [spendAll, same]

lemma applyTx_eq_some {coins : FlatMap} {host nHeight outpoint coin}
    (shown : coins.applyTx host nHeight tx outpoint = some coin) :
    createdCoin host tx nHeight outpoint = some coin ∨ outpoint ∉ tx.prevouts ∧ coins outpoint = some coin := by
  unfold applyTx create at shown
  cases made : createdCoin _ tx _ _ with
  | some new => grind
  | none =>
    rw [made, spendAll] at shown
    split at shown
    · cases shown
    · grind

end FlatMap

variable {view : CCoinsView}
namespace CCoinsView

structure Written (view result : CCoinsView) (coins : FlatMap) : Prop where
  visible : result.visible = coins
  valid : result.ValidCache
  depth : result.depth = view.depth
  cursor : result.cursor = view.cursor
  bestBlock : result.bestBlock = view.bestBlock
  uncovered : ∀ outpoint, view.Uncovered outpoint → result.Uncovered outpoint

lemma Written.refl (valid : view.ValidCache) : Written view view view.visible :=
  ⟨rfl, valid, rfl, rfl, rfl, fun _ h => h⟩

lemma Written.trans {middle res coins coins'} (first : Written view middle coins)
    (snd : Written middle res coins') : Written view res coins' where
  visible := snd.visible
  valid := snd.valid
  depth := snd.depth.trans first.depth
  cursor := snd.cursor.trans first.cursor
  bestBlock := snd.bestBlock.trans first.bestBlock
  uncovered := fun _ h => snd.uncovered _ (first.uncovered _ h)

lemma Written.of_updated {res outpoint coin} (upd : Updated view res outpoint coin)
    (uncovered : ∀ other, view.Uncovered other → res.Uncovered other) :
    Written view res (update view.visible outpoint coin) :=
  ⟨upd.visible, upd.valid, upd.depth, upd.cursor, upd.bestBlock, uncovered⟩

lemma spendCoin_written (valid : view.ValidCache) (outpoint) :
    Written view (view.spendCoin outpoint).2 (update view.visible outpoint none) :=
  .of_updated (spendCoin_snd valid _) fun _ => spendCoin_uncovered valid _

end CCoinsView

open CCoinsView

lemma spendInputs_written (vin) (valid : view.ValidCache) :
    Written view (spendInputs view vin).2 (view.visible.spendAll (vin.map (·.prevout))) := by
  induction vin generalizing view with
  | nil => simpa using .refl valid
  | cons txin vin ih =>
    have first := spendCoin_written valid txin.prevout
    have rest := ih first.valid
    rw [first.visible] at rest
    rw [List.map_cons, FlatMap.spendAll_cons]
    exact first.trans rest

lemma spendInputs_undo {vin} (valid : view.ValidCache) (dist : (vin.map (·.prevout)).Nodup) :
    (spendInputs view vin).1 = vin.map fun txin => (view.visible txin.prevout).getD coinEmpty := by
  induction vin generalizing view with
  | nil => rfl
  | cons txin vin ih =>
    rw [List.map_cons, List.nodup_cons] at dist
    have first := spendCoin_written valid txin.prevout
    have rest := ih first.valid dist.2
    change (view.spendCoin _).1 :: (spendInputs _ _).1 = _
    rw [rest, spendCoin_fst valid]
    congr 1
    apply List.map_congr_left
    intro other mem
    have different : other.prevout ≠ txin.prevout := by
      intro same
      apply dist.1
      rw [← same]
      exact List.mem_map_of_mem mem
    rw [first.visible, update_of_ne different]

section
variable (tx : CTransaction) (txid : UInt256) (nHeight i : Nat)
def createdFrom (vout : List CTxOut) (outpoint : COutPoint) : Option Coin :=
  if outpoint.hash = txid ∧ i ≤ outpoint.n then
    (vout[outpoint.n - i]?).bind fun out => if isUnspendable out.scriptPubKey then none else some (txCoin tx nHeight out)
  else none

lemma createdFrom_zero (host tx nHeight) :
    createdFrom tx (host.getHash tx) nHeight 0 tx.vout = createdCoin host tx nHeight := by
  funext outpoint
  simp [createdFrom, createdCoin]

lemma createdFrom_cons (out vout outpoint) : createdFrom tx txid nHeight i (out :: vout) outpoint =
      if outpoint = ⟨txid, i⟩ then (if isUnspendable out.scriptPubKey then none else some (txCoin tx nHeight out))
      else createdFrom tx txid nHeight (i + 1) vout outpoint := by
  obtain ⟨hash, n⟩ := outpoint
  simp only [createdFrom, COutPoint.mk.injEq]
  by_cases own : hash = txid
  · subst own
    simp only [true_and]
    rcases Nat.lt_trichotomy n i with below | rfl | above
    · grind
    · simp
    · obtain ⟨k, rfl⟩ : ∃ k, n = i + 1 + k := ⟨n - (i + 1), by omega⟩
      have index : i + 1 + k - i = k + 1 := by omega
      have index' : i + 1 + k - (i + 1) = k := by omega
      rw [if_pos (by omega), if_neg (by omega), if_pos (by omega), index, index', List.getElem?_cons_succ]
  · simp [own]
end

@[simp]
lemma createdFrom_nil (tx txid nHeight i) : createdFrom tx txid nHeight i [] = fun _ => none := by
  funext outpoint
  simp [createdFrom]

@[simp]
lemma createdFrom_succ_self (tx txid nHeight i vout) :
    createdFrom tx txid nHeight (i + 1) vout ⟨txid, i⟩ = none := by simp [createdFrom]

variable {txid : UInt256} {nHeight i : Nat} {vout : List CTxOut} {coin : Coin}
lemma createdFrom_succ_ne (made : createdFrom tx txid nHeight (i + 1) vout outpoint = some coin) : outpoint ≠ ⟨txid, i⟩ := by
  rintro rfl
  simp at made

lemma createdFrom_of_succ (out) (made : createdFrom tx txid nHeight (i + 1) vout outpoint = some coin) :
    createdFrom tx txid nHeight i (out :: vout) outpoint = some coin := by
  rw [createdFrom_cons, if_neg (createdFrom_succ_ne made)]
  exact made

lemma createdFrom_self {out} (dead : isUnspendable out.scriptPubKey = false) (tx txid) (nHeight i) (vout) :
    createdFrom tx txid nHeight i (out :: vout) ⟨txid, i⟩ = some (txCoin tx nHeight out) := by
  rw [createdFrom_cons, if_pos rfl, dead]
  rfl

lemma createdFrom_unspendable {out} (dead : isUnspendable out.scriptPubKey = true) (tx txid) (nHeight i) (vout) :
    createdFrom tx txid nHeight i (out :: vout) = createdFrom tx txid nHeight (i + 1) vout := by
  funext outpoint
  rw [createdFrom_cons]
  split
  · rename_i own
    subst own
    simp
  · rfl

lemma addCoinsFrom_written {txid nHeight vout i res} (valid : view.ValidCache)
    (uncovered : ∀ outpoint coin, createdFrom tx txid nHeight i vout outpoint = some coin → view.Uncovered outpoint)
    (adds : addCoinsFrom tx txid nHeight view i vout = .ok res) :
    Written view res (fun outpoint => (createdFrom tx txid nHeight i vout outpoint).or (view.visible outpoint)) ∧
      ∀ outpoint coin, createdFrom tx txid nHeight i vout outpoint = some coin →
        view.visible outpoint = none ∧ coin.isSpent = false := by
  induction vout generalizing view i with
  | nil =>
    cases adds
    rw [createdFrom_nil]
    exact ⟨.refl valid, by simp⟩
  | cons out vout ih =>
    obtain ⟨added, first, rest⟩ := Except.bind_eq_ok.mp adds
    have kept : ∀ outpoint coin, createdFrom tx txid nHeight (i + 1) vout outpoint = some coin → added.Uncovered outpoint := by
      intro outpoint coin made
      apply addCoin_uncovered first
      exact uncovered _ _ (createdFrom_of_succ _ made)
    cases dead : isUnspendable out.scriptPubKey with
    | true =>
      cases addCoin_skips (by exact dead) first
      rw [createdFrom_unspendable dead]
      exact ih valid kept rest
    | false =>
      have own : view.Uncovered ⟨txid, i⟩ := uncovered _ _ (createdFrom_self dead tx _ _ i _)
      obtain ⟨live, free, upd⟩ := addCoin_ok valid dead own first
      obtain ⟨wrote, hidden⟩ := ih upd.valid kept rest
      have whole := (Written.of_updated upd fun _ => addCoin_uncovered first).trans wrote
      refine ⟨?_, ?_⟩
      · convert whole using 2 with outpoint
        rw [createdFrom_cons, upd.visible]
        by_cases own : outpoint = ⟨txid, i⟩
        · subst own
          simp [dead]
        · rw [if_neg own, update_of_ne own]
      · intro outpoint coin made
        rw [createdFrom_cons] at made
        by_cases own : outpoint = ⟨txid, i⟩
        · subst own
          simp only [if_true, dead, Bool.false_eq_true, if_false, Option.some.injEq] at made
          exact ⟨free, made ▸ live⟩
        · rw [if_neg own] at made
          have later := hidden _ _ made
          rw [upd.visible, update_of_ne own] at later
          exact later

structure CoinsUpdated (host : Host) (tx : CTransaction) (nHeight : Nat) (view result : CCoinsView) (undo : CTxUndo) :
    Prop where
  written : Written view result (view.visible.applyTx host nHeight tx)
  undo : (tx.vin.map (·.prevout)).Nodup → undo = tx.prevouts.map fun outpoint => (view.visible outpoint).getD coinEmpty
  fresh : ∀ outpoint coin, createdCoin host tx nHeight outpoint = some coin →
    view.visible.spendAll tx.prevouts outpoint = none ∧ coin.isSpent = false

lemma updateCoins_spec {host nHeight res undo} (valid : view.ValidCache)
    (uncovered : ∀ outpoint coin, createdCoin host tx nHeight outpoint = some coin → view.Uncovered outpoint)
    (upd : updateCoins host tx view nHeight = .ok (undo, res)) :
    CoinsUpdated host tx nHeight view res undo := by
  obtain ⟨added, adds, same⟩ := Except.bind_eq_ok.mp upd
  cases same
  have spent : Written view (if tx.isCoinBase then ([], view) else spendInputs view tx.vin).2
      (view.visible.spendAll tx.prevouts) := by
    unfold CTransaction.prevouts
    cases tx.isCoinBase with
    | true => simpa using .refl valid
    | false => simpa using spendInputs_written _ valid
  rw [← createdFrom_zero] at uncovered
  obtain ⟨wrote, hidden⟩ := addCoinsFrom_written spent.valid
    (fun outpoint coin made => spent.uncovered _ (uncovered _ _ made)) adds
  rw [createdFrom_zero, spent.visible] at wrote hidden
  refine ⟨spent.trans wrote, ?_, hidden⟩
  intro dist
  unfold CTransaction.prevouts
  cases tx.isCoinBase with
  | true => rfl
  | false =>
    simp only [Bool.false_eq_true, if_false, List.map_map]
    exact spendInputs_undo valid dist

end Peony
