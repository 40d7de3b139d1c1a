import Peony.Masternode.Calls

namespace Peony
open Consensus CollateralMaps Option FlatMap

/-- What the index takes over of a coin; the flags of its coins are its own. -/
def Coin.outHeight (coin : Coin) : CTxOut × Nat := (coin.out, coin.nHeight)

def SameCollaterals (coins coins' : FlatMap) : Prop :=
  ∀ outpoint, (coins outpoint).map Coin.outHeight = (coins' outpoint).map Coin.outHeight

def collateralSlice (params : Params) (nHeight : Nat) (coins : FlatMap) : FlatMap :=
  fun outpoint => (coins outpoint).filter fun coin => isCollateralAmount params nHeight coin.out.nValue

def valueSlice (nCollateral : Int) (coins : FlatMap) : FlatMap :=
  fun outpoint => (coins outpoint).filter fun coin => coin.out.nValue == nCollateral

structure Steady (params : Params) (nCollateral : Int) (nHeight : Nat) : Prop where
  positive : 0 < nCollateral
  now : getMasternodeNodeCollateral nHeight = nCollateral
  nextWeek : getMasternodeNodeCollateral (nHeight + params.nBlocksPerWeek) = nCollateral

section
variable {host : Host} {params : Params} {nCollateral : Int} {nHeight : Nat}
section
variable (steady : Steady params nCollateral nHeight)
include steady

lemma Steady.isCollateralAmount_iff (nValue) : isCollateralAmount params nHeight nValue = true ↔ nValue = nCollateral := by
  simp [isCollateralAmount, steady.now, steady.nextWeek]

lemma Steady.slice_eq (coins) : collateralSlice params nHeight coins = valueSlice nCollateral coins := by
  have same : ∀ nValue, isCollateralAmount params nHeight nValue = (nValue == nCollateral) := by
    intro nValue
    rw [Bool.eq_iff_iff, steady.isCollateralAmount_iff, beq_iff_eq]
  funext op
  simp only [collateralSlice, valueSlice, same]
end

variable (outputOf : COutPoint → CTxOut)
structure NamesOutputs (host : Host) (tx : CTransaction) : Prop where
  outputs : ∀ n out, tx.vout[n]? = some out → outputOf ⟨host.getHash tx, n⟩ = out
  few : tx.vout.length ≤ 4294967295

def CoinsNamed (coins : FlatMap) : Prop :=
  ∀ outpoint coin, coins outpoint = some coin → coin.out = outputOf outpoint ∧ outpoint.isNull = false

variable {outputOf} {coins : FlatMap}
lemma CoinsNamed.applyTx {tx} (named : CoinsNamed outputOf coins)
    (ids : NamesOutputs outputOf host tx) : CoinsNamed outputOf (coins.applyTx host nHeight tx) := by
  intro op coin shown
  rcases applyTx_eq_some shown with made | ⟨-, kept⟩
  · obtain ⟨own, out, found, -, rfl⟩ := createdCoin_eq_some made
    have ins := (List.getElem?_eq_some_iff.mp found).1
    have few := ids.few
    refine ⟨?_, ?_⟩
    · rw [← ids.outputs _ _ found, ← own]
      rfl
    · rw [COutPoint.isNull, Bool.and_eq_false_iff, beq_eq_false_iff_ne (a := op.n)]
      omega
  · exact named _ _ kept

lemma CoinsNamed.applyTxs {vtx} (named : CoinsNamed outputOf coins)
    (ids : ∀ tx ∈ vtx, NamesOutputs outputOf host tx) : CoinsNamed outputOf (coins.applyTxs host nHeight vtx) := by
  induction vtx generalizing coins with
  | nil => exact named
  | cons tx vtx ih => exact ih (named.applyTx (ids tx (by simp))) (List.forall_mem_cons.mp ids).2

lemma CoinsNamed.slice_eq_none {op} (named : CoinsNamed outputOf coins)
    (other : isCollateralAmount params nHeight (outputOf op).nValue = false) :
    collateralSlice params nHeight coins op = none := by
  unfold collateralSlice
  cases held : coins _ with
  | none => rfl
  | some coin => rw [filter_some_neg (by rw [(named _ _ held).1, other])]

lemma slice_spendAll (params nHeight) (named : CoinsNamed outputOf coins) (tx : CTransaction) :
    collateralSlice params nHeight (coins.spendAll tx.prevouts) =
      (collateralSlice params nHeight coins).spendAll (tx.vin.map (·.prevout)) := by
  funext op
  unfold collateralSlice spendAll CTransaction.prevouts
  by_cases coinbase : tx.isCoinBase = true
  · simp only [coinbase, if_true, List.not_mem_nil, if_false]
    split
    · cases held : coins _ with
      | none => rfl
      | some coin =>
        have null : op.isNull = true := by grind [CTransaction.isCoinBase]
        rw [(named _ _ held).2] at null
        cases null
    · rfl
  · grind

lemma applyCollateralTx_same (removed) {coins flat tx} (steady : Steady params nCollateral nHeight)
    (named : CoinsNamed outputOf flat) (ids : NamesOutputs outputOf host tx)
    (spendable : ∀ out ∈ tx.vout, out.nValue = nCollateral → isUnspendable out.scriptPubKey = false)
    (same : SameCollaterals coins (collateralSlice params nHeight flat)) :
    SameCollaterals (applyCollateralTx host params nHeight (coins, removed) tx).1
      (collateralSlice params nHeight (flat.applyTx host nHeight tx)) := by
  intro op
  change ((collateralOf _ _ _ tx _).or (coins.spendAll _ _)).map _ =
    (((createdCoin _ tx _ _).or _).filter _).map _
  cases created : collateralOf _ _ _ tx _ with
  | some coin =>
    obtain ⟨own, out, found, amt, rfl⟩ := collateralOf_eq_some created
    have live := spendable _ (List.mem_of_getElem? found) ((steady.isCollateralAmount_iff _).mp amt)
    have coin : createdCoin host tx nHeight op = some (txCoin tx nHeight out) := by simp [createdCoin, own, found, live]
    rw [coin, some_or, some_or, filter_some_pos (by exact amt)]
    rfl
  | none =>
    rw [none_or]
    cases made : createdCoin _ tx _ _ with
    | some coin =>
      -- an output of another amount: nothing of that name was in the index
      obtain ⟨own, out, found, -, rfl⟩ := createdCoin_eq_some made
      have other : isCollateralAmount params nHeight out.nValue = false := by
        rw [Bool.eq_false_iff]
        intro amt
        rw [collateralOf_of_output own found amt] at created
        cases created
      have name : outputOf op = out := by rw [← ids.outputs _ _ found, ← own]
      have absent := same op
      rw [named.slice_eq_none (by rw [name, other]), map_none, map_eq_none_iff] at absent
      rw [some_or, filter_some_neg (by simp [txCoin, other]), spendAll, absent, ite_self]
    | none =>
      have spent := congrFun (slice_spendAll params nHeight named tx) op
      change ((flat.spendAll _ _).filter _) = _ at spent
      rw [none_or, spent]
      unfold spendAll
      split
      · rfl
      · exact same _

/-- The blocks the index follows: their ids name outputs, and no collateral is burnt. -/
structure PlainBlock (outputOf : COutPoint → CTxOut) (host : Host) (nCollateral : Int) (block : CBlock) : Prop where
  ids : ∀ tx ∈ block.vtx, NamesOutputs outputOf host tx
  spendable : ∀ tx ∈ block.vtx, ∀ out ∈ tx.vout, out.nValue = nCollateral → isUnspendable out.scriptPubKey = false

lemma applyCollateralTxs_same (vtx) {coins flat removed}
    (steady : Steady params nCollateral nHeight) (named : CoinsNamed outputOf flat)
    (ids : ∀ tx ∈ vtx, NamesOutputs outputOf host tx)
    (live : ∀ tx ∈ vtx, ∀ out ∈ tx.vout, out.nValue = nCollateral → isUnspendable out.scriptPubKey = false)
    (same : SameCollaterals coins (collateralSlice params nHeight flat)) :
    SameCollaterals (vtx.foldl (applyCollateralTx host params nHeight) (coins, removed)).1
      (collateralSlice params nHeight (flat.applyTxs host nHeight vtx)) := by
  induction vtx generalizing coins flat removed with
  | nil => exact same
  | cons tx vtx ih =>
    have first := applyCollateralTx_same removed steady named (ids tx (by simp)) (live tx (by simp)) same
    exact ih (named.applyTx (ids tx (by simp))) (List.forall_mem_cons.mp ids).2
      ((List.forall_mem_cons.mp live).2) first
end

variable {coins coins' removed removed' : FlatMap}
lemma SameCollaterals.refl (coins) : SameCollaterals coins coins := fun _ => rfl

lemma SameCollaterals.trans {coins''} (first : SameCollaterals coins coins') (snd : SameCollaterals coins' coins'') :
    SameCollaterals coins coins'' := fun _ => (first _).trans (snd _)

section
variable (same : SameCollaterals coins coins')
include same

lemma SameCollaterals.symm : SameCollaterals coins' coins :=
  fun _ => (same _).symm

lemma SameCollaterals.or (same' : SameCollaterals removed removed') :
    SameCollaterals (fun op => (coins op).or (removed op)) fun op => (coins' op).or (removed' op) := by
  intro op
  rw [map_or, map_or, same, same']

lemma SameCollaterals.spendAll (ops) : SameCollaterals (coins.spendAll ops) (coins'.spendAll ops) := by
  intro op
  unfold FlatMap.spendAll
  split
  · rfl
  · exact same _

lemma SameCollaterals.undoFor (same' : SameCollaterals removed removed') (ops) :
    SameCollaterals (CollateralMaps.undoFor coins removed ops) (CollateralMaps.undoFor coins' removed' ops) := by
  intro op
  unfold CollateralMaps.undoFor
  rw [map_or, map_or, same']
  split
  · rw [same]
  · rfl
end

lemma applyCollateralTxs_congr (host params) (nHeight : Nat) (vtx : List CTransaction)
    (same : SameCollaterals coins coins') (same' : SameCollaterals removed removed') :
    SameCollaterals (vtx.foldl (applyCollateralTx host params nHeight) (coins, removed)).1
        (vtx.foldl (applyCollateralTx host params nHeight) (coins', removed')).1 ∧
      SameCollaterals (vtx.foldl (applyCollateralTx host params nHeight) (coins, removed)).2
        (vtx.foldl (applyCollateralTx host params nHeight) (coins', removed')).2 := by
  induction vtx generalizing coins coins' removed removed' with
  | nil => exact ⟨same, same'⟩
  | cons tx vtx ih => exact ih ((SameCollaterals.refl _).or (same.spendAll _)) (same.undoFor same' _)

end Peony
