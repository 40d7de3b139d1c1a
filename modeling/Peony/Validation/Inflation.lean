import Peony.Coins.Totals
import Peony.Consensus.MainNet
import Peony.Validation.ConnectSpec

namespace Peony
open Int64Arith Consensus CCoinsView AssocMap List CTransaction Coin Except ConnectState

def Coin.value (coin : Coin) : Int := coin.out.nValue
def valueAt (coins : FlatMap) (outpoint : COutPoint) : Int := weigh value (coins outpoint)

section
variable (coins : FlatMap) (tx : CTransaction)
def txValueIn : Int := (tx.prevouts.map (valueAt coins)).sum

lemma txValueIn_coinBase {coins tx} (base : tx.isCoinBase = true) : txValueIn coins tx = 0 := by
  rw [txValueIn, prevouts, if_pos base]
  rfl

def txFee : Int :=
  if tx.isCoinBase || tx.isCoinStake then 0 else txValueIn coins tx - tx.valueOut
end

def filledFor (view : CCoinsView) (tx : CTransaction) : CCoinsView :=
  if tx.isCoinBase then view else (view.haveInputs tx.vin).2

def viewsBefore (host : Host) (nHeight : Nat) (view : CCoinsView) : List CTransaction → List (CCoinsView × CTransaction)
  | [] => []
  | tx :: vtx => (view, tx) :: match updateCoins host tx (filledFor view tx) nHeight with
    | .ok (_, next) => viewsBefore host nHeight next vtx
    | .error _ => []

abbrev TxSteps := List (CCoinsView × CTransaction)
def TxSteps.valueIn (steps : TxSteps) : Int := (steps.map fun step => txValueIn step.1.visible step.2).sum
def TxSteps.valueOut (steps : TxSteps) : Int := (steps.map fun step => step.2.valueOut).sum
def TxSteps.fees (steps : TxSteps) : Int := (steps.map fun step => txFee step.1.visible step.2).sum

def roundAmounts (nFees nValueIn nValueOut : Int) (coins : FlatMap) (tx : CTransaction) : List Int :=
  (tx.prevouts.map (valueAt coins)).scanl (· + ·) 0 ++ (tx.vout.map (·.nValue)).scanl (· + ·) 0 ++
    [txFee coins tx, nFees + txFee coins tx, nValueIn + txValueIn coins tx, nValueOut + tx.valueOut]

def loopAmounts (nFees nValueIn nValueOut : Int) : TxSteps → List Int
  | [] => []
  | (view, tx) :: steps => roundAmounts nFees nValueIn nValueOut view.visible tx ++
      loopAmounts (nFees + txFee view.visible tx) (nValueIn + txValueIn view.visible tx) (nValueOut + tx.valueOut) steps

def blockAmounts (nBlockValue : Int) (isProofOfWork : Bool) (steps : TxSteps) : List Int :=
  loopAmounts 0 0 0 steps ++ [steps.valueOut - steps.valueIn, steps.valueOut - steps.valueIn + steps.fees] ++
    if isProofOfWork then [nBlockValue + steps.fees] else []

variable {weight : Coin → Int} {view : CCoinsView}
lemma haveCoin_loose {weight : Coin → Int} (loose : view.Loose) {op} :
    (view.haveCoin op).1 = (view.visible op).isSome ∧ (view.haveCoin op).2.visible = view.visible ∧
      Moved weight view (view.haveCoin op).2 0 := by
  cases view with
  | db database => exact loose.elim
  | cache layer base =>
    have read : LooseRead weight _ op _ := getCoin_loose loose _
    exact ⟨any_of_shown read.shown, read.visible, read.moved⟩

lemma haveInputs_loose {weight : Coin → Int} {vin} (loose : view.Loose) (held : (view.haveInputs vin).1 = true) :
    (∀ txin ∈ vin, ∃ coin, view.visible txin.prevout = some coin) ∧ (view.haveInputs vin).2.visible = view.visible ∧
      Moved weight view (view.haveInputs vin).2 0 := by
  induction vin generalizing view with
  | nil => exact ⟨by simp, rfl, .refl loose⟩
  | cons txin vin ih =>
    obtain ⟨found, same, moved⟩ := haveCoin_loose loose
    rw [haveInputs] at held ⊢
    cases first : (view.haveCoin _).1 with
    | false => simp [first] at held
    | true =>
      simp only [first, if_true] at held ⊢
      obtain ⟨others, sameRest, movedRest⟩ := ih moved.loose held
      rw [same] at others sameRest
      refine ⟨?_, sameRest, moved.after_fill movedRest⟩
      exact forall_mem_cons.mpr ⟨Option.isSome_iff_exists.mp (found ▸ first), others⟩

lemma spendInputs_loose {vin} (loose : view.Loose)
    (dist : (vin.map (·.prevout)).Nodup) (held : ∀ txin ∈ vin, ∃ coin, view.visible txin.prevout = some coin) :
    Moved weight view (spendInputs view vin).2 (-((vin.map (·.prevout)).map fun o => weigh weight (view.visible o)).sum) := by
  induction vin generalizing view with
  | nil => exact .refl loose
  | cons txin vin ih =>
    rw [map_cons, nodup_cons] at dist
    obtain ⟨coin, shown⟩ := held txin (by simp)
    obtain ⟨-, moved, others⟩ := spendCoin_loose weight loose shown
    have different : ∀ other ∈ vin, other.prevout ≠ txin.prevout := by
      intro other mem same
      apply dist.1
      rw [← same]
      exact mem_map_of_mem mem
    have rest := ih moved.loose dist.2 fun other mem => by
      rw [others _ (different _ mem)]
      exact held _ (by simp [mem])
    have values : ((vin.map (·.prevout)).map fun o => weigh weight ((view.spendCoin txin.prevout).2.visible o)) =
        (vin.map (·.prevout)).map fun o => weigh weight (view.visible o) := by
      apply map_congr_left
      intro o mem
      obtain ⟨other, ins, rfl⟩ := mem_map.mp mem
      rw [others _ (different _ ins)]
    rw [values] at rest
    have both := moved.trans rest
    rw [map_cons, map_cons, sum_cons, shown, neg_add]
    exact both

lemma addCoinsFrom_loose {tx txid nHeight vout i view result} (loose : view.Loose)
    (adds : addCoinsFrom tx txid nHeight view i vout = .ok result) :
    Moved weight view result
      ((vout.filter fun out => !isUnspendable out.scriptPubKey).map fun out => weight (txCoin tx nHeight out)).sum := by
  induction vout generalizing view i with
  | nil =>
    cases adds
    exact .refl loose
  | cons out vout ih =>
    obtain ⟨added, first, rest⟩ := bind_eq_ok.mp adds
    cases dead : isUnspendable out.scriptPubKey with
    | true =>
      cases addCoin_skips (by exact dead) first
      simpa [dead] using ih loose rest
    | false =>
      have moved : Moved weight _ _ _ := addCoin_loose loose (by exact dead) first
      simpa [dead] using moved.trans (ih moved.loose rest)

lemma updateCoins_loose {host tx nHeight view result undo}
    (loose : view.Loose) (dist : (tx.vin.map (·.prevout)).Nodup)
    (held : ∀ op ∈ tx.prevouts, ∃ coin, view.visible op = some coin)
    (upd : updateCoins host tx view nHeight = .ok (undo, result)) :
    Moved weight view result
      (-(tx.prevouts.map fun o => weigh weight (view.visible o)).sum +
        ((tx.vout.filter fun out => !isUnspendable out.scriptPubKey).map fun out => weight (txCoin tx nHeight out)).sum) := by
  obtain ⟨added, adds, same⟩ := bind_eq_ok.mp upd
  cases same
  unfold prevouts at held ⊢
  cases base : tx.isCoinBase with
  | true =>
    simp only [base, if_true] at adds
    have moved : Moved weight _ _ _ := addCoinsFrom_loose loose adds
    simpa using moved
  | false =>
    simp only [base, Bool.false_eq_true, if_false] at adds held ⊢
    have spent : Moved weight _ _ _ := spendInputs_loose loose dist fun txin mem =>
      held _ (mem_map_of_mem mem)
    exact spent.trans (addCoinsFrom_loose spent.loose adds)

variable {view : CCoinsView}
lemma checkInputValues_spec {params nSpendHeight vin nValueIn result} (range : params.moneyRange nValueIn = true)
    (passed : checkInputValues params view nSpendHeight nValueIn vin = .ok result) :
    (∀ txin ∈ vin, 0 ≤ (view.accessCoin txin.prevout).1.out.nValue) ∧
      result = nValueIn + (vin.map fun txin => (view.accessCoin txin.prevout).1.out.nValue).sum ∧
      result ≤ params.nMaxMoneyOut := by
  induction vin generalizing nValueIn with
  | nil =>
    cases passed
    simpa using (Params.moneyRange_iff.mp range).2
  | cons txin vin ih =>
    simp only [checkInputValues, require_eq_ok, unit_bind_eq_ok, Bool.and_eq_true] at passed
    obtain ⟨-, -, ⟨own, next⟩, rest⟩ := passed
    obtain ⟨values, total, bound⟩ := ih next rest
    have ownRange := Params.moneyRange_iff.mp own
    have startRange := Params.moneyRange_iff.mp range
    have limit := params.maxMoney_lt
    rw [wrapInt64_of_fits ⟨by omega, by omega⟩] at total
    refine ⟨?_, ?_, bound⟩
    · exact forall_mem_cons.mpr ⟨ownRange.1, values⟩
    · rw [total, map_cons, sum_cons, add_assoc]

lemma valueIn_eq (loose : view.Loose) {vin : List CTxIn} (held : ∀ txin ∈ vin, ∃ coin, view.visible txin.prevout = some coin) :
    (vin.map fun txin => (view.accessCoin txin.prevout).1.out.nValue) =
      (vin.map (·.prevout)).map (valueAt view.visible) := by
  rw [map_map]
  apply map_congr_left
  intro txin mem
  obtain ⟨coin, shown⟩ := held _ mem
  rw [accessCoin_loose loose, Function.comp, valueAt, shown]
  rfl

lemma spendableOut_le {params tx} (chk : CheckedTransaction params tx) (nHeight : Nat) :
    ((tx.vout.filter fun out => !isUnspendable out.scriptPubKey).map fun out => (txCoin tx nHeight out).value).sum ≤
      tx.valueOut := by
  have nonneg : ∀ out ∈ tx.vout, 0 ≤ out.nValue := fun out mem => (chk.values _ mem).1
  unfold valueOut
  generalize tx.vout = vout at nonneg ⊢
  induction vout with
  | nil => simp
  | cons out vout ih =>
    have rest := ih (forall_mem_cons.mp nonneg).2
    cases dead : isUnspendable out.scriptPubKey with
    | true => grind
    | false =>
      simp only [dead, Bool.not_false, filter_cons_of_pos, map_cons, sum_cons]
      have same : (txCoin tx nHeight out).value = out.nValue := rfl
      omega

structure SoundStep (params : Params) (step : CCoinsView × CTransaction) : Prop where
  values : ∀ outpoint ∈ step.2.prevouts, 0 ≤ valueAt step.1.visible outpoint
  bound : txValueIn step.1.visible step.2 ≤ params.nMaxMoneyOut
  covered : step.2.isCoinBase = false → step.2.isCoinStake = false → step.2.valueOut ≤ txValueIn step.1.visible step.2
  checked : CheckedTransaction params step.2

section
variable {host : Host} {params : CChainParams} {context : BlockContext} {state next : ConnectState} {i : Nat}
  {tx : CTransaction} {filled : CCoinsView} {nTxValueOut : Int} {txundo : CTxUndo}

variable (accepted : TxAccepted host params context state i tx filled nTxValueOut txundo next)
include accepted

lemma TxAccepted.valueOut_eq (chk : CheckedTransaction params.consensus tx) : nTxValueOut = tx.valueOut := by
  have valueOut := accepted.valueOut
  rw [chk.getValueOut] at valueOut
  exact (Except.ok.inj valueOut).symm

lemma TxAccepted.filled_eq : filled = filledFor state.view tx := by
  have inputs := accepted.inputs
  unfold filledFor
  cases base : tx.isCoinBase with
  | true => grind
  | false => grind

lemma TxAccepted.filled_loose (loose : state.view.Loose) :
    (∀ op ∈ tx.prevouts, ∃ coin, state.view.visible op = some coin) ∧ filled.visible = state.view.visible ∧
      Moved value state.view filled 0 := by
  have inputs := accepted.inputs
  unfold prevouts
  cases base : tx.isCoinBase with
  | true =>
    simp only [base, if_true, Prod.mk.injEq, true_and] at inputs
    subst inputs
    exact ⟨by simp, rfl, .refl loose⟩
  | false =>
    simp only [base, Bool.false_eq_true, if_false] at inputs
    obtain ⟨held, visible, moved⟩ := haveInputs_loose loose (by rw [inputs])
    rw [inputs] at visible moved
    refine ⟨?_, visible, moved⟩
    intro op mem
    obtain ⟨txin, inVin, rfl⟩ := mem_map.mp mem
    exact held _ inVin

lemma TxAccepted.input_values (loose : state.view.Loose) (chk : CheckedTransaction params.consensus tx)
    (unskipped : params.getTotalBlocksEstimate < context.nSpendHeight) (plain : tx.isCoinBase = false) :
    (∀ op ∈ tx.prevouts, 0 ≤ valueAt state.view.visible op) ∧
      txValueIn state.view.visible tx ≤ params.consensus.nMaxMoneyOut ∧
      (tx.isCoinStake = false → tx.valueOut ≤ txValueIn state.view.visible tx) := by
  obtain ⟨held, visible, moved⟩ := accepted.filled_loose loose
  have passed := accepted.checked
  have inputs : tx.prevouts = tx.vin.map (·.prevout) := by simp [prevouts, plain]
  simp only [checkInputs, plain, Bool.false_eq_true, if_false, unit_bind_eq_ok, checkTxInputs,
    if_neg (Nat.not_le.mpr unskipped), require_eq_ok] at passed
  obtain ⟨⟨-, passed⟩, -⟩ := passed
  obtain ⟨nValueIn, values, passed⟩ := bind_eq_ok.mp passed
  have start :=
    Params.moneyRange_iff.mpr ⟨le_refl 0, params.consensus.maxMoney_nonneg⟩
  obtain ⟨nonneg, total, bound⟩ := checkInputValues_spec start values
  have exact : (tx.vin.map fun txin => (filled.accessCoin txin.prevout).1.out.nValue) = tx.prevouts.map (valueAt state.view.visible) := by
    rw [valueIn_eq moved.loose, visible, inputs]
    intro txin mem
    rw [visible]
    exact held _ (inputs ▸ mem_map_of_mem mem)
  rw [exact, zero_add] at total
  refine ⟨?_, ?_, ?_⟩
  · intro op mem
    rw [inputs] at mem
    obtain ⟨txin, inVin, rfl⟩ := mem_map.mp mem
    obtain ⟨coin, shown⟩ := held _ (inputs ▸ mem_map_of_mem inVin)
    have own := nonneg _ inVin
    rw [accessCoin_loose moved.loose, visible, shown] at own
    rw [valueAt, shown]
    exact own
  · rw [txValueIn, ← total]
    exact bound
  · intro unstaked
    simp only [unstaked, Bool.false_eq_true, if_false, chk.getValueOut] at passed
    rw [txValueIn, ← total]
    have covered := (require_bind_eq_ok.mp passed).1
    simpa using covered

lemma TxAccepted.valued (loose : state.view.Loose) (chk : CheckedTransaction params.consensus tx)
    (unskipped : params.getTotalBlocksEstimate < context.nSpendHeight) :
    SoundStep params.consensus (state.view, tx) ∧ ∃ amt, amt ≤ tx.valueOut - txValueIn state.view.visible tx ∧
      Moved value state.view next.view amt := by
  obtain ⟨held, visible, moved⟩ := accepted.filled_loose loose
  have upd : Moved value filled next.view _ := updateCoins_loose moved.loose chk.inputs
    (by rw [visible]; exact held) accepted.updates
  rw [visible] at upd
  have live := spendableOut_le chk context.nHeight
  refine ⟨?_, _, ?_, moved.after_fill upd⟩
  · cases base : tx.isCoinBase with
    | true =>
      have none' : tx.prevouts = [] := by simp [prevouts, base]
      refine ⟨by simp [none'], ?_, by simp [base], chk⟩
      simp only [txValueIn, none']
      exact params.consensus.maxMoney_nonneg
    | false =>
      obtain ⟨values, bound, covered⟩ := accepted.input_values loose chk unskipped base
      exact ⟨values, bound, fun _ => covered, chk⟩
  · have spent : (tx.prevouts.map fun o => weigh value (state.view.visible o)).sum = txValueIn state.view.visible tx := rfl
    omega

lemma TxAccepted.getValueIn_eq (loose : state.view.Loose) : filled.getValueIn tx = wrapInt64 (txValueIn state.view.visible tx) := by
  obtain ⟨held, visible, moved⟩ := accepted.filled_loose loose
  unfold getValueIn txValueIn
  unfold prevouts at held ⊢
  cases base : tx.isCoinBase with
  | true => rfl
  | false =>
    simp only [base, Bool.false_eq_true, if_false] at held ⊢
    rw [foldl_wrapInt64_add _ _ ⟨by decide, by decide⟩, zero_add, valueIn_eq moved.loose, visible]
    intro txin mem
    rw [visible]
    exact held _ (mem_map_of_mem mem)
end

structure LoopTotals (params : Params) (state final : ConnectState) (steps : TxSteps) : Prop where
  nFees : final.nFees = wrapInt64 (state.nFees + steps.fees)
  nValueIn : final.nValueIn = wrapInt64 (state.nValueIn + steps.valueIn)
  nValueOut : final.nValueOut = wrapInt64 (state.nValueOut + steps.valueOut)
  moved : ∃ amount, amount ≤ steps.valueOut - steps.valueIn ∧ Moved value state.view final.view amount
  sound : ∀ step ∈ steps, SoundStep params step

lemma connectTxs_totals {host params context vtx state final i} (loose : state.view.Loose)
    (chk : ∀ tx ∈ vtx, CheckedTransaction params.consensus tx)
    (unskipped : params.getTotalBlocksEstimate < context.nSpendHeight)
    (fits : FitsInt64 state.nFees ∧ FitsInt64 state.nValueIn ∧ FitsInt64 state.nValueOut)
    (accepted : connectTxs host params context state i vtx = .ok final) :
    LoopTotals params.consensus state final (viewsBefore host context.nHeight state.view vtx) := by
  -- The three running totals are kept modulo 2^64, so each round only adds to a wrapped sum.
  induction vtx generalizing state i with
  | nil =>
    cases accepted
    refine ⟨?_, ?_, ?_, ⟨0, by rfl, .refl loose⟩, by simp [viewsBefore]⟩
    · simp [viewsBefore, TxSteps.fees, wrapInt64_of_fits fits.1]
    · simp [viewsBefore, TxSteps.valueIn, wrapInt64_of_fits fits.2.1]
    · simp [viewsBefore, TxSteps.valueOut, wrapInt64_of_fits fits.2.2]
  | cons tx vtx ih =>
    obtain ⟨next, first, rest⟩ := bind_eq_ok.mp accepted
    obtain ⟨filled, nTxValueOut, txundo, round⟩ := connectTx_accepted first
    have own := chk tx (by simp)
    obtain ⟨sound, amt, le, moved⟩ := round.valued loose own unskipped
    have valueOut := round.valueOut_eq own
    have valueIn := round.getValueIn_eq loose
    have nFees : next.nFees = wrapInt64 (state.nFees + txFee state.view.visible tx) := by
      rw [round.nFees, txFee]
      split
      · rw [add_zero, wrapInt64_of_fits fits.1]
      · rw [valueIn, valueOut, wrapInt64_sub_left, wrapInt64_add_right]
    have nValueIn : next.nValueIn = wrapInt64 (state.nValueIn + txValueIn state.view.visible tx) := by
      rw [round.nValueIn, valueIn, wrapInt64_add_right]
      split
      · rename_i base
        rw [txValueIn_coinBase base, add_zero, wrapInt64_of_fits fits.2.1]
      · rfl
    have nValueOut : next.nValueOut = wrapInt64 (state.nValueOut + tx.valueOut) := by rw [round.nValueOut, valueOut]
    have later := ih moved.loose (forall_mem_cons.mp chk).2
      ⟨nFees ▸ wrapInt64_fits _, nValueIn ▸ wrapInt64_fits _, nValueOut ▸ wrapInt64_fits _⟩ rest
    have steps : viewsBefore host context.nHeight state.view (tx :: vtx) =
        (state.view, tx) :: viewsBefore host context.nHeight next.view vtx := by rw [viewsBefore, ← round.filled_eq, round.updates]
    rw [steps]
    refine ⟨?_, ?_, ?_, ?_, ?_⟩
    · simp [later.nFees, nFees, wrapInt64_add_left, TxSteps.fees, map_cons, sum_cons, add_assoc]
    · simp [later.nValueIn, nValueIn, wrapInt64_add_left, TxSteps.valueIn, map_cons, sum_cons, add_assoc]
    · simp [later.nValueOut, nValueOut, wrapInt64_add_left, TxSteps.valueOut, map_cons, sum_cons, add_assoc]
    · obtain ⟨amt', le', moved'⟩ := later.moved
      refine ⟨_, ?_, moved.trans moved'⟩
      simp only [TxSteps.valueOut, TxSteps.valueIn, map_cons, sum_cons] at le' ⊢
      omega
    · exact forall_mem_cons.mpr ⟨sound, later.sound⟩

variable {params : Params} {step : CCoinsView × CTransaction}
lemma SoundStep.range (sound : SoundStep params step) :
    0 ≤ txValueIn step.1.visible step.2 ∧ 0 ≤ step.2.valueOut ∧ 0 ≤ txFee step.1.visible step.2 ∧
      txFee step.1.visible step.2 ≤ txValueIn step.1.visible step.2 := by
  have nIn : 0 ≤ txValueIn step.1.visible step.2 := by
    apply sum_nonneg
    intro amt mem
    obtain ⟨op, ins, rfl⟩ := mem_map.mp mem
    exact sound.values _ ins
  have nOut := sound.checked.valueOut_nonneg
  refine ⟨nIn, nOut, ?_⟩
  unfold txFee
  split
  · exact ⟨le_refl 0, nIn⟩
  · rename_i plain
    simp only [Bool.or_eq_true, not_or, Bool.not_eq_true] at plain
    have covered := sound.covered plain.1 plain.2
    omega

variable {steps : TxSteps}
lemma TxSteps.range (sound : ∀ step ∈ steps, SoundStep params step) :
    0 ≤ steps.valueIn ∧ 0 ≤ steps.valueOut ∧ 0 ≤ steps.fees ∧ steps.fees ≤ steps.valueIn := by
  unfold TxSteps.valueIn TxSteps.valueOut TxSteps.fees
  induction steps with
  | nil => simp
  | cons step steps ih =>
    obtain ⟨nIn, nOut, nFees, le⟩ := ih (forall_mem_cons.mp sound).2
    obtain ⟨ownIn, ownOut, ownFee, ownLe⟩ := (sound step (by simp)).range
    simp only [map_cons, sum_cons]
    omega

lemma mem_scanl_range {amts : List Int} (nonneg : ∀ amt ∈ amts, 0 ≤ amt) {start amt}
    (mem : amt ∈ amts.scanl (· + ·) start) : start ≤ amt ∧ amt ≤ start + amts.sum := by
  induction amts generalizing start with
  | nil =>
    simp only [scanl_nil, mem_singleton] at mem
    simp [mem]
  | cons first amts ih =>
    have rest : 0 ≤ amts.sum := sum_nonneg fun other ins => nonneg _ (by simp [ins])
    have own := nonneg first (by simp)
    rw [scanl_cons, mem_cons] at mem
    rw [sum_cons]
    rcases mem with rfl | mem
    · omega
    · have later := ih (fun other ins => nonneg _ (by simp [ins])) mem
      omega

lemma roundAmounts_fit {nFees nValueIn nValueOut : Int} (sound : SoundStep params step)
    (start : 0 ≤ nFees ∧ 0 ≤ nValueIn ∧ 0 ≤ nValueOut ∧ nFees ≤ nValueIn)
    (inBound : nValueIn + txValueIn step.1.visible step.2 < 2 ^ 63) (outBound : nValueOut + step.2.valueOut < 2 ^ 63) :
    ∀ amt ∈ roundAmounts nFees nValueIn nValueOut step.1.visible step.2, FitsInt64 amt := by
  intro amt mem
  obtain ⟨ownIn, ownOut, ownFee, ownLe⟩ := sound.range
  simp only [roundAmounts, mem_append, mem_cons, not_mem_nil, or_false] at mem
  unfold FitsInt64
  rcases mem with (mem | mem) | rfl | rfl | rfl | rfl
  · have between := mem_scanl_range (fun value ins => by
      obtain ⟨op, inPrevouts, rfl⟩ := mem_map.mp ins
      exact sound.values _ inPrevouts) mem
    have whole : (step.2.prevouts.map (valueAt step.1.visible)).sum = txValueIn step.1.visible step.2 := rfl
    omega
  · have between := mem_scanl_range (fun value ins => by
      obtain ⟨out, inVout, rfl⟩ := mem_map.mp ins
      exact (sound.checked.values _ inVout).1) mem
    have whole : (step.2.vout.map (·.nValue)).sum = step.2.valueOut := rfl
    omega
  all_goals omega

lemma loopAmounts_fit (sound : ∀ step ∈ steps, SoundStep params step) {nFees nValueIn nValueOut}
    (start : 0 ≤ nFees ∧ 0 ≤ nValueIn ∧ 0 ≤ nValueOut ∧ nFees ≤ nValueIn)
    (inBound : nValueIn + steps.valueIn < 2 ^ 63) (outBound : nValueOut + steps.valueOut < 2 ^ 63) :
    ∀ amt ∈ loopAmounts nFees nValueIn nValueOut steps, FitsInt64 amt := by
  induction steps generalizing nFees nValueIn nValueOut with
  | nil => simp [loopAmounts]
  | cons step steps ih =>
    have later := fun other mem => sound other (mem_cons_of_mem _ mem)
    obtain ⟨nIn, nOut, -⟩ := TxSteps.range later
    have own := (sound step (by simp)).range
    simp only [TxSteps.valueIn, TxSteps.valueOut, map_cons, sum_cons] at inBound outBound nIn nOut
    intro amt mem
    rw [loopAmounts, mem_append] at mem
    rcases mem with mem | mem
    · exact roundAmounts_fit (sound _ (by simp)) start (by omega) (by omega) _ mem
    · grind [TxSteps.valueIn, TxSteps.valueOut]

lemma totals_mem_loopAmounts (ne : steps ≠ []) (nFees nValueIn nValueOut : Int) :
    nValueIn + steps.valueIn ∈ loopAmounts nFees nValueIn nValueOut steps ∧
      nValueOut + steps.valueOut ∈ loopAmounts nFees nValueIn nValueOut steps := by
  induction steps generalizing nFees nValueIn nValueOut with
  | nil => exact absurd rfl ne
  | cons step steps ih =>
    simp only [TxSteps.valueIn, TxSteps.valueOut, map_cons, sum_cons, loopAmounts, mem_append]
    cases steps with
    | nil => simp [roundAmounts]
    | cons other steps =>
      obtain ⟨nIn, nOut⟩ := ih (by simp) _ _
        _
      rw [← add_assoc, ← add_assoc]
      exact ⟨.inr nIn, .inr nOut⟩

def blockSteps (host : Host) (block : CBlock) (nHeight : Nat) (view : CCoinsView) : TxSteps :=
  viewsBefore host nHeight view.getBestBlock.2 block.vtx

/-- No more than the reward, counted without leaving the range of `CAmount`. -/
structure NoInflation (host : Host) (params : CChainParams) (mDynamicRewards : DynamicRewards) (block : CBlock)
    (nHeight : Nat) (view after : CCoinsView) : Prop where
  bound : after.coinTotal value ≤ view.coinTotal value + getBlockValue params.consensus mDynamicRewards nHeight -
    if block.isProofOfStake then (blockSteps host block nHeight view).fees else 0
  range : ∀ amount ∈ blockAmounts (getBlockValue params.consensus mDynamicRewards nHeight) block.isProofOfWork
    (blockSteps host block nHeight view), FitsInt64 amount

lemma parentVisible_getBestBlock (valid : view.ValidCache) : view.getBestBlock.2.parentVisible = view.parentVisible := by
  obtain ⟨layer, base, rfl⟩ := valid.exists_cache
  rw [getBestBlock]
  split
  · exact (getBestBlock_filled valid.wellFormed.1).visible
  · rfl

section
variable {host : Host} {params : CChainParams} {mDynamicRewards : DynamicRewards} {block : CBlock}
  {pindex pprev : CBlockIndex} {view : CCoinsView} {state : ConnectState} {result : ConnectResult}

section
variable (accepted : BlockAccepted host params mDynamicRewards block pindex pprev view state result)
  (valid : view.ValidCache) (unskipped : params.getTotalBlocksEstimate < pprev.nHeight + 1)
include accepted valid unskipped

lemma BlockAccepted.totals :
    LoopTotals params.consensus (.start view.getBestBlock.2) state (blockSteps host block pindex.nHeight view) := by
  have opened := (getBestBlock_filled valid.wellFormed).valid valid
  have fits : FitsInt64 0 := by decide
  have unskipped' : params.getTotalBlocksEstimate < BlockContext.nSpendHeight ⟨pindex.nHeight, pprev.nHeight⟩ := unskipped
  exact connectTxs_totals opened.loose accepted.checked.transactions unskipped' ⟨fits, fits, fits⟩
    accepted.connected

lemma BlockAccepted.coinTotal_le (values : ∀ op coin, view.parentVisible op = some coin → 0 ≤ coin.value) :
    result.view.coinTotal value ≤ view.coinTotal value + (blockSteps host block pindex.nHeight view).valueOut -
      (blockSteps host block pindex.nHeight view).valueIn := by
  have filled := getBestBlock_filled valid.wellFormed
  obtain ⟨amt, le, moved⟩ := (accepted.totals valid unskipped).moved
  have parent := moved.parent.trans (parentVisible_getBestBlock valid)
  have after :=
    coinTotal_le_potential (by rw [parent]; exact values)
  have pre : (start view.getBestBlock.2).view.potential value = view.coinTotal value := by
    rw [start, potential_of_valid (filled.valid valid), coinTotal_congr _ filled.visible]
  rw [accepted.view_eq, coinTotal_congr _ (setBestBlock_visible _ _)]
  have moves := moved.moves
  omega
end

lemma blockSteps_nonempty (chk : CheckedBlock params.consensus block) {nHeight : Nat} : blockSteps host block nHeight view ≠ [] := by
  obtain ⟨tx, vtx, shape, -⟩ := chk.coinbase
  rw [blockSteps, shape, viewsBefore]
  simp

lemma LoopTotals.nMint_eq {steps start} (totals : LoopTotals params.consensus (.start start) state steps)
    (inBound : steps.valueIn < 2 ^ 63) (outBound : steps.valueOut < 2 ^ 63) :
    state.nFees = steps.fees ∧ state.nMint = steps.valueOut - steps.valueIn + steps.fees := by
  obtain ⟨nIn, nOut, nFees, le⟩ := TxSteps.range totals.sound
  have zero : (ConnectState.start start).nFees = 0 ∧ (ConnectState.start start).nValueIn = 0 ∧
      (ConnectState.start start).nValueOut = 0 := ⟨rfl, rfl, rfl⟩
  have fees := totals.nFees
  have valueIn := totals.nValueIn
  have valueOut := totals.nValueOut
  rw [zero.1, zero_add, wrapInt64_of_fits ⟨by omega, by omega⟩] at fees
  rw [zero.2.1, zero_add, wrapInt64_of_fits ⟨by omega, by omega⟩] at valueIn
  rw [zero.2.2, zero_add, wrapInt64_of_fits ⟨by omega, by omega⟩] at valueOut
  refine ⟨fees, ?_⟩
  rw [nMint, fees, valueIn, valueOut, wrapInt64_add_left]
  exact wrapInt64_of_fits ⟨by omega, by omega⟩

lemma blockAmounts_fit {steps} (sound : ∀ step ∈ steps, SoundStep params.consensus step) {nBlockValue isProofOfWork}
    (low : -2 ^ 63 ≤ nBlockValue) (inBound : steps.valueIn < 2 ^ 63)
    (outBound : steps.valueOut < 2 ^ 63) (reward : isProofOfWork = true → nBlockValue + steps.fees < 2 ^ 63) :
    ∀ amt ∈ blockAmounts nBlockValue isProofOfWork steps, FitsInt64 amt := by
  obtain ⟨nIn, nOut, nFees, le⟩ := TxSteps.range sound
  intro amt mem
  simp only [blockAmounts, mem_append, mem_cons, not_mem_nil, or_false] at mem
  rcases mem with (mem | rfl | rfl) | mem
  · exact loopAmounts_fit sound ⟨le_refl 0, le_refl 0, le_refl 0, le_refl 0⟩ (by omega) (by omega) _ mem
  · exact ⟨by omega, by omega⟩
  · exact ⟨by omega, by omega⟩
  · cases isProofOfWork with
    | false => simp at mem
    | true =>
      obtain rfl : amt = nBlockValue + steps.fees := by simpa using mem
      exact ⟨by omega, reward rfl⟩

/-- A block obeys the reward limit without overflow exactly when its exact totals fit. -/
theorem connectBlock_noInflation_iff (valid : view.ValidCache)
    (values : ∀ outpoint coin, view.parentVisible outpoint = some coin → 0 ≤ coin.value)
    (amounts : ∀ nHeight amount, mDynamicRewards.lookup nHeight = some amount → FitsInt64 amount)
    (linked : pindex.nHeight = pprev.nHeight + 1) (unskipped : params.getTotalBlocksEstimate < pindex.nHeight)
    (connected : connectBlock host params mDynamicRewards block pindex pprev view = .ok result) :
    NoInflation host params mDynamicRewards block pindex.nHeight view result.view ↔
      (blockSteps host block pindex.nHeight view).valueIn < 2 ^ 63 ∧
      (blockSteps host block pindex.nHeight view).valueOut < 2 ^ 63 ∧
      (block.isProofOfWork = true → getBlockValue params.consensus mDynamicRewards pindex.nHeight +
        (blockSteps host block pindex.nHeight view).fees < 2 ^ 63) := by
  obtain ⟨state, accepted⟩ := connectBlock_accepted connected
  have totals := accepted.totals valid (linked ▸ unskipped)
  have grows := accepted.coinTotal_le valid (linked ▸ unskipped) values
  have minted := accepted.minted
  have low := getBlockValue_ge params.consensus amounts pindex.nHeight
  have nonempty : blockSteps host block pindex.nHeight view ≠ [] := blockSteps_nonempty accepted.checked
  generalize exact : blockSteps .. = steps at totals grows nonempty ⊢
  constructor
  · -- The final totals are themselves among the amounts the loop computes.
    rintro ⟨-, range⟩
    rw [exact] at range
    obtain ⟨inMember, outMember⟩ := totals_mem_loopAmounts nonempty 0 0 0
    rw [zero_add] at inMember outMember
    have inFits := range steps.valueIn (by simp only [blockAmounts, mem_append, inMember, true_or])
    have outFits := range steps.valueOut (by simp only [blockAmounts, mem_append, outMember, true_or])
    refine ⟨inFits.2, outFits.2, ?_⟩
    intro work
    exact (range _
      (by simp [blockAmounts, work])).2
  · -- Below these bounds nothing has wrapped, and the check on `nMint` is a check of the exact totals.
    rintro ⟨inBound, outBound, reward⟩
    obtain ⟨fees, nMint⟩ := totals.nMint_eq inBound outBound
    refine ⟨?_, exact ▸ blockAmounts_fit totals.sound low inBound outBound reward⟩
    have kind : block.isProofOfWork = !block.isProofOfStake := rfl
    rw [expectedMint, fees, ← linked, kind] at minted
    cases stake : block.isProofOfStake with
    | true => grind
    | false =>
      obtain ⟨nIn, nOut, nFees, le⟩ := TxSteps.range totals.sound
      have small := reward (by rw [kind, stake]; rfl)
      rw [wrapInt64_of_fits ⟨by omega, small⟩] at minted
      simp only [Bool.false_eq_true, if_false] at minted ⊢
      omega
end

/-- The main network with `-checkpoints=0`. -/
def uncheckpointed : CChainParams := { mainParams with fEnabled := false }

def smallCoins : CoinMap := (List.range 11).foldl (fun coins n => coins.insert ⟨5, n⟩ ⟨false, false, ⟨1, []⟩, 1⟩) ∅
def smallCoinsView : CCoinsView := .cache ⟨499, ∅⟩ (.db ⟨499, smallCoins⟩)

lemma smallCoins_sound (op) (coin : Coin) (found : smallCoins.lookup op = some coin) :
    coin.isSpent = false ∧ 0 ≤ coin.value := by
  have every : ∀ entry ∈ smallCoins.entries, entry.2.isSpent = false ∧ 0 ≤ entry.2.value := by decide +kernel
  exact every _ (AList.mem_lookup_iff.mp found)

lemma smallCoinsView_valid : smallCoinsView.ValidCache := by
  refine ⟨trivial, fun op coin found => (smallCoins_sound _ _ found).1, ?_⟩
  intro op entry found
  cases found

def rewardBlock : CBlock := blockAt 500 [coinbaseTx 98 (50 * COIN), paymentTx 99 [⟨5, 10⟩] [⟨1, []⟩]]

theorem rewardBlock_noInflation : ∃ result,
    connectBlock labelHost uncheckpointed ∅ rewardBlock (newIndex 500) (indexAt 499) smallCoinsView = .ok result ∧
    NoInflation labelHost uncheckpointed ∅ rewardBlock 500 smallCoinsView result.view := by
  obtain ⟨result, connected, -⟩ := exists_ok_of_any (show (connectBlock labelHost uncheckpointed ∅ rewardBlock
    (newIndex 500) (indexAt 499) smallCoinsView).toOption.any (fun _ => true) = true by decide +kernel)
  refine ⟨result, connected, (connectBlock_noInflation_iff smallCoinsView_valid
    (fun outpoint coin found => (smallCoins_sound outpoint coin found).2) ?_ rfl (by decide) connected).mpr ?_⟩
  · intro nHeight amount found
    cases found
  · decide +kernel

def mintingTx (n : Nat) : CTransaction := paymentTx (100 + n) [⟨5, n⟩] [⟨0, []⟩, ⟨9999999999 * COIN, []⟩]

-- ten transactions shaped like coinstakes, none of them second in the block
def mintingBlock : CBlock :=
  blockAt 500 (coinbaseTx 98 0 :: paymentTx 99 [⟨5, 10⟩] [⟨1, []⟩] :: (List.range 10).map mintingTx)

/-- Eleven units become about `10 ^ 19`: the minted total wraps below zero. -/
theorem mintingBlock_inflates : ∃ result,
    connectBlock labelHost uncheckpointed ∅ mintingBlock (newIndex 500) (indexAt 499) smallCoinsView = .ok result ∧
    uncheckpointed.getTotalBlocksEstimate < 500 ∧ mintingBlock.isProofOfStake = false ∧
    smallCoinsView.coinTotal value = 11 ∧ result.view.coinTotal value = 10 * (9999999999 * COIN) + 1 ∧
    ¬ NoInflation labelHost uncheckpointed ∅ mintingBlock 500 smallCoinsView result.view := by
  obtain ⟨result, connected, total⟩ := exists_ok_of_any (show (connectBlock labelHost uncheckpointed ∅ mintingBlock
    (newIndex 500) (indexAt 499) smallCoinsView).toOption.any
      (fun result => decide (result.view.coinTotal value = 10 * (9999999999 * COIN) + 1)) = true by decide +kernel)
  rw [decide_eq_true_eq] at total
  have before : smallCoinsView.coinTotal value = 11 := by decide +kernel
  refine ⟨result, connected, by decide, by decide, before, total, ?_⟩
  rintro ⟨bound, -⟩
  rw [total, before, if_neg (by decide)] at bound
  revert bound
  decide +kernel

end Peony
