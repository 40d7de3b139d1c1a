import Peony.Library.Except
import Peony.Chain.Node

namespace Peony
open Int64Arith Consensus List Except CTransaction

def MAX_STANDARD_TX_SIZE : Nat := 150000
def LOCKTIME_THRESHOLD : Nat := 500000000

def isFinalTx (tx : CTransaction) (nBlockHeight nBlockTime : Nat) : Bool :=
  tx.nLockTime == 0 ||
    decide (tx.nLockTime < if tx.nLockTime < LOCKTIME_THRESHOLD then nBlockHeight else nBlockTime) ||
    tx.vin.all fun txin => txin.nSequence == 4294967295

def checkOutputs (params : Params) (tx : CTransaction) (nValueOut : Int) : List CTxOut → Except Failure Unit
  | [] => .ok ()
  | out :: vout => do
    require (!out.isEmpty || tx.isCoinBase || tx.isCoinStake) (.dos 100 "bad-txns-vout-empty")
    require (decide (0 ≤ out.nValue)) (.dos 100 "bad-txns-vout-negative")
    require (decide (out.nValue ≤ params.nMaxMoneyOut)) (.dos 100 "bad-txns-vout-toolarge")
    require (params.moneyRange (wrapInt64 (nValueOut + out.nValue))) (.dos 100 "bad-txns-txouttotal-toolarge")
    checkOutputs params tx (wrapInt64 (nValueOut + out.nValue)) vout

def checkTransaction (host : Host) (params : Params) (tx : CTransaction) : Except Failure Unit := do
  require (!tx.vin.isEmpty) (.dos 10 "bad-txns-vin-empty")
  require (!tx.vout.isEmpty) (.dos 10 "bad-txns-vout-empty")
  require (decide (host.getSerializeSize tx ≤ MAX_STANDARD_TX_SIZE)) (.dos 100 "bad-txns-oversize")
  checkOutputs params tx 0 tx.vout
  require (decide (tx.vin.map (·.prevout)).Nodup) (.dos 100 "bad-txns-inputs-duplicate")
  if tx.isCoinBase then
    require (tx.vin.head?.any fun txin => decide (2 ≤ txin.scriptSig.length) && decide (txin.scriptSig.length ≤ 150))
      (.dos 100 "bad-cb-length")
  else
    require (tx.vin.all fun txin => !txin.prevout.isNull) (.dos 10 "bad-txns-prevout-null")

def CTransaction.valueOut (tx : CTransaction) : Int := (tx.vout.map (·.nValue)).sum

structure CheckedTransaction (params : Params) (tx : CTransaction) : Prop where
  vin : tx.vin ≠ []
  vout : tx.vout ≠ []
  values : ∀ out ∈ tx.vout, 0 ≤ out.nValue ∧ out.nValue ≤ params.nMaxMoneyOut
  total : tx.valueOut ≤ params.nMaxMoneyOut
  inputs : (tx.vin.map (·.prevout)).Nodup
  prevouts : tx.isCoinBase = false → ∀ txin ∈ tx.vin, txin.prevout.isNull = false

variable {tx : CTransaction} {params : Params}
lemma checkOutputs_spec {vout nValueOut}
    (range : params.moneyRange nValueOut = true) (passed : checkOutputs params tx nValueOut vout = .ok ()) :
    (∀ out ∈ vout, 0 ≤ out.nValue ∧ out.nValue ≤ params.nMaxMoneyOut) ∧
      nValueOut + (vout.map (·.nValue)).sum ≤ params.nMaxMoneyOut := by
  induction vout generalizing nValueOut with
  | nil => grind [Params.moneyRange_iff]
  | cons out vout ih =>
    simp only [checkOutputs, require_bind_eq_ok, decide_eq_true_eq] at passed
    obtain ⟨-, low, high, next, rest⟩ := passed
    rw [Params.moneyRange_iff] at range
    have bound := params.maxMoney_lt
    have exact : wrapInt64 (nValueOut + out.nValue) = nValueOut + out.nValue :=
      wrapInt64_of_fits ⟨by omega, by omega⟩
    obtain ⟨values, total⟩ := ih next rest
    refine ⟨?_, ?_⟩
    · exact forall_mem_cons.mpr ⟨⟨low, high⟩, values⟩
    · simp only [map_cons, sum_cons]
      omega

lemma checkTransaction_spec {host} (passed : checkTransaction host params tx = .ok ()) : CheckedTransaction params tx := by
  simp only [checkTransaction, require_eq_ok, unit_bind_eq_ok, decide_eq_true_eq,
    Bool.not_eq_eq_eq_not, Bool.not_true, isEmpty_eq_false_iff] at passed
  obtain ⟨vin, vout, -, outputs, inputs, prevouts⟩ := passed
  have start : params.moneyRange 0 = true := Params.moneyRange_iff.mpr ⟨le_refl 0, params.maxMoney_nonneg⟩
  obtain ⟨values, total⟩ := checkOutputs_spec start outputs
  refine ⟨vin, vout, values, by simpa [valueOut] using total, inputs, ?_⟩
  intro plain txin mem
  rw [plain] at prevouts
  simp only [Bool.false_eq_true, if_false, require_eq_ok, all_eq_true, Bool.not_eq_eq_eq_not, Bool.not_true]
    at prevouts
  exact prevouts _ mem

lemma addValueOut_eq {vout nValueOut} (start : 0 ≤ nValueOut)
    (values : ∀ out ∈ vout, 0 ≤ out.nValue) (total : nValueOut + (vout.map (·.nValue)).sum < 2 ^ 63) :
    addValueOut nValueOut vout = .ok (nValueOut + (vout.map (·.nValue)).sum) := by
  induction vout generalizing nValueOut with
  | nil => simp [addValueOut]
  | cons out vout ih =>
    have value := values out (by simp)
    have rest : 0 ≤ (vout.map (·.nValue)).sum := sum_nonneg (by
      intro amt mem
      obtain ⟨other, ins, rfl⟩ := mem_map.mp mem
      exact values _ (by simp [ins]))
    simp only [map_cons, sum_cons] at total ⊢
    have exact : wrapInt64 (nValueOut + out.nValue) = nValueOut + out.nValue :=
      wrapInt64_of_fits ⟨by omega, by omega⟩
    rw [addValueOut, if_neg (by omega), exact, if_neg (by omega),
      ih (by omega) (fun other ins => values _ (by simp [ins])) (by omega)]
    ring_nf

variable (checked : CheckedTransaction params tx)
include checked

lemma CheckedTransaction.valueOut_nonneg : 0 ≤ tx.valueOut :=
  sum_nonneg (by
    intro amt mem
    obtain ⟨out, ins, rfl⟩ := mem_map.mp mem
    exact (checked.values _ ins).1)

lemma CheckedTransaction.getValueOut : tx.getValueOut = .ok tx.valueOut := by
  have bound := params.maxMoney_lt
  have total : (0 : Int) + (tx.vout.map (·.nValue)).sum < 2 ^ 63 := by
    have := checked.total
    unfold valueOut at this
    omega
  have values : ∀ out ∈ tx.vout, 0 ≤ out.nValue := fun out mem => (checked.values _ mem).1
  rw [CTransaction.getValueOut, addValueOut_eq (le_refl 0) values total, zero_add]
  rfl

end Peony
