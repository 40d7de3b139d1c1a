import Peony.Masternode.PaymentAgreement

namespace Peony
open List

namespace PaymentView

lemma subtractPayment_split (masternodePayment first last init) :
    let share := masternodePayment.tdiv (init.length + 1)
    subtractPayment masternodePayment (first :: (init ++ [last])) =
      first :: (init.map (fun out => { out with nValue := out.nValue - share }) ++
        [{ last with nValue := last.nValue - share - (masternodePayment - share * (init.length + 1)) }]) := by
  intro share
  cases init with
  | nil => simp [subtractPayment, share]
  | cons out init =>
    have long : 2 < init.length + 1 + 1 + 1 := by omega
    simp only [subtractPayment, mapIdx_cons, mapIdx_append, length_cons, length_append, length_nil,
      mapIdx_nil, Nat.add_sub_cancel]
    simp only [long, share]
    simp
    apply List.ext_getElem (by simp)
    intro j low _
    have pre : j ≠ init.length := by
      rw [length_mapIdx] at low
      omega
    simp [pre]

/-- The total stays, and the payment is the last output. The rest is non-negative exactly if each output covers its
share, and the last one the remainder too. -/
theorem fillBlockPayee_moves (view : PaymentView) {tx : CTransaction} {pindexPrev : CBlockIndex} {payee : CScript}
    (coinstake : tx.isCoinStake = true) (chosen : view.getBlockPayee pindexPrev = some payee)
    (nonneg : 0 ≤ view.masternodePayment (pindexPrev.nHeight + 1)) :
    let payment := view.masternodePayment (pindexPrev.nHeight + 1)
    let filled := (view.fillBlockPayee tx (some pindexPrev) true).vout
    let k : Int := tx.vout.tail.length
    (filled.map (·.nValue)).sum = (tx.vout.map (·.nValue)).sum ∧ filled.length = tx.vout.length + 1 ∧
      filled.getLast? = some ⟨payment, payee⟩ ∧
      ((∀ out ∈ filled, 0 ≤ out.nValue) ↔ (∀ out ∈ tx.vout.tail.dropLast, payment / k ≤ out.nValue) ∧
        ∀ out ∈ tx.vout.tail.getLast?, payment / k + payment % k ≤ out.nValue) := by
  intro payment filled k
  obtain ⟨first, init, last, outputs, empty⟩ : ∃ first init last, tx.vout = first :: (init ++ [last]) ∧ first.nValue = 0 := by
    unfold CTransaction.isCoinStake at coinstake
    split at coinstake
    · next first second rest _ outputs =>
      have empty : first.nValue = 0 := by simp_all [CTxOut.isEmpty]
      exact ⟨first, (second :: rest).dropLast, (second :: rest).getLast (by simp), by rw [outputs, dropLast_append_getLast], empty⟩
    · cases coinstake
  have length : k = init.length + 1 := by simp [k, outputs]
  have moved : filled = first :: (init.map (fun out => { out with nValue := out.nValue - payment / k }) ++
      [{ last with nValue := last.nValue - payment / k - payment % k }]) ++ [⟨payment, payee⟩] := by
    have shown : filled = subtractPayment payment tx.vout ++ [⟨payment, payee⟩] := by
      simp only [filled, fillBlockPayee, chosen, if_true]
      rfl
    have remainder : payment - payment / k * k = payment % k := by rw [Int.emod_def, mul_comm]
    rw [shown, outputs, subtractPayment_split, ← length, Int.tdiv_eq_ediv_of_nonneg nonneg, remainder]
  have shares : ((init.map fun out => out.nValue - payment / k)).sum = (init.map (·.nValue)).sum - init.length * (payment / k) := by
    clear moved outputs length
    induction init with
    | nil => simp
    | cons out init ih =>
      simp only [map_cons, sum_cons, ih, length_cons]
      push_cast
      ring
  have whole := Int.mul_ediv_add_emod payment k
  rw [moved, outputs]
  refine ⟨?_, by simp, getLast?_concat .., ?_⟩
  · simp only [map_append, map_cons, map_map, sum_append, sum_cons, Function.comp_def, shares, map_nil,
      sum_nil, cons_append]
    have parts : k * (payment / k) = init.length * (payment / k) + payment / k := by rw [length, add_mul, one_mul]
    omega
  · have share : 0 ≤ payment := nonneg
    simp only [forall_mem_append, forall_mem_cons, forall_mem_map, tail_cons, dropLast_concat,
      getLast?_concat, Option.mem_def, Option.some.injEq, forall_eq', not_mem_nil, false_implies, implies_true, and_true,
      empty, le_refl, true_and, share, cons_append]
    constructor
    · rintro ⟨inits, final⟩
      exact ⟨fun out member => by have := inits out member; omega, by omega⟩
    · rintro ⟨inits, final⟩
      exact ⟨fun out member => by have := inits out member; omega, by omega⟩

/-- The 117 coins leave a remainder of three satoshi for the last of seven outputs. -/
theorem fillBlockPayee_moves_seven : let tx := { sampleStake with vout := ⟨0, []⟩ :: replicate 7 ⟨150 * COIN, [0x51]⟩ }
    tx.isCoinStake = true ∧ 117 * COIN % 7 = 3 ∧
      ∀ out ∈ ((sampleView 150000 1000 oneMasternode paidMaps).fillBlockPayee tx (some (indexAt 150000)) true).vout, 0 ≤ out.nValue := by
  refine ⟨rfl, by decide, ?_⟩
  exact (@fillBlockPayee_moves _ _ _ sampleScript rfl (by decide +kernel) (by decide +kernel)).2.2.2.mpr (by decide +kernel)

/-- Of the outputs of one satoshi and of 1000 coins each one pays half of the 117 coins. -/
theorem fillBlockPayee_negative : let tx := { sampleStake with vout := [⟨0, []⟩, ⟨1, [0x51]⟩, ⟨1000 * COIN, [0x51]⟩] }
    tx.isCoinStake = true ∧ (((sampleView 150000 1000 oneMasternode paidMaps).fillBlockPayee tx (some (indexAt 150000)) true).vout.map
      (·.nValue) = [0, 1 - 117 * COIN / 2, 1000 * COIN - 117 * COIN / 2, 117 * COIN]) := by decide +kernel

end PaymentView

end Peony
