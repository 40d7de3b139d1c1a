import Mathlib.Data.List.Sort
import Mathlib.Order.Basic

/-! Where an entry of a sorted list stands, by counting; and the middle one of a list. -/

namespace Median
variable {α : Type} [LinearOrder α] {s values : List α} {m b : α}
lemma le_iff_lt_countP (sorted : s.Pairwise (· ≤ ·)) {i} (found : s[i]? = some m) :
    m ≤ b ↔ i < s.countP fun x => decide (x ≤ b) := by
  induction s generalizing i with
  | nil => cases found
  | cons x s ih =>
    obtain ⟨least, sorted⟩ := List.pairwise_cons.mp sorted
    cases i with
    | zero =>
      cases Option.some.inj found
      by_cases below : m ≤ b
      · simp [below]
      · -- whatever follows is larger still
        have none_below : s.countP (fun x => decide (x ≤ b)) = 0 := by
          rw [List.countP_eq_zero]
          intro y mem
          rw [decide_eq_true_eq]
          exact fun low => below ((least y mem).trans low)
        simp [below, none_below]
    | succ i =>
      rw [ih sorted found]
      by_cases below : x ≤ b
      · simp [below]
      · have above : ¬ m ≤ b := fun low => below ((least m (List.mem_of_getElem? found)).trans low)
        have few : ¬ i < s.countP fun x => decide (x ≤ b) := mt (ih sorted found).mpr above
        rw [List.countP_cons_of_neg (by simpa using below)]
        exact iff_of_false few (by omega)

def IsMiddle (values : List α) (m : α) : Prop := (values.insertionSort (· ≤ ·))[values.length / 2]? = some m

variable (middle : IsMiddle values m)
include middle

lemma IsMiddle.le_iff : m ≤ b ↔ values.length / 2 < values.countP fun x => decide (x ≤ b) := by
  rw [le_iff_lt_countP (values.pairwise_insertionSort _) middle, (values.perm_insertionSort _).countP_eq]

lemma IsMiddle.mem : m ∈ values := (values.mem_insertionSort _).mp (List.mem_of_getElem? middle)

lemma IsMiddle.le_of_majority (most : values.length < 2 * values.countP fun x => decide (x ≤ b)) : m ≤ b :=
  middle.le_iff.mpr (by omega)

lemma IsMiddle.ge_of_majority (most : values.length < 2 * values.countP fun x => decide (b ≤ x)) : b ≤ m := by
  by_contra low
  have half := middle.le_iff.mp (le_refl m)
  have split : values.countP (fun x => decide (b ≤ x)) + values.countP (fun x => decide (x ≤ m)) ≤ values.length := by
    rw [values.length_eq_countP_add_countP]
    apply Nat.add_le_add_left
    apply List.countP_mono_left
    intro x _ small
    simp only [decide_eq_true_eq] at small ⊢
    exact fun high => low (high.trans small)
  omega

end Median
