import Mathlib.Algebra.BigOperators.Group.List.Basic
import Mathlib.Algebra.Order.Group.Int
import Mathlib.Algebra.Order.Ring.Abs
import Mathlib.Tactic.Ring

namespace Int64Arith
open List

/-- Two's complement result of a signed 64-bit operation whose exact value is `x`. -/
def wrapInt64 (x : Int) : Int := x.bmod (2 ^ 64)

def FitsInt64 (x : Int) : Prop := -2 ^ 63 ≤ x ∧ x < 2 ^ 63

instance (x : Int) : Decidable (FitsInt64 x) := inferInstanceAs (Decidable (_ ∧ _))

lemma wrapInt64_of_fits {x} (fits : FitsInt64 x) : wrapInt64 x = x := by
  obtain ⟨lower, upper⟩ := fits
  exact Int.bmod_eq_of_le (by omega) (by omega)

lemma wrapInt64_fits (x) : FitsInt64 (wrapInt64 x) := by
  have lower : -(((2 ^ 64 : Nat) : Int) / 2) ≤ x.bmod (2 ^ 64) := Int.le_bmod (by decide)
  have upper : x.bmod (2 ^ 64) < (((2 ^ 64 : Nat) : Int) + 1) / 2 := Int.bmod_lt (by decide)
  constructor
  · simpa [wrapInt64] using lower
  · simpa [wrapInt64] using upper

lemma fits_of_abs {x} (small : |x| < 2 ^ 63) : FitsInt64 x := by
  obtain ⟨lower, upper⟩ := abs_lt.mp small
  exact ⟨by omega, upper⟩

variable (x y : Int)
lemma abs_tdiv_mul_le : |x.tdiv y| * |y| ≤ |x| := by
  have quot : x.natAbs / y.natAbs * y.natAbs ≤ x.natAbs := Nat.div_mul_le_self _ _
  rw [Int.abs_eq_natAbs, Int.abs_eq_natAbs, Int.abs_eq_natAbs, Int.natAbs_tdiv]
  exact_mod_cast quot

lemma abs_tdiv_le {x y bound : Int} (pos : 0 < y) (small : |x| ≤ bound * y) : |x.tdiv y| ≤ bound := by
  have scaled := (abs_tdiv_mul_le x y).trans small
  rw [abs_of_pos pos] at scaled
  exact le_of_mul_le_mul_right scaled pos

lemma wrapInt64_add_left : wrapInt64 (wrapInt64 x + y) = wrapInt64 (x + y) :=
  Int.bmod_add_bmod

lemma wrapInt64_add_right : wrapInt64 (x + wrapInt64 y) = wrapInt64 (x + y) :=
  Int.add_bmod_bmod

lemma wrapInt64_sub_left : wrapInt64 (wrapInt64 x - y) = wrapInt64 (x - y) :=
  Int.bmod_sub_bmod

lemma wrapInt64_sub_right : wrapInt64 (x - wrapInt64 y) = wrapInt64 (x - y) :=
  Int.sub_bmod_bmod

section
variable {x x' y y' : Int} (left : wrapInt64 x = wrapInt64 x') (right : wrapInt64 y = wrapInt64 y')
include left right

lemma wrapInt64_add_congr : wrapInt64 (x + y) = wrapInt64 (x' + y') := by
  rw [← wrapInt64_add_left, ← wrapInt64_add_right, left, right, wrapInt64_add_left, wrapInt64_add_right]

lemma wrapInt64_sub_congr : wrapInt64 (x - y) = wrapInt64 (x' - y') := by
  rw [← wrapInt64_sub_left, ← wrapInt64_sub_right, left, right, wrapInt64_sub_left, wrapInt64_sub_right]
end

lemma wrapInt64_wrapInt64 (x) : wrapInt64 (wrapInt64 x) = wrapInt64 x := wrapInt64_of_fits (wrapInt64_fits x)

lemma foldl_wrapInt64_add {α : Type} (amount : α → Int) (items : List α) {start} (fits : FitsInt64 start) :
    items.foldl (fun sum item => wrapInt64 (sum + amount item)) start = wrapInt64 (start + (items.map amount).sum) := by
  induction items generalizing start with
  | nil => simp [wrapInt64_of_fits fits]
  | cons item items ih =>
    rw [foldl_cons, ih (wrapInt64_fits _), wrapInt64_add_left, map_cons, sum_cons, add_assoc]

variable {α : Type} (amount : α → Int) (test : α → Bool) (items : List α)
lemma foldl_wrapInt64_if (start) :
    wrapInt64 (items.foldl (fun sum item => if test item then wrapInt64 (sum + amount item) else sum) start) =
      wrapInt64 (start + ((items.filter test).map amount).sum) := by
  induction items generalizing start with
  | nil => simp
  | cons item items ih =>
    rw [foldl_cons, ih]
    cases passes : test _ with
    | true =>
      simp only [passes, if_true, filter_cons_of_pos, map_cons, sum_cons]
      rw [wrapInt64_add_left, add_assoc]
    | false => simp [passes]

lemma foldl_wrapInt64_if_fits {start} (fits : FitsInt64 start) :
    FitsInt64 (items.foldl (fun sum item => if test item then wrapInt64 (sum + amount item) else sum) start) := by
  induction items generalizing start with
  | nil => exact fits
  | cons item items ih =>
    rw [foldl_cons]
    apply ih
    split
    · exact wrapInt64_fits _
    · exact fits

end Int64Arith
