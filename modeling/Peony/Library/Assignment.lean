import Mathlib.Data.List.Forall2
import Mathlib.Data.List.NodupEquivFin

/-! Assignments of the elements of one list to elements of another that keep their order, and the search that takes the first element
that fits. -/

namespace Assignment
open List
variable {α β : Type} (accepts : α → β → Bool)
def Assigned (xs : List α) (ys : List β) : Prop :=
  ∃ partners, partners.Sublist ys ∧ List.Forall₂ (fun x y => accepts x y = true) xs partners

def greedy : List α → List β → Bool
  | [], _ => true
  | _ :: _, [] => false
  | x :: xs, y :: ys =>
    let left := if accepts x y then xs else x :: xs
    if left.length > ys.length then false else greedy left ys

variable {accepts} {x : α} {y : β} {xs : List α} {ys : List β}
lemma assigned_nil : Assigned accepts [] ys := ⟨[], nil_sublist ys, .nil⟩
lemma Assigned.length_le (assigned : Assigned accepts xs ys) : xs.length ≤ ys.length := by
  obtain ⟨partners, sub, pairs⟩ := assigned
  rw [pairs.length_eq]
  exact sub.length_le

lemma Assigned.tail (assigned : Assigned accepts (x :: xs) (y :: ys)) : Assigned accepts xs ys := by
  obtain ⟨_, sub, pairs⟩ := assigned
  cases pairs with
  | cons first pairs =>
    have rest := sub.tail
    exact ⟨_, rest, pairs⟩

lemma assigned_cons_of_accepts (fits : accepts x y = true) : Assigned accepts (x :: xs) (y :: ys) ↔ Assigned accepts xs ys := by
  constructor
  · exact Assigned.tail
  · intro assigned
    obtain ⟨partners, sub, pairs⟩ := assigned
    exact ⟨_, sub.cons_cons y, .cons fits pairs⟩

lemma assigned_cons_of_rejects (fits : accepts x y = false) :
    Assigned accepts (x :: xs) (y :: ys) ↔ Assigned accepts (x :: xs) ys := by
  constructor
  · intro assigned
    obtain ⟨_, sub, pairs⟩ := assigned
    cases pairs with
    | cons first pairs =>
      cases sub with
      | cons _ sub => exact ⟨_, sub, .cons first pairs⟩
      | cons_cons _ sub => grind
  · intro assigned
    obtain ⟨partners, sub, pairs⟩ := assigned
    exact ⟨_, sub.cons y, pairs⟩

lemma greedy_iff (xs ys) : greedy accepts xs ys = true ↔ Assigned accepts xs ys := by
  induction ys generalizing xs with
  | nil =>
    cases xs with
    | nil => simp [greedy, assigned_nil]
    | cons x xs =>
      have none : ¬Assigned accepts (x :: xs) [] := fun assigned => absurd assigned.length_le (by simp)
      simp [greedy, none]
  | cons y ys ih =>
    cases xs with
    | nil => simp [greedy, assigned_nil]
    | cons x xs =>
      -- what is left to assign after `y` was asked
      have step : Assigned accepts (x :: xs) (y :: ys) ↔ Assigned accepts (if accepts x y then xs else x :: xs) ys := by
        cases fits : accepts x y with
        | true => exact assigned_cons_of_accepts fits
        | false => exact assigned_cons_of_rejects fits
      rw [step, greedy]
      generalize (if accepts x y then xs else x :: xs) = left
      by_cases tooMany : left.length > ys.length
      · have none : ¬Assigned accepts left ys := fun assigned => absurd assigned.length_le (Nat.not_le.mpr tooMany)
        simp [tooMany, none]
      · simp [tooMany, ih]

lemma assigned_reverse : Assigned accepts xs.reverse ys.reverse ↔ Assigned accepts xs ys := by
  constructor
  · intro assigned
    obtain ⟨partners, sub, pairs⟩ := assigned
    exact ⟨_, by simpa using sub.reverse, by simpa using rel_reverse pairs⟩
  · intro assigned
    obtain ⟨partners, sub, pairs⟩ := assigned
    exact ⟨_, sub.reverse, rel_reverse pairs⟩

lemma assigned_iff_embedding :
    Assigned accepts xs ys ↔ ∃ f : Fin xs.length ↪o Fin ys.length, ∀ i, accepts (xs.get i) (ys.get (f i)) = true := by
  constructor
  · intro assigned
    obtain ⟨partners, sub, pairs⟩ := assigned
    obtain ⟨f, places⟩ := sublist_iff_exists_fin_orderEmbedding_get_eq.mp sub
    obtain ⟨sameLength, fits⟩ := forall₂_iff_get.mp pairs
    refine ⟨(Fin.castOrderIso sameLength).toOrderEmbedding.trans f, fun i => ?_⟩
    have partner := places (i.cast sameLength)
    have fit := fits _ i.2 (sameLength ▸ i.2)
    rw [show partners.get ⟨_, _⟩ = ys.get _ from partner] at fit
    exact fit
  · intro embedding
    obtain ⟨f, fits⟩ := embedding
    have length : (ofFn fun i => ys.get (f i)).length = xs.length := length_ofFn
    refine ⟨ofFn fun i => ys.get (f i), ?_, ?_⟩
    · refine sublist_iff_exists_fin_orderEmbedding_get_eq.mpr ⟨(Fin.castOrderIso length).toOrderEmbedding.trans f, fun i => ?_⟩
      simp only [get_ofFn]
      rfl
    · refine forall₂_iff_get.mpr ⟨length.symm, fun i inXs _ => ?_⟩
      simpa using fits ⟨i, _⟩

end Assignment
