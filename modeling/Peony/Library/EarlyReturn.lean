import Mathlib.Data.List.Perm.Basic
import Mathlib.Tactic.ByContra
import Mathlib.Tactic.Push

/-! Loops whose body may return early. Each item makes the loop return a value, or lets it go on. -/

namespace EarlyReturn
open List
variable {α : Type} (check : α → Option Bool)
/-- A loop whose body returns a value or goes on with the next item. -/
def firstReturn : List α → Bool
  | [] => true
  | item :: items =>
    match check item with
    | some value => value
    | none => firstReturn items

variable {check} {items : List α}
lemma firstReturn_of_none_false (fine : ∀ item ∈ items, check item ≠ some false) : firstReturn check items = true := by
  induction items with
  | nil => rfl
  | cons item items ih => grind [firstReturn]

lemma firstReturn_eq_false {pre after item} (clear : ∀ earlier ∈ pre, check earlier ≠ some true)
    (fails : check item = some false) : firstReturn check (pre ++ item :: after) = false := by
  induction pre with
  | nil => simp [firstReturn, fails]
  | cons first pre ih => grind [firstReturn]

lemma firstReturn_eq_true {pre after} (passed : ∀ earlier ∈ pre, check earlier ≠ some false)
    (returns : ∃ earlier ∈ pre, check earlier = some true) : firstReturn check (pre ++ after) = true := by
  induction pre with
  | nil =>
    obtain ⟨_, mem, _⟩ := returns
    cases mem
  | cons first pre ih =>
    rw [cons_append, firstReturn]
    split
    · grind
    · next goesOn =>
      refine ih (forall_mem_cons.mp passed).2 ?_
      obtain ⟨earlier, mem, yes⟩ := returns
      rcases mem_cons.mp mem with rfl | later
      · grind
      · exact ⟨_, later, yes⟩

lemma exists_first_failure (fails : ∃ item ∈ items, check item = some false) :
    ∃ pre item after, items = pre ++ item :: after ∧ check item = some false ∧ ∀ earlier ∈ pre, check earlier ≠ some false := by
  induction items with
  | nil =>
    obtain ⟨_, mem, _⟩ := fails
    cases mem
  | cons first items ih =>
    by_cases here : check first = some false
    · exact ⟨[], _, _, rfl, here, by simp⟩
    · obtain ⟨item, mem, failed⟩ := fails
      have later : item ∈ items := (mem_cons.mp mem).resolve_left fun same => here (same ▸ failed)
      obtain ⟨pre, found, after, rfl, failed, passed⟩ := ih ⟨_, later, failed⟩
      refine ⟨first :: pre, _, _, rfl, failed, fun earlier mem => ?_⟩
      rcases mem_cons.mp mem with rfl | ins
      · exact here
      · exact passed _ ins

lemma firstReturn_sound_iff : (firstReturn check items = true → ∀ item ∈ items, check item ≠ some false) ↔
      ∀ pre item after, items = pre ++ item :: after → check item = some false →
        (∀ earlier ∈ pre, check earlier ≠ some false) → ∀ earlier ∈ pre, check earlier ≠ some true := by
  constructor
  · intro sound pre item after split fails passed earlier mem returns
    have acc := split ▸ firstReturn_eq_true passed ⟨_, mem, returns⟩
    exact sound acc _ (by simp [split]) fails
  · intro clear acc item mem fails
    obtain ⟨pre, first, after, split, failed, passed⟩ := exists_first_failure ⟨_, mem, fails⟩
    have bad := split ▸ firstReturn_eq_false (clear _ _ _ split failed passed) failed
    exact absurd (acc.symm.trans bad) (by simp)

lemma firstReturn_perm_iff [DecidableEq α] : (∀ other, other.Perm items → firstReturn check other = firstReturn check items) ↔
      (∀ item ∈ items, check item ≠ some false) ∨ ∀ item ∈ items, check item ≠ some true := by
  constructor
  · intro same
    by_contra mixed
    push Not at mixed
    obtain ⟨⟨failing, failingIn, fails⟩, passing, passingIn, passes⟩ := mixed
    have bad := same _ (perm_cons_erase failingIn).symm
    have acc := same _ (perm_cons_erase passingIn).symm
    rw [← acc] at bad
    simp [firstReturn, fails, passes] at bad
  · intro pure other perm
    rcases pure with fine | clear
    · rw [firstReturn_of_none_false fine, firstReturn_of_none_false fun item mem => fine _ (perm.mem_iff.mp mem)]
    · by_cases fails : ∃ item ∈ items, check item = some false
      · have refuses {list : List α} (sameItems : ∀ item, item ∈ list ↔ item ∈ items) : firstReturn check list = false := by
          obtain ⟨item, mem, failed⟩ := fails
          obtain ⟨pre, first, after, rfl, failed, -⟩ := exists_first_failure ⟨_, (sameItems _).mpr mem, failed⟩
          exact firstReturn_eq_false (fun earlier ins => clear _ ((sameItems _).mp (by simp [ins]))) failed
        rw [refuses fun _ => perm.mem_iff, refuses fun _ => Iff.rfl]
      · push Not at fails
        rw [firstReturn_of_none_false fails, firstReturn_of_none_false fun item mem => fails _ (perm.mem_iff.mp mem)]

end EarlyReturn
