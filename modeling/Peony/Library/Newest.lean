import Mathlib.Data.List.Perm.Basic
import Mathlib.Order.Lattice

/-! A register that keeps the newest of the items it is given. Of two items with the same stamp it keeps the first. -/

namespace Newest
variable {α β τ : Type} [LinearOrder τ] (stamp : α → τ)
def keep : Option α → α → Option α
  | none, item => some item
  | some old, item => if stamp old < stamp item then some item else some old

def newest (start : Option α) (items : List α) : Option α := items.foldl (keep stamp) start
def IsNewest (items : List α) (item : α) : Prop := item ∈ items ∧ ∀ other ∈ items, stamp other ≤ stamp item

lemma keep_some {old item : α} : ∃ kept, keep stamp (some old) item = some kept ∧ stamp old ≤ stamp kept := by
  change ∃ kept, (if stamp _ < stamp _ then some _ else some _) = some _ ∧ _
  split
  · grind
  · simp

lemma newest_some (old : α) (items) : ∃ kept, newest stamp (some old) items = some kept ∧ stamp old ≤ stamp kept := by
  induction items generalizing old with
  | nil => exact ⟨_, rfl, le_refl _⟩
  | cons item items ih =>
    obtain ⟨kept, step, grows⟩ := keep_some stamp
    obtain ⟨final, rest, grows'⟩ := ih _
    refine ⟨_, ?_, grows.trans grows'⟩
    change newest _ _ items = _
    rw [step, rest]

lemma newest_of_le {old items} (latest : ∀ item ∈ items, stamp item ≤ stamp old) : newest stamp (some old) items = some old := by
  induction items with
  | nil => rfl
  | cons item items ih =>
    have first : ¬ stamp old < stamp item := not_lt.mpr (latest _ (by simp))
    change newest _ _ items = _
    rw [keep, if_neg first]
    exact ih (List.forall_mem_cons.mp latest).2

lemma newest_isNewest (old : α) (items) :
    ∃ kept, newest stamp (some old) items = some kept ∧ IsNewest stamp (old :: items) kept := by
  induction items generalizing old with
  | nil => exact ⟨_, rfl, by simp, by simp⟩
  | cons item items ih =>
    change ∃ kept, newest _ (if stamp _ < stamp _ then some _ else some _) _ = some _ ∧ _
    split
    · next newer =>
      obtain ⟨kept, rest, mem, most⟩ := ih _
      refine ⟨_, rest, List.mem_cons_of_mem _ mem, ?_⟩
      exact List.forall_mem_cons.mpr ⟨newer.le.trans (most _ (by simp)), most⟩
    · next notNewer =>
      obtain ⟨kept, rest, mem, most⟩ := ih _
      refine ⟨_, rest, ?_, ?_⟩
      · grind
      · grind

lemma newest_spec (items) :
    (items = [] ∧ newest stamp none items = none) ∨ ∃ kept, newest stamp none items = some kept ∧ IsNewest stamp items kept := by
  cases items with
  | nil => exact .inl ⟨rfl, rfl⟩
  | cons item items => exact .inr (newest_isNewest _ _ _)

variable {stamp} {items : List α} {item : α}
lemma IsNewest.perm {items'} (latest : IsNewest stamp items item) (same : items.Perm items') : IsNewest stamp items' item :=
  ⟨same.mem_iff.mp latest.1, fun _ listed => latest.2 _ (same.mem_iff.mpr listed)⟩

lemma IsNewest.first (latest : IsNewest stamp (item :: items) item) : newest stamp none (item :: items) = some item :=
  newest_of_le _ fun other listed => latest.2 _ (by simp [listed])

lemma newest_perm (stamp : α → τ) (read : α → β) {items items'} (same : items.Perm items')
    (agree : ∀ a b, IsNewest stamp items a → IsNewest stamp items b → read a = read b) :
    (newest stamp none items).map read = (newest stamp none items').map read := by
  rcases newest_spec stamp items with ⟨rfl, empty⟩ | ⟨kept, found, latest⟩
  · rw [List.nil_perm.mp same]
  · rcases newest_spec stamp items' with ⟨rfl, -⟩ | ⟨kept', found', latest'⟩
    · simp [List.perm_nil.mp same]
    · rw [found, found']
      exact congrArg some (agree _ _ latest (latest'.perm same.symm))

end Newest
