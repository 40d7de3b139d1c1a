import Mathlib.Data.List.Infix
import Mathlib.Order.Basic

/-! Parent pointers graded by a height: the line from a node up to its root, and the node where two lines meet. -/

namespace Lineage
open List
variable {α : Type} {known : α → Prop} {parent : α → Option α} {height : α → Nat} {a b c p : α}
def climb (parent : α → Option α) : Nat → α → List α
  | 0, a => [a]
  | n + 1, a =>
    match parent a with
    | none => [a]
    | some p => a :: climb parent n p

def lineage (parent : α → Option α) (height : α → Nat) (a : α) : List α := climb parent (height a) a

structure Graded (known : α → Prop) (parent : α → Option α) (height : α → Nat) : Prop where
  up : ∀ {a p}, known a → parent a = some p → known p ∧ height a = height p + 1
  root : ∀ {a}, known a → parent a = none → height a = 0

lemma climb_congr {parent'} (closed : ∀ a p, known a → parent a = some p → known p)
    (same : ∀ a, known a → parent' a = parent a) {n} (start : known a) : climb parent' n a = climb parent n a := by
  induction n generalizing a with
  | zero => rfl
  | succ n ih =>
    simp only [climb, same a start]
    cases up : parent a with
    | none => rfl
    | some p =>
      have rest := ih (closed a p start up)
      simp only [rest]

namespace Graded
variable (graded : Graded known parent height)
include graded

lemma lineage_congr {parent' height'} (parents : ∀ a, known a → parent' a = parent a)
    (heights : ∀ a, known a → height' a = height a) (start : known a) : lineage parent' height' a = lineage parent height a := by
  unfold lineage
  rw [heights a start]
  exact climb_congr (fun _ _ start up => (graded.up start up).1) parents start

lemma lineage_root (start : known a) (top : parent a = none) : lineage parent height a = [a] := by
  unfold lineage
  rw [graded.root start top]
  rfl

lemma lineage_up (start : known a) (up : parent a = some p) : lineage parent height a = a :: lineage parent height p := by
  unfold lineage
  rw [(graded.up start up).2]
  simp only [climb, up]

lemma parent_eq_none_iff (start : known a) : parent a = none ↔ height a = 0 := by
  refine ⟨graded.root start, fun level => ?_⟩
  cases up : parent a with
  | none => rfl
  | some p =>
    have above := (graded.up start up).2
    omega

lemma induct {P : α → Prop} (root : ∀ a, known a → parent a = none → P a)
    (step : ∀ a p, known a → parent a = some p → P p → P a) (start : known a) : P a := by
  induction level : height a generalizing a with
  | zero => exact root a start ((graded.parent_eq_none_iff start).mpr level)
  | succ n ih =>
    cases up : parent a with
    | none => exact root a start up
    | some p =>
      obtain ⟨next, above⟩ := graded.up start up
      exact step a p start up (ih next (by omega))

lemma mem_iff (start : known a) : b ∈ lineage parent height a ↔ b = a ∨ ∃ p, parent a = some p ∧ b ∈ lineage parent height p := by
  cases up : parent a with
  | none =>
    rw [graded.lineage_root start up]
    simp
  | some p =>
    rw [graded.lineage_up start up]
    simp

lemma self_mem (start : known a) : a ∈ lineage parent height a := (graded.mem_iff start).mpr (Or.inl rfl)

lemma all_of_up {P : α → Prop} (passes : ∀ a p, known a → parent a = some p → P a → P p) (start : known a) (first : P a) :
    ∀ b ∈ lineage parent height a, P b := by
  revert first
  apply graded.induct _ _ start
  · intro a start top first b mem
    rw [graded.lineage_root start top, mem_singleton] at mem
    rw [mem]
    exact first
  · intro a p start up ih first b mem
    rw [graded.lineage_up start up] at mem
    rcases mem_cons.mp mem with rfl | mem
    · exact first
    · exact ih (passes a p start up first) b mem

lemma known_of_mem (start : known a) (mem : b ∈ lineage parent height a) : known b :=
  graded.all_of_up (fun _ _ start up _ => (graded.up start up).1) start start b mem

lemma suffix_of_mem (start : known a) : b ∈ lineage parent height a → lineage parent height b <:+ lineage parent height a := by
  refine graded.all_of_up (P := fun b => lineage parent height b <:+ lineage parent height a) ?_ start (suffix_refl _) b
  intro c p start up line
  rw [graded.lineage_up start up] at line
  exact (suffix_cons c _).trans line

lemma mem_trans (start : known a) (first : b ∈ lineage parent height a) (snd : c ∈ lineage parent height b) :
    c ∈ lineage parent height a := (graded.suffix_of_mem start first).subset snd

lemma lt_of_mem {τ : Type} [Preorder τ] {measure : α → τ}
    (grows : ∀ a p, known a → parent a = some p → measure p < measure a) (start : known a) :
    b ∈ lineage parent height a → b = a ∨ measure b < measure a := by
  refine graded.all_of_up (P := fun b => b = a ∨ measure b < measure a) ?_ start (.inl rfl) b
  intro c p start up line
  have above := grows c p start up
  rcases line with rfl | below
  · exact .inr above
  · exact .inr (above.trans below)

lemma height_of_mem (start : known a) (mem : b ∈ lineage parent height a) : b = a ∨ height b < height a := by
  apply graded.lt_of_mem _ start mem
  intro a p start up
  have above := (graded.up start up).2
  omega

lemma le_of_mem (start : known a) (mem : b ∈ lineage parent height a) : height b ≤ height a := by
  rcases graded.height_of_mem start mem with rfl | below <;> omega

section
variable (start : known a)
include start

lemma eq_of_height : b ∈ lineage parent height a → c ∈ lineage parent height a → height b = height c → b = c := by
  apply graded.induct _ _ start
  · intro a start top first snd _
    rw [graded.lineage_root start top, mem_singleton] at first snd
    rw [first, snd]
  · intro a p start up ih first snd level
    obtain ⟨next, above⟩ := graded.up start up
    rw [graded.lineage_up start up] at first snd
    -- below the start every height is smaller than the start's
    have smaller : ∀ x ∈ lineage parent height p, height x < height a := by
      intro x mem
      rcases graded.height_of_mem next mem with rfl | below <;> omega
    rcases mem_cons.mp first with own | upper <;> rcases mem_cons.mp snd with own' | upper'
    · rw [own, own']
    · have below := smaller c upper'
      rw [own] at level
      omega
    · have below := smaller b upper
      rw [own'] at level
      omega
    · exact ih upper upper' level

lemma antisymm (startB : known b) (first : a ∈ lineage parent height b) (snd : b ∈ lineage parent height a) : a = b :=
  graded.eq_of_height startB first (graded.self_mem startB)
    (Nat.le_antisymm (graded.le_of_mem startB first) (graded.le_of_mem start snd))

lemma exists_of_le {n} : n ≤ height a → ∃ b ∈ lineage parent height a, height b = n := by
  apply graded.induct _ _ start
  · intro a start top below
    have level := graded.root start top
    exact ⟨a, graded.self_mem start, by omega⟩
  · intro a p start up ih below
    have above := (graded.up start up).2
    by_cases level : height a = n
    · exact ⟨a, graded.self_mem start, level⟩
    · obtain ⟨b, mem, level⟩ := ih (by omega)
      exact ⟨b, (graded.mem_iff start).mpr (.inr ⟨p, up, mem⟩), level⟩

lemma mem_of_le (first : b ∈ lineage parent height a) (snd : c ∈ lineage parent height a) (below : height c ≤ height b) :
    c ∈ lineage parent height b := by
  obtain ⟨d, mem, level⟩ := graded.exists_of_le (graded.known_of_mem start first) below
  rwa [← graded.eq_of_height start (graded.mem_trans start first mem) snd level]

lemma length_lineage : (lineage parent height a).length = height a + 1 := by
  apply graded.induct _ _ start
  · intro a start top
    rw [graded.lineage_root start top, graded.root start top]
    rfl
  · intro a p start up ih
    rw [graded.lineage_up start up, length_cons, ih, (graded.up start up).2]

lemma getLast_lineage : ∃ r, (lineage parent height a).getLast? = some r ∧ known r ∧ parent r = none := by
  apply graded.induct _ _ start
  · intro a start top
    rw [graded.lineage_root start top]
    exact ⟨a, rfl, start, top⟩
  · intro a p start up ih
    obtain ⟨r, last, rest⟩ := ih
    refine ⟨r, ?_, rest⟩
    rw [graded.lineage_up start up, getLast?_cons, last]
    rfl

lemma eq_lineage_of_append {xs ys} : xs ++ b :: ys = lineage parent height a → b :: ys = lineage parent height b := by
  revert xs
  apply graded.induct _ _ start
  · intro a start top xs split
    rw [graded.lineage_root start top] at split
    cases xs with
    | nil =>
      have own : b = a := (List.cons.inj split).1
      rw [own, graded.lineage_root start top, ← split, own]
      rfl
    | cons x xs => simp at split
  · intro a p start up ih xs split
    cases xs with
    | nil =>
      have own : b = a := by
        rw [graded.lineage_up start up] at split
        exact (List.cons.inj split).1
      rw [own] at split ⊢
      exact split
    | cons x xs =>
      rw [graded.lineage_up start up] at split
      exact ih (List.cons.inj split).2

lemma mem_of_before {xs ys} (split : xs ++ b :: ys = lineage parent height a) (pre : c ∈ xs) :
    b ∈ lineage parent height c := by
  obtain ⟨us, vs, rfl⟩ := append_of_mem pre
  have whole : us ++ c :: (vs ++ b :: ys) = lineage parent height a := by
    rw [← split]
    simp
  rw [← graded.eq_lineage_of_append start whole]
  simp
end

variable [DecidableEq α] {tip : α}
lemma exists_fork (single : ∀ a b, known a → known b → parent a = none → parent b = none → a = b) (top : known tip)
    (start : known a) :
    ∃ f, (lineage parent height a).find? (fun x => decide (x ∈ lineage parent height tip)) = some f ∧
      f ∈ lineage parent height tip ∧
      lineage parent height a =
        (lineage parent height a).takeWhile (fun x => decide (x ∉ lineage parent height tip)) ++ lineage parent height f := by
  apply graded.induct _ _ start
  · intro a start root
    obtain ⟨r, last, within, root'⟩ := graded.getLast_lineage top
    have same : a = r := single a r start within root root'
    have mem := same ▸ mem_of_getLast? last
    refine ⟨a, ?_, mem, ?_⟩ <;> rw [graded.lineage_root start root] <;> simp [mem]
  · intro a p start up ih
    by_cases mem : a ∈ lineage parent height tip
    · refine ⟨a, ?_, mem, ?_⟩ <;> rw [graded.lineage_up start up] <;> simp [mem]
    · obtain ⟨f, first, shared, split⟩ := ih
      refine ⟨f, ?_, shared, ?_⟩ <;> rw [graded.lineage_up start up]
      · rw [find?_cons_of_neg (by simpa using mem), first]
      · rw [takeWhile_cons_of_pos (by simpa using mem), cons_append, ← split]

end Graded

end Lineage
