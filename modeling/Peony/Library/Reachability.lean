import Mathlib.Algebra.Order.BigOperators.Group.List
import Mathlib.Algebra.Order.Group.Defs
import Mathlib.Data.List.MinMax
import Mathlib.Logic.Relation
import Mathlib.Tactic.Abel

namespace Reachability
open Relation List ReflTransGen

lemma length_filter_lt {α : Type} {p q : α → Bool} {items : List α} {x : α} (fewer : ∀ y ∈ items, p y = true → q y = true)
    (ins : x ∈ items) (left : q x = true) (gone : p x = false) : (items.filter p).length < (items.filter q).length := by
  have twice : items.filter p = (items.filter q).filter p := by
    simpa using filter_congr fun y there => by cases kept : p y <;> simp [fewer y there, kept]
  rw [twice]
  exact length_filter_lt_length_iff_exists.2 ⟨x, mem_filter.2 ⟨ins, left⟩, by simp [gone]⟩

section
variable {α : Type} [DecidableEq α] (key : α → Nat) (next : α → List α)
abbrev Reach : α → α → Prop := ReflTransGen fun a b => b ∈ next a

def stageNext (visited stage : List α) (x : α) : List α :=
  (next x).foldl (fun stage y => if y ∈ visited then stage else stage.insert y) (stage.filter (· ≠ x))

/-- The least staged node is visited, and its new successors are staged. -/
def closure : Nat → List α → List α → List α
  | 0, _, visited => visited
  | fuel + 1, stage, visited =>
    match stage.argmin key with
    | none => visited
    | some x => closure fuel (stageNext next (visited.insert x) stage x) (visited.insert x)

variable {key next} {visited stage : List α} {x y : α}
lemma mem_stageNext : y ∈ stageNext next visited stage x ↔ y ∈ stage ∧ y ≠ x ∨ y ∈ next x ∧ y ∉ visited := by
  unfold stageNext
  have fold : ∀ (ys start : List α),
      (y ∈ ys.foldl (fun stage y => if y ∈ visited then stage else stage.insert y) start ↔ y ∈ start ∨ y ∈ ys ∧ y ∉ visited) := by
    intro ys
    induction ys with
    | nil => simp
    | cons z ys ih =>
      intro start
      rw [foldl_cons]
      by_cases old : z ∈ visited
      · grind
      · grind
  rw [fold]
  simp

omit [DecidableEq α] in
lemma reach_of_expanded (expanded : ∀ v ∈ visited, ∀ z ∈ next v, z ∈ visited ∨ z ∈ stage) (start : x ∈ visited)
    (reach : Reach next x y) : y ∈ visited ∨ ∃ s ∈ stage, Reach next s y := by
  induction reach using head_induction_on with
  | refl => exact .inl start
  | head step rest ih =>
    rcases expanded _ start _ step with ins | staged
    · exact ih ins
    · exact .inr ⟨_, staged, rest⟩

lemma mem_closure (nodes : List α) (fuel) (enough : (nodes.filter (· ∉ visited)).length ≤ fuel) (ins : stage ⊆ nodes)
    (closed : ∀ v ∈ nodes, next v ⊆ nodes) (fresh : ∀ s ∈ stage, s ∉ visited)
    (expanded : ∀ v ∈ visited, ∀ z ∈ next v, z ∈ visited ∨ z ∈ stage) :
    y ∈ closure key next fuel stage visited ↔ y ∈ visited ∨ ∃ s ∈ stage, Reach next s y := by
  induction fuel generalizing stage visited with
  | zero =>
    have none_left : stage = [] := by
      refine eq_nil_iff_forall_not_mem.2 fun s staged => ?_
      have left : s ∈ nodes.filter (· ∉ visited) := by simp [ins staged, fresh s staged]
      rw [length_eq_zero_iff.1 (Nat.le_zero.1 enough)] at left
      exact absurd left not_mem_nil
    simp [closure, none_left]
  | succ fuel ih =>
    rw [closure]
    cases least : stage.argmin key with
    | none => simp [argmin_eq_none.1 least]
    | some x =>
      have staged : x ∈ stage := argmin_mem (f := key) (by simp [least])
      have expanded' : ∀ v ∈ visited.insert x, ∀ z ∈ next v, z ∈ visited.insert x ∨
          z ∈ stageNext next (visited.insert x) stage x := by
        intro v old z step
        rw [mem_stageNext]
        rcases mem_insert_iff.1 old with rfl | old
        · by_cases seen : z ∈ visited.insert v
          · exact .inl seen
          · exact .inr (.inr ⟨step, seen⟩)
        · grind
      have fewer : (nodes.filter (· ∉ visited.insert x)).length < (nodes.filter (· ∉ visited)).length :=
        length_filter_lt (fun y _ => by simp) (ins staged) (by simpa using fresh x staged) (by simp)
      rw [ih (by omega) (fun s s_in => ?_) (fun s s_in => ?_) expanded']
      · constructor
        · rintro (old | ⟨s, s_in, reach⟩)
          · rcases mem_insert_iff.1 old with rfl | old
            · exact .inr ⟨y, staged, .refl⟩
            · exact .inl old
          · rcases mem_stageNext.1 s_in with ⟨s_in, -⟩ | ⟨step, -⟩
            · exact .inr ⟨s, s_in, reach⟩
            · exact .inr ⟨x, staged, .head step reach⟩
        · rintro (old | ⟨s, s_in, reach⟩)
          · exact .inl (mem_insert_of_mem old)
          · by_cases same : s = x
            · exact reach_of_expanded expanded' (same ▸ mem_insert_self) reach
            · exact .inr ⟨s, mem_stageNext.2 (.inl ⟨s_in, same⟩), reach⟩
      · rcases mem_stageNext.1 s_in with ⟨s_in, -⟩ | ⟨step, -⟩
        · exact ins s_in
        · exact closed x (ins staged) step
      · rcases mem_stageNext.1 s_in with ⟨s_in, other⟩ | ⟨-, unseen⟩
        · simp [mem_insert_iff, other, fresh s s_in]
        · exact unseen
end
section
variable {α : Type} {r r' : α → α → Prop} {z a b : α} {removed : α → Prop}
lemma reach_with_sink {into : α → Prop} (edges : ∀ a b, r' a b ↔ r a b ∨ b = z ∧ into a) (unseen : ∀ a, ¬ r a z ∧ ¬ r z a)
    (loopless : ¬ into z) :
    ReflTransGen r' a b ↔ b = z ∧ (a = z ∨ ∃ p, into p ∧ ReflTransGen r a p) ∨ b ≠ z ∧ ReflTransGen r a b := by
  constructor
  · intro reach
    induction reach with
    | refl => grind
    | tail _ step ih =>
      rename_i mid last _
      rcases (edges _ _).1 step with step | ⟨rfl, enters⟩
      · have other : last ≠ z := fun same => (unseen _).1 (same ▸ step)
        rcases ih with ⟨rfl, -⟩ | ⟨-, path⟩
        · exact absurd step (unseen _).2
        · exact .inr ⟨other, path.tail step⟩
      · grind
  · have old : ∀ {a b}, ReflTransGen r a b → ReflTransGen r' a b := fun path =>
      mono (fun a b step => (edges a b).2 (.inl step)) _ _ path
    rintro (⟨rfl, rfl | ⟨p, enters, path⟩⟩ | ⟨-, path⟩)
    · exact .refl
    · exact (old path).tail ((edges p b).2 (.inr ⟨rfl, enters⟩))
    · exact old path

lemma reach_of_closed {p : α → Prop} (closed : ∀ a b, p a → r a b → p b) (same : ∀ a b, p a → (r' a b ↔ r a b))
    (start : p a) : ReflTransGen r' a b ↔ ReflTransGen r a b := by
  constructor <;> intro path
  · induction path using head_induction_on with
    | refl => exact .refl
    | head step _ ih =>
      have step := (same _ _ start).1 step
      exact .head step (ih (closed _ _ start step))
  · induction path using head_induction_on with
    | refl => exact .refl
    | head step _ ih => exact .head ((same _ _ start).2 step) (ih (closed _ _ start step))

section
variable {p : α → Prop} (apart : ∀ a b, ¬p a → r a b → ¬p b)
include apart

lemma stays_out (path : ReflTransGen r a b) (out : ¬p a) : ¬p b := by
  induction path with
  | refl => exact out
  | tail _ step ih => exact apart _ _ ih step

/-- Where no edge leads in, cutting the edges that lead out keeps the paths that stay. -/
lemma reach_of_cut (edges : ∀ a b, r' a b ↔ r a b ∧ (p a → p b)) : ReflTransGen r' a b ↔ ReflTransGen r a b ∧ (p a → p b) := by
  constructor
  · intro path
    induction path with
    | refl => exact ⟨.refl, id⟩
    | tail _ step ih =>
      obtain ⟨link, stays⟩ := (edges _ _).1 step
      exact ⟨ih.1.tail link, fun ins => stays (ih.2 ins)⟩
  · rintro ⟨path, ends⟩
    induction path using head_induction_on with
    | refl => exact .refl
    | head step rest ih =>
      have link := (edges _ _).2 ⟨step, fun ins => by_contra fun out => stays_out apart rest out (ends ins)⟩
      exact .head link (ih fun ins => ends (by_contra fun out => apart _ _ out step ins))
end

/-- Removing nodes with all their successors, or all predecessors, cuts no other path. -/
lemma reach_of_removed (edges : ∀ a b, r' a b ↔ r a b ∧ ¬ removed a ∧ ¬ removed b)
    (whole : (∀ s t, removed s → r s t → removed t) ∨ (∀ s t, removed s → r t s → removed t)) (left : ¬ removed a)
    (right : ¬ removed b) :
    ReflTransGen r' a b ↔ ReflTransGen r a b := by
  refine ⟨mono (fun a b step => ((edges a b).1 step).1) _ _, fun path => ?_⟩
  rcases whole with down | up
  · induction path with
    | refl => exact .refl
    | tail _ step ih =>
      have pre := fun gone => right (down _ _ gone step)
      exact (ih pre).tail ((edges _ _).2 ⟨step, pre, right⟩)
  · induction path using head_induction_on with
    | refl => exact .refl
    | head step _ ih =>
      have after := fun gone => left (up _ _ gone step)
      exact .head ((edges _ _).2 ⟨step, left, after⟩) (ih after)
end

variable {ι κ M : Type} [AddCommGroup M] (key : ι → κ) (w : ι → M)
open Classical in
noncomputable def weigh (items : List ι) (p : κ → Prop) : M := (items.map fun i => if p (key i) then w i else 0).sum

variable {key w} {items : List ι} {p q : κ → Prop} {item : ι}
lemma weigh_congr (same : ∀ i ∈ items, (p (key i) ↔ q (key i))) : weigh key w items p = weigh key w items q := by
  classical
  unfold weigh
  congr 1
  exact map_congr_left fun i ins => if_congr (same i ins) rfl rfl

open Classical in
@[simp] lemma weigh_cons : weigh key w (item :: items) p = (if p (key item) then w item else 0) + weigh key w items p := by
  simp [weigh]

lemma weigh_filter [DecidablePred q] : weigh key w (items.filter fun i => q (key i)) p = weigh key w items fun k => p k ∧ q k := by
  classical
  induction items with
  | nil => rfl
  | cons i items ih => by_cases kept : q (key i) <;> simp [kept, ih]

lemma sum_filter_eq_weigh [DecidablePred q] : ((items.filter fun i => q (key i)).map w).sum = weigh key w items q := by
  classical
  induction items with
  | nil => rfl
  | cons i items ih => by_cases kept : q (key i) <;> simp [kept, ih]

lemma weigh_split : weigh key w items p = (weigh key w items fun k => p k ∧ q k) + weigh key w items fun k => p k ∧ ¬ q k := by
  classical
  induction items with
  | nil => simp [weigh]
  | cons i items ih =>
    rw [weigh_cons, weigh_cons, weigh_cons, ih]
    by_cases first : p (key i) <;> by_cases snd : q (key i) <;> simp [first, snd] <;> abel

lemma weigh_eq_of_mem (dist : (items.map key).Nodup) (ins : item ∈ items) : (weigh key w items fun k => k = key item) = w item := by
  induction items with
  | nil => exact absurd ins not_mem_nil
  | cons i items ih =>
    rw [map_cons, nodup_cons] at dist
    rcases mem_cons.1 ins with rfl | ins
    · have others : (weigh key w items fun k => k = key item) = weigh key w items fun _ => False :=
        weigh_congr fun i there => iff_false_intro fun same => dist.1 (same ▸ mem_map_of_mem there)
      rw [weigh_cons, if_pos rfl, others]
      simp [weigh]
    · have other : key i ≠ key item := fun same => dist.1 (same ▸ mem_map_of_mem ins)
      rw [weigh_cons, if_neg other, ih dist.2 ins, zero_add]

variable [PartialOrder M] [IsOrderedAddMonoid M]
lemma weigh_nonneg (nonneg : ∀ i ∈ items, 0 ≤ w i) : 0 ≤ weigh key w items p := by
  refine sum_nonneg fun x ins => ?_
  obtain ⟨i, there, rfl⟩ := mem_map.1 ins
  split
  · exact nonneg i there
  · exact le_rfl

lemma exists_weigh_eq (dist : (items.map key).Nodup) (nonneg : ∀ i ∈ items, 0 ≤ w i) (ins : item ∈ items)
    (cnt : p (key item)) : ∃ rest, 0 ≤ rest ∧ weigh key w items p = w item + rest := by
  refine ⟨weigh key w _ fun k => p k ∧ ¬ k = key item, weigh_nonneg nonneg, ?_⟩
  have single : (weigh key w items fun k => p k ∧ k = key item) = w item := by
    rw [← weigh_eq_of_mem (w := w) dist ins]
    exact weigh_congr fun i _ => ⟨fun h => h.2, fun same => ⟨same ▸ cnt, same⟩⟩
  rw [weigh_split, single]

end Reachability
