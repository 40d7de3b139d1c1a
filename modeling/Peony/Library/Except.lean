import Mathlib.Tactic.Common

namespace Except
variable {ε α β : Type} {action : Except ε α}
lemma bind_eq_ok {next} {res : β} :
    (action >>= next) = .ok res ↔ ∃ value, action = .ok value ∧ next value = .ok res := by
  cases action with
  | error failure =>
    constructor
    · intro runs
      cases runs
    · simp
  | ok value =>
    constructor
    · intro runs
      exact ⟨_, rfl, runs⟩
    · rintro ⟨_, ⟨⟩, runs⟩
      exact runs

variable {next : Unit → Except ε β}
lemma unit_bind_eq_ok {action} {res : β} :
    (action >>= next) = .ok res ↔ action = .ok () ∧ next () = .ok res := by grind [bind_eq_ok]

def require (passed : Bool) (failure : ε) : Except ε Unit := if passed then .ok () else .error failure

variable {failure : ε} {passed : Bool}
lemma require_eq_ok {res} : require passed failure = .ok res ↔ passed = true := by simp [require]
lemma require_bind_eq_ok {res} : (require passed failure >>= next) = .ok res ↔ passed = true ∧ next () = .ok res := by
  cases passed with
  | true => exact ⟨fun runs => ⟨rfl, runs⟩, fun runs => runs.2⟩
  | false =>
    constructor
    · intro runs
      cases runs
    · rintro ⟨⟨⟩, -⟩

section
variable {ε' : Type} {rename : ε → ε'}
lemma mapError_require : (require passed failure).mapError rename = require passed (rename failure) := by
  cases passed <;> rfl

lemma mapError_require_bind : (require passed failure >>= next).mapError rename =
      (require passed (rename failure) >>= fun res => (next res).mapError rename) := by
  cases passed <;> rfl
end

variable {check : α → Except ε Unit}
section
variable (items : List α)
lemma forM_eq_ok : items.forM check = .ok () ↔ ∀ item ∈ items, check item = .ok () := by
  induction items with
  | nil => exact ⟨fun _ item mem => absurd mem List.not_mem_nil, fun _ => rfl⟩
  | cons item items ih =>
    change (check _ >>= fun _ => items.forM _) = .ok () ↔ _
    rw [unit_bind_eq_ok, ih]
    simp

lemma forM_flatMap {check : β → Except ε Unit} (expand : α → List β) (items : List α) :
    (items.flatMap expand).forM check = items.forM fun item => (expand item).forM check := by
  induction items with
  | nil => rfl
  | cons item items ih =>
    simpa using List.forM_append.trans (congrArg (fun rest => (expand _).forM _ >>= fun _ => rest) ih)

def Avoids (bad : ε → Prop) (action : Except ε α) : Prop := ∀ failure, action = .error failure → ¬ bad failure

variable {bad : ε → Prop}
lemma Avoids.ok (value : α) : (Except.ok value : Except ε α).Avoids bad := by
  intro failure fails
  cases fails

lemma Avoids.error (fine : ¬ bad failure) : (Except.error failure : Except ε α).Avoids bad := by
  intro other fails
  cases fails
  exact fine

lemma Avoids.require (fine : ¬ bad failure) : (Except.require passed failure).Avoids bad := by
  cases passed with
  | true => exact .ok ()
  | false => exact .error fine

lemma Avoids.bind {next : α → Except ε β} (first : action.Avoids bad)
    (snd : ∀ value, action = .ok value → (next value).Avoids bad) : (action >>= next).Avoids bad := by
  cases action with
  | error failure => exact .error (first _ rfl)
  | ok value => exact snd _ rfl

lemma Avoids.forM (each : ∀ item ∈ items, (check item).Avoids bad) : (items.forM check).Avoids bad := by
  induction items with
  | nil => exact .ok ()
  | cons item items ih =>
    exact .bind (each _ (by simp)) fun _ _ => ih (List.forall_mem_cons.mp each).2

lemma Avoids.bind_iff {next : α → Except ε β} :
    (action >>= next).Avoids bad ↔ action.Avoids bad ∧ ∀ value, action = .ok value → (next value).Avoids bad := by
  refine ⟨fun avoids => ?_, fun ⟨first, snd⟩ => first.bind snd⟩
  cases action with
  | error failure => exact ⟨fun other fails => avoids _ (by cases fails; rfl), fun value runs => by cases runs⟩
  | ok value =>
    refine ⟨.ok _, fun other runs => ?_⟩
    cases runs
    exact avoids

lemma Avoids.then_iff {action : Except ε Unit} (first : action.Avoids bad) :
    (action >>= next).Avoids bad ↔ (action = .ok () → (next ()).Avoids bad) := by
  rw [bind_iff, and_iff_right first]
  exact ⟨fun later => later (), fun later _ => later⟩

lemma Avoids.until_iff {next : α → Except ε β} (snd : ∀ value, (next value).Avoids bad) :
    (action >>= next).Avoids bad ↔ action.Avoids bad := by rw [bind_iff, and_iff_left fun value _ => snd _]

lemma Avoids.forM_iff : (items.forM check).Avoids bad ↔ ∀ pre item after, items = pre ++ item :: after →
      (∀ earlier ∈ pre, check earlier = .ok ()) → (check item).Avoids bad := by
  induction items with
  | nil => exact ⟨fun _ pre item after split => by simp at split, fun _ => .ok ()⟩
  | cons first items ih =>
    change (check _ >>= fun _ => items.forM _).Avoids _ ↔ _
    rw [bind_iff]
    constructor
    · rintro ⟨here, later⟩ pre item after split passed
      cases pre with
      | nil =>
        cases split
        exact here
      | cons head pre =>
        obtain ⟨rfl, rest⟩ := List.cons.inj split
        exact ih.mp (later () (passed _ (by simp))) _ _ _ rest
          (List.forall_mem_cons.mp passed).2
    · intro run
      refine ⟨run [] _ _ rfl (by simp), fun _ passes => ih.mpr fun pre item after split passed => ?_⟩
      apply run (first :: pre) _ _ (by rw [split]; rfl)
      exact List.forall_mem_cons.mpr ⟨passes, passed⟩
end

lemma mapM_cons (f : α → Except ε β) (item : α) (items) :
    (item :: items).mapM f = (f item >>= fun value => items.mapM f >>= fun values => .ok (value :: values)) :=
  List.mapM_cons

lemma mapM_eq_map {f : α → Except ε β} {g : α → β} (items : List α) (each : ∀ item ∈ items, f item = .ok (g item)) :
    items.mapM f = .ok (items.map g) := by
  induction items with
  | nil => rfl
  | cons item items ih =>
    rw [mapM_cons, each _ (by simp), ih (List.forall_mem_cons.mp each).2]
    rfl

lemma mapM_congr {f g : α → Except ε β} (items : List α) (same : ∀ item ∈ items, f item = g item) : items.mapM f = items.mapM g := by
  induction items with
  | nil => rfl
  | cons item items ih => grind

lemma Avoids.mapM {f : α → Except ε β} (items : List α) (each : ∀ item ∈ items, (f item).Avoids bad) : (items.mapM f).Avoids bad := by
  induction items with
  | nil => exact .ok []
  | cons item items ih =>
    rw [mapM_cons]
    apply Avoids.bind (each _ (by simp))
    intro value _
    apply Avoids.bind (ih (List.forall_mem_cons.mp each).2)
    intro values _
    exact .ok _

lemma exists_ok_of_any {test} (passes : action.toOption.any test = true) :
    ∃ value, action = .ok value ∧ test value = true := by
  cases action with
  | error failure => cases passes
  | ok value => exact ⟨_, rfl, passes⟩

lemma exists_ok_of_decide {test} [DecidablePred test]
    (passes : action.toOption.any (fun value => decide (test value)) = true) : ∃ value, action = .ok value ∧ test value := by
  obtain ⟨value, runs, tested⟩ := exists_ok_of_any passes
  exact ⟨_, runs, of_decide_eq_true tested⟩

end Except
