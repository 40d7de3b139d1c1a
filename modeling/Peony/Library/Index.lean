import Mathlib.Logic.Function.Basic
import Peony.Library.AssocMap

open Function

/-- An index that stores, under a key of each value, something of one such entry. -/
structure IndexedBy {α β γ κ : Type} (key : β → κ) (stored : α → β → γ) (main : α → Option β) (index : κ → Option γ) : Prop where
  sound : ∀ k c, index k = some c → ∃ a b, main a = some b ∧ key b = k ∧ stored a b = c
  complete : ∀ a b, main a = some b → (index (key b)).isSome = true

section
variable {α β κ : Type}
def SoleOwner (key : β → κ) (main : α → Option β) (a : α) (k : κ) : Prop :=
  ∀ a' b', a' ≠ a → main a' = some b' → key b' ≠ k

def BucketsBy (value : β → κ) (main : α → Option β) (bucket : κ → α → Prop) : Prop :=
  ∀ c a, bucket c a ↔ ∃ b, main a = some b ∧ value b = c

lemma held_of_update_none {α β : Type} [DecidableEq α] {main} {a a' : α} {b : β}
    (held : update main a none a' = some b) : main a' = some b := by grind

lemma SoleOwner.mono {key : β → κ} {main main' : α → Option β} {a : α} {k : κ} (sole : SoleOwner key main a k)
    (fewer : ∀ a b, main' a = some b → main a = some b) : SoleOwner key main' a k :=
  fun a' b' other held => sole a' b' other (fewer a' b' held)
end

namespace IndexedBy
variable {α β γ κ : Type} {key : β → κ} {stored : α → β → γ} {main : α → Option β} {index : κ → Option γ} {a : α} {b : β} {k : κ}
lemma empty : IndexedBy key stored (fun _ : α => none) (fun _ => none) :=
  ⟨fun _ _ found => (by cases found), fun _ _ found => (by cases found)⟩

lemma lookup_iff (indexed : IndexedBy key stored main index)
    (distinct : ∀ a b a' b', main a = some b → main a' = some b' → key b = key b' → a = a') (k : κ) (c : γ) :
    index k = some c ↔ ∃ a b, main a = some b ∧ key b = k ∧ stored a b = c := by
  refine ⟨indexed.sound k c, ?_⟩
  rintro ⟨a, b, held, rfl, rfl⟩
  cases found : index _ with
  | none =>
    have some := indexed.complete a b held
    rw [found] at some
    cases some
  | some c =>
    obtain ⟨a', b', held', same, rfl⟩ := indexed.sound _ c found
    cases distinct a' b' a b held' held same
    cases held.symm.trans held'
    rfl

variable [DecidableEq α] [DecidableEq κ] (indexed : IndexedBy key stored main index)
include indexed

lemma insert (replaced : ∀ old, main a = some old → key old = key b) :
    IndexedBy key stored (update main a (some b)) (update index (key b) (some (stored a b))) := by
  constructor
  · intro k c found
    by_cases own : k = key b
    · cases own
      rw [update_self] at found
      cases found
      exact ⟨a, b, update_self .., rfl, rfl⟩
    · rw [update_of_ne own] at found
      obtain ⟨a', b', held, rfl, rfl⟩ := indexed.sound k c found
      have other : a' ≠ a := by
        rintro rfl
        exact own (replaced b' held)
      exact ⟨a', b', by rw [update_of_ne other, held], rfl, rfl⟩
  · intro a' b' found
    by_cases own : key b' = key b
    · rw [own, update_self]
      rfl
    · rw [update_of_ne own]
      by_cases same : a' = a
      · grind
      · rw [update_of_ne same] at found
        exact indexed.complete a' b' found

lemma erase_iff (own : ∀ old, main a = some old → key old = k) :
    IndexedBy key stored (update main a none) (update index k none) ↔ SoleOwner key main a k := by
  constructor
  · intro erased a' b' other held same
    have found := erased.complete a' b' (by rw [update_of_ne other, held])
    rw [same, update_self] at found
    cases found
  · intro sole
    constructor
    · intro k' c found
      by_cases gone : k' = k
      · cases gone
        rw [update_self] at found
        cases found
      · rw [update_of_ne gone] at found
        obtain ⟨a', b', held, rfl, rfl⟩ := indexed.sound k' c found
        have other : a' ≠ a := by
          rintro rfl
          exact gone (own b' held)
        exact ⟨a', b', by rw [update_of_ne other, held], rfl, rfl⟩
    · intro a' b' found
      by_cases same : a' = a
      · cases same
        rw [update_self] at found
        cases found
      · rw [update_of_ne same] at found
        rw [update_of_ne (sole a' b' same found)]
        exact indexed.complete a' b' found

end IndexedBy

namespace BucketsBy
variable {α β κ : Type} [DecidableEq α] {value : β → κ} {main : α → Option β} {bucket : κ → α → Prop} {a : α} {b : β} {k : κ}
variable (lists : BucketsBy value main bucket)
include lists

lemma insert (replaced : ∀ old, main a = some old → value old = value b) :
    BucketsBy value (update main a (some b)) fun c a' => (c = value b ∧ a' = a) ∨ bucket c a' := by
  intro c a'
  by_cases same : a' = a
  · cases same
    rw [update_self]
    constructor
    · rintro (⟨rfl, -⟩ | listed)
      · exact ⟨b, rfl, rfl⟩
      · obtain ⟨old, held, rfl⟩ := (lists c a).mp listed
        exact ⟨b, rfl, (replaced _ held).symm⟩
    · grind
  · rw [update_of_ne same, ← lists]
    constructor
    · grind
    · exact .inr

lemma erase (own : ∀ old, main a = some old → value old = k) :
    BucketsBy value (update main a none) fun c a' => bucket c a' ∧ ¬ (c = k ∧ a' = a) := by
  intro c a'
  by_cases same : a' = a
  · cases same
    rw [update_self]
    constructor
    · rintro ⟨listed, kept⟩
      obtain ⟨old, held, rfl⟩ := (lists c a).mp listed
      exact absurd ⟨own _ held, rfl⟩ kept
    · rintro ⟨_, none, -⟩
      cases none
  · rw [update_of_ne same, ← lists]
    exact ⟨And.left, fun listed => ⟨listed, fun gone => same gone.2⟩⟩

end BucketsBy

def KeyedBy {α β κ : Type} (key : β → κ) (main : α → Option β) (index : κ → Option α) : Prop :=
  ∀ k a, index k = some a ↔ ∃ b, main a = some b ∧ key b = k

namespace KeyedBy
variable {α β κ : Type} {key : β → κ} {main : α → Option β} {index : κ → Option α} {a : α} {b : β}
lemma empty : KeyedBy key (fun _ : α => none) (fun _ => none) := by
  intro k a
  constructor
  · intro found
    cases found
  · intro found
    obtain ⟨b, held, -⟩ := found
    cases held

lemma distinct (keyed : KeyedBy key main index) {a' b'} (held : main a = some b) (held' : main a' = some b')
    (same : key b = key b') : a = a' := by
  have found := (keyed _ a).mpr ⟨b, held, rfl⟩
  have found' := (keyed _ a').mpr ⟨b', held', same.symm⟩
  exact Option.some.inj (found.symm.trans found')

lemma congr_keys {main'} (same : ∀ a, (main' a).map key = (main a).map key) :
    KeyedBy key main' index ↔ KeyedBy key main index := by
  have mapped : ∀ (main : α → Option β) (k : κ) (a : α), (∃ b, main a = some b ∧ key b = k) ↔ (main a).map key = some k :=
    fun main k a => Option.map_eq_some_iff.symm
  unfold KeyedBy
  simp only [mapped, same]

variable [DecidableEq α]
lemma rekey_iff (keyed : KeyedBy key main index) {b'} (held : main a = some b) :
    KeyedBy key (update main a (some b')) index ↔ key b' = key b := by
  constructor
  · intro changed
    have found := (keyed _ a).mpr ⟨b, held, rfl⟩
    obtain ⟨b'', now, own⟩ := (changed _ a).mp found
    rw [update_self] at now
    cases now
    exact own
  · intro same k a'
    rw [keyed]
    by_cases own : a' = a
    · grind
    · rw [update_of_ne own]

lemma not_drop (keyed : KeyedBy key main index) (held : main a = some b) : ¬ KeyedBy key (update main a none) index := by
  intro cut
  have found := (keyed _ a).mpr ⟨b, held, rfl⟩
  obtain ⟨b', now, -⟩ := (cut _ a).mp found
  rw [update_self] at now
  cases now

variable [DecidableEq κ] (keyed : KeyedBy key main index)
include keyed

lemma insert_iff (fresh : main a = none) :
    KeyedBy key (update main a (some b)) (update index (key b) (some a)) ↔ index (key b) = none := by
  constructor
  · intro inserted
    cases known : index _ with
    | none => rfl
    | some a' =>
      obtain ⟨b', held, own⟩ := (keyed _ a').mp known
      have other : a' ≠ a := by grind
      have found := (inserted _ a').mpr ⟨b', by rw [update_of_ne other, held], own⟩
      rw [update_self] at found
      exact absurd (Option.some.inj found).symm other
  · intro unknown k a'
    by_cases new : k = key b
    · cases new
      rw [update_self]
      constructor
      · grind
      · intro found
        obtain ⟨b', held, own⟩ := found
        by_cases same : a' = a
        · rw [same]
        · rw [update_of_ne same] at held
          rw [(keyed _ a').mpr ⟨b', held, own⟩] at unknown
          cases unknown
    · rw [update_of_ne new, keyed]
      by_cases same : a' = a
      · grind
      · rw [update_of_ne same]

lemma erase (held : main a = some b) : KeyedBy key (update main a none) (update index (key b) none) := by
  intro k a'
  by_cases own : k = key b
  · cases own
    rw [update_self]
    constructor
    · intro found
      cases found
    · intro found
      obtain ⟨b', held', same⟩ := found
      by_cases gone : a' = a
      · grind
      · rw [update_of_ne gone] at held'
        exact absurd (keyed.distinct held' held same) gone
  · rw [update_of_ne own, keyed]
    by_cases gone : a' = a
    · grind
    · rw [update_of_ne gone]

end KeyedBy

namespace AssocMap
variable {α β : Type} [DecidableEq α]
lemma lookup_insert_eq_update (m : AssocMap α β) (k : α) (b : β) :
    (fun k' => (m.insert k b).lookup k') = update (fun k' => m.lookup k') k (some b) := by
  funext k'
  rw [lookup_insert_ite, update_apply]

lemma lookup_erase_eq_update (m : AssocMap α β) (k : α) : (fun k' => (m.erase k).lookup k') = update (fun k' => m.lookup k') k none := by
  funext k'
  rw [lookup_erase_ite, update_apply]

variable [DecidableEq β] (m : AssocMap α (List β)) (k c : α) (b b' : β)
lemma mem_insert_bucket :
    b' ∈ ((m.insert k (((m.lookup k).getD []).insert b)).lookup c).getD [] ↔ (c = k ∧ b' = b) ∨ b' ∈ (m.lookup c).getD [] := by
  grind [lookup_insert_ite]

lemma mem_erase_bucket : b' ∈ ((match m.lookup k with
      | none => m
      | some bucket => m.insert k (bucket.filter (· ≠ b))).lookup c).getD [] ↔
      b' ∈ (m.lookup c).getD [] ∧ ¬ (c = k ∧ b' = b) := by
  cases found : m.lookup k with
  | none => grind
  | some bucket => grind [lookup_insert_ite]

end AssocMap
