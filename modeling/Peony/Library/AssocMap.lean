import Mathlib.Data.List.AList
import Mathlib.Algebra.BigOperators.Group.List.Basic
import Mathlib.Algebra.Group.Basic
import Mathlib.Algebra.Order.BigOperators.Group.List
import Mathlib.Algebra.Order.Group.Int
import Mathlib.Tactic.Abel

abbrev AssocMap (α β : Type) := AList (fun _ : α => β)

namespace AssocMap
open List AList
variable {α β γ M : Type}
def total [AddCommGroup M] (weight : α → β → M) (m : AssocMap α β) : M :=
  (m.entries.map fun e => weight e.1 e.2).sum

lemma total_sub [AddCommGroup M] (weight weight' : α → β → M) (m : AssocMap α β) :
    total (fun k b => weight k b - weight' k b) m = total weight m - total weight' m := by
  unfold total
  induction m.entries with
  | nil => simp
  | cons e entries ih => grind

lemma total_filter [AddCommGroup M] (test : β → Bool) (amt : β → M) (m : AssocMap α β) :
    ((m.entries.filter fun e => test e.2).map fun e => amt e.2).sum =
      total (fun _ b => if test b then amt b else 0) m := by
  unfold total
  induction m.entries with
  | nil => rfl
  | cons e entries ih => grind

variable [DecidableEq α]
lemma perm_without {key : β → α} {items : List β} {item : β} (dist : (items.map key).Nodup) (mem : item ∈ items) :
    items.Perm (item :: items.filter fun other => key other != key item) := by
  classical
  have same : items.filter (fun other => key other != key item) = items.erase item := by
    rw [(List.Nodup.of_map _ dist).erase_eq_filter]
    apply filter_congr
    intro other ins
    by_cases own : other = item
    · simp [own]
    · have apart := fun equal => own (inj_on_of_nodup_map dist ins mem equal)
      rw [bne_iff_ne.mpr apart, bne_iff_ne.mpr own]
  rw [same]
  exact perm_cons_erase mem

section
variable (m : AssocMap α β) (k k' : α)
lemma lookup_insert_ite (b : β) : (m.insert k b).lookup k' = if k' = k then some b else m.lookup k' := by
  by_cases h : k' = k
  · subst h
    rw [lookup_insert, if_pos rfl]
  · rw [lookup_insert_ne h, if_neg h]

lemma lookup_erase_ite : (m.erase k).lookup k' = if k' = k then none else m.lookup k' := by
  by_cases h : k' = k
  · subst h
    rw [lookup_erase, if_pos rfl]
  · rw [lookup_erase_ne h, if_neg h]
end

variable {m : AssocMap α β}
lemma forall_insert {P : α → β → Prop} {k : α} {b : β} (all : ∀ k' b', m.lookup k' = some b' → P k' b') (own : P k b) :
    ∀ k' b', (m.insert k b).lookup k' = some b' → P k' b' := by grind [lookup_insert_ite]

lemma forall_erase {P : α → β → Prop} (k : α) (all : ∀ k' b', m.lookup k' = some b' → P k' b') :
    ∀ k' b', (m.erase k).lookup k' = some b' → P k' b' := by
  intro k' b' found
  rw [lookup_erase_ite] at found
  split at found
  · cases found
  · exact all k' b' found

lemma total_congr [AddCommGroup M] (weight : α → β → M) {m m'}
    (same : ∀ k, m.lookup k = m'.lookup k) : total weight m = total weight m' := by
  have perm : m.entries.Perm m'.entries := by
    apply lookup_ext m.nodupKeys m'.nodupKeys
    intro k b
    have h := same k
    simp only [AList.lookup] at h
    rw [h]
  exact (perm.map _).sum_eq

lemma total_insert_of_absent [AddCommGroup M] (weight : α → β → M) (m : AssocMap α β) (k : α) (b : β)
    (absent : m.lookup k = none) : total weight (m.insert k b) = weight k b + total weight m := by
  have fresh : k ∉ m := lookup_eq_none.mp absent
  simp only [total, entries_insert_of_notMem fresh, map_cons, sum_cons]

lemma total_erase_of_present [AddCommGroup M] (weight : α → β → M) (m : AssocMap α β) (k : α) (b : β)
    (present : m.lookup k = some b) : total weight (m.erase k) = total weight m - weight k b := by
  have back : total weight ((m.erase k).insert k b) = total weight m := by
    apply total_congr
    intro k'
    rw [lookup_insert_ite, lookup_erase_ite]
    split
    · grind
    · rfl
  have inserted := total_insert_of_absent weight _ k b (lookup_erase k m)
  rw [back] at inserted
  rw [inserted, add_sub_cancel_left]

def weigh [AddCommGroup M] (weight : β → M) : Option β → M
  | none => 0
  | some b => weight b

lemma total_erase [AddCommGroup M] (weight : α → β → M) (m : AssocMap α β) (k : α) :
    total weight (m.erase k) = total weight m - weigh (weight k) (m.lookup k) := by
  cases present : m.lookup k with
  | none =>
    rw [weigh, sub_zero]
    apply total_congr
    intro k'
    rw [lookup_erase_ite]
    split
    · grind
    · rfl
  | some b => exact total_erase_of_present _ m k b present

lemma total_of_update [AddCommGroup M] (weight : α → β → M) {m m' k found}
    (changed : ∀ k', m'.lookup k' = if k' = k then found else m.lookup k') :
    total weight m' = total weight m - weigh (weight k) (m.lookup k) + weigh (weight k) found := by
  have rest : total weight (m'.erase k) = total weight (m.erase k) := by
    apply total_congr
    intro k'
    rw [lookup_erase_ite, lookup_erase_ite, changed]
    split <;> rfl
  have own : m'.lookup k = found := by rw [changed, if_pos rfl]
  rw [total_erase, total_erase, own] at rest
  rw [← rest, sub_add_cancel]

lemma total_nonneg (weight : α → β → Int) (nonneg : ∀ k b, m.lookup k = some b → 0 ≤ weight k b) : 0 ≤ total weight m := by
  apply sum_nonneg
  intro amt mem
  obtain ⟨⟨k, b⟩, ins, rfl⟩ := mem_map.mp mem
  exact nonneg k b (mem_lookup_iff.mpr ins)

lemma total_eq_zero [AddCommGroup M] (weight : α → β → M) (zero : ∀ k b, m.lookup k = some b → weight k b = 0) :
    total weight m = 0 := by
  apply sum_eq_zero
  intro amt mem
  obtain ⟨⟨k, b⟩, ins, rfl⟩ := mem_map.mp mem
  exact zero k b (mem_lookup_iff.mpr ins)

lemma total_weight_congr [AddCommGroup M] {weight weight' : α → β → M}
    (same : ∀ k b, m.lookup k = some b → weight k b = weight' k b) : total weight m = total weight' m := by
  unfold total
  congr 1
  apply map_congr_left
  rintro ⟨k, b⟩ ins
  exact same k b (mem_lookup_iff.mpr ins)

def overlay (read : β → Option γ) (updates : AssocMap α β) (base : AssocMap α γ) : AssocMap α γ :=
  updates.entries.foldr (fun e m => match read e.2 with
    | none => m.erase e.1
    | some c => m.insert e.1 c) base

lemma lookup_overlay (read : β → Option γ) (upd : AssocMap α β) (base : AssocMap α γ) (k : α) : (overlay read upd base).lookup k =
      match upd.lookup k with
      | some b => read b
      | none => base.lookup k := by
  obtain ⟨entries, nodup⟩ := upd
  simp only [overlay, AList.lookup]
  clear nodup
  induction entries with
  | nil => simp
  | cons e entries ih =>
    obtain ⟨key, b⟩ := e
    simp only [foldr_cons]
    by_cases h : k = key
    · subst h
      rw [dlookup_cons_eq]
      cases hr : read b with
      | none =>
        simp only [hr]
        exact lookup_erase k _
      | some c =>
        simp only [hr]
        exact lookup_insert _
    · rw [dlookup_cons_ne _ _ h]
      cases hr : read b with
      | none => exact (lookup_erase_ne h).trans ih
      | some c => exact (lookup_insert_ne h).trans ih

variable (keep : α → Bool) (m : AssocMap α β)
def restrict : AssocMap α β where
  entries := m.entries.filter fun e => keep e.1
  nodupKeys := m.nodupKeys.sublist filter_sublist

lemma lookup_restrict (k : α) : (restrict keep m).lookup k = if keep k then m.lookup k else none := by
  obtain ⟨entries, nodup⟩ := m
  simp only [restrict, AList.lookup]
  clear nodup
  induction entries with
  | nil => simp
  | cons e entries ih =>
    obtain ⟨key, b⟩ := e
    by_cases h : k = key
    · grind
    · grind

variable (map : AssocMap α β)
def insertNew (key : α) (value : β) : AssocMap α β :=
  if (map.lookup key).isSome then map else map.insert key value

lemma isSome_lookup_insertNew (key other : α) (value : β) :
    ((insertNew map key value).lookup other).isSome = true ↔ key = other ∨ (map.lookup other).isSome = true := by
  unfold insertNew
  split
  · grind
  · grind [lookup_insert_ite]

end AssocMap
