import Peony.Mempool.Pool

namespace Peony.CTxMemPool
open Reachability Relation DescendantState List
open CTxMemPoolEntry (weight)
variable {pool : CTxMemPool} {D : Prop} {a b h : UInt256} {p q : UInt256 → Prop}
section
variable (pool : CTxMemPool)
def Child (a b : UInt256) : Prop := a ∈ pool.hashes ∧ ∃ entry ∈ pool.mapTx, entry.hash = b ∧ a ∈ entry.spentHashes

noncomputable def weigh : (UInt256 → Prop) → DescendantState :=
  Reachability.weigh (fun entry => entry.hash) weight pool.mapTx

noncomputable def below (h : UInt256) : DescendantState := pool.weigh (Reach pool.children h)
end

/-- What every call keeps. `D` says whether an entry may be dirty instead of right. -/
structure Linked (D : Prop) (pool : CTxMemPool) : Prop where
  distinct : pool.hashes.Nodup
  spent : ∀ o h, pool.mapNextTx o = some h ↔ ∃ entry ∈ pool.mapTx, entry.hash = h ∧ o ∈ entry.outpoints
  inverse : ∀ a b, a ∈ pool.parents b ↔ b ∈ pool.children a
  inside : ∀ a b, b ∈ pool.children a → a ∈ pool.hashes ∧ b ∈ pool.hashes
  total : pool.totalTxSize = (pool.mapTx.map fun entry => entry.nTxSize).sum
  sums : ∀ h ∈ pool.hashes, D ∧ (pool.withDescendants h).isDirty ∨ pool.withDescendants h = pool.below h

lemma weight_nonneg (entry : CTxMemPoolEntry) : 0 ≤ entry.weight :=
  ⟨Int.one_nonneg, entry.size_pos.le, entry.fee_nonneg⟩

section
variable (distinct : pool.hashes.Nodup) (pooled : h ∈ pool.hashes) (counted : p h)
include distinct pooled counted

lemma positive_weigh : (pool.weigh p).Positive := by
  obtain ⟨entry, there, rfl⟩ := mem_map.1 pooled
  obtain ⟨rest, nonneg, sum⟩ := exists_weigh_eq (w := weight) distinct
    (fun entry _ => weight_nonneg _) there counted
  have size := entry.size_pos
  have fee := entry.fee_nonneg
  have count : 0 ≤ rest.1 := nonneg.1
  have sizes : 0 ≤ rest.2.1 := nonneg.2.1
  have fees : 0 ≤ rest.2.2 := nonneg.2.2
  unfold weigh
  rw [sum]
  simp only [Positive, weight, Prod.fst_add, Prod.snd_add]
  omega

lemma not_dirty : (pool.weigh p).isDirty = false := by
  have count := (positive_weigh distinct pooled counted).1
  simp only [isDirty, beq_eq_false_iff_ne]
  omega
end

lemma Linked.mem_ancestors (linked : pool.Linked D) (starts) (pooled : starts ⊆ pool.hashes) :
    h ∈ pool.calculateMemPoolAncestors starts ↔ ∃ s ∈ starts, Reach pool.children h s := by
  unfold calculateMemPoolAncestors
  rw [mem_closure _ _ (by simp [hashes]) pooled (fun b _ a parent => (linked.inside a b ((linked.inverse a b).1 parent)).1)
    (by simp) (by simp)]
  have same : (fun a b => b ∈ pool.parents a) = Function.swap fun a b => b ∈ pool.children a := by
    funext b a
    exact propext (linked.inverse a b)
  rw [Reach, same]
  simp only [not_mem_nil, false_or]
  exact exists_congr fun s => and_congr_right fun _ => reflTransGen_swap

lemma Linked.below_added {added : CTxMemPool} {entry} {setAncestors : List UInt256} (linked : pool.Linked D)
    (fresh : entry.hash ∉ pool.hashes) (loopless : entry.hash ∉ entry.spentHashes) (shape : added.mapTx = entry :: pool.mapTx)
    (links : ∀ a b, b ∈ added.children a ↔ b ∈ pool.children a ∨ b = entry.hash ∧ a ∈ entry.spentHashes ∧ a ∈ pool.hashes)
    (ancestor : ∀ h, h ∈ setAncestors ↔ ∃ s, (s ∈ entry.spentHashes ∧ s ∈ pool.hashes) ∧ Reach pool.children h s) :
    added.below h = (if h = entry.hash ∨ h ∈ setAncestors then entry.weight else 0) + if h = entry.hash then 0 else pool.below h := by
  classical
  have reach : ∀ b, Reach added.children h b ↔ _ := fun b => reach_with_sink (b := b) links
    (fun a => ⟨fun link => fresh (linked.inside _ _ link).2, fun link => fresh (linked.inside _ _ link).1⟩) fun into => loopless into.1
  have old : ∀ i ∈ pool.mapTx, i.hash ≠ entry.hash := fun i there same => fresh (same ▸ mem_map_of_mem there)
  unfold below weigh
  rw [shape, weigh_cons]
  congr 1
  · exact if_congr ((reach _).trans (by simp [ancestor])) rfl rfl
  · split
    · rename_i same
      rw [weigh_congr (q := fun _ => False) fun i there => iff_false_intro fun path => ?_]
      · simp [Reachability.weigh]
      · rcases (reach _).1 path with ⟨self, -⟩ | ⟨-, path⟩
        · exact old i there self
        · cases path using ReflTransGen.head_induction_on with
          | refl => exact old i there same
          | head step _ => exact fresh (same ▸ (linked.inside _ _ step).1)
    · exact weigh_congr fun i there => (reach _).trans (by simp [old i there])

lemma mem_searchForParents {hashed} : a ∈ pool.searchForParents hashed ↔ a ∈ hashed.spentHashes ∧ a ∈ pool.hashes := by
  simp [searchForParents]

variable {entry : CTxMemPoolEntry} (linked : pool.Linked D) (fresh : entry.hash ∉ pool.hashes)
include linked fresh

lemma Linked.addUnchecked_fields (loopless : entry.hash ∉ entry.spentHashes) : ∃ added, pool.addUnchecked entry = .ok added ∧
      added.mapTx = entry :: pool.mapTx ∧
      (∀ o, added.mapNextTx o = if o ∈ entry.outpoints then some entry.hash else pool.mapNextTx o) ∧
      (∀ a b, a ∈ added.parents b ↔ a ∈ pool.parents b ∨ b = entry.hash ∧ a ∈ entry.spentHashes ∧ a ∈ pool.hashes) ∧
      (∀ a b, b ∈ added.children a ↔ b ∈ pool.children a ∨ b = entry.hash ∧ a ∈ entry.spentHashes ∧ a ∈ pool.hashes) ∧
      added.totalTxSize = pool.totalTxSize + entry.nTxSize ∧
      ∀ h, added.withDescendants h = if h = entry.hash then entry.weight
        else if h ∈ pool.calculateMemPoolAncestors (pool.searchForParents entry.toHashedTx) ∧ (pool.withDescendants h).isDirty = false
          then pool.withDescendants h + entry.weight else pool.withDescendants h := by
  have orphan : pool.parents entry.hash = [] := eq_nil_iff_forall_not_mem.2 fun a link =>
    fresh (linked.inside _ _ ((linked.inverse _ _).1 link)).2
  have pooled_ancestor : ∀ h ∈ pool.calculateMemPoolAncestors (pool.searchForParents entry.toHashedTx), h ∈ pool.hashes := by
    intro h ins
    obtain ⟨s, start, reach⟩ := (linked.mem_ancestors _ fun _ start => (mem_searchForParents.1 start).2).1 ins
    cases reach using ReflTransGen.head_induction_on with
    | refl => exact (mem_searchForParents.1 start).2
    | head step _ => exact (linked.inside _ _ step).1
  have parent : ∀ a, a ∈ pool.parents entry.hash ∪ entry.spentHashes.filter (· ∈ entry.hash :: pool.hashes) ↔
      a ∈ entry.spentHashes ∧ a ∈ pool.hashes := by
    intro a
    rw [orphan]
    simp only [mem_union_iff, not_mem_nil, false_or, mem_filter, mem_cons, decide_eq_true_eq]
    exact and_congr_right fun spends => or_iff_right fun same => loopless (same ▸ spends)
  have other : ∀ {h}, h ∈ pool.hashes → h ≠ entry.hash := fun pooled same => fresh (same ▸ pooled)
  unfold CTxMemPool.addUnchecked
  simp only [fresh, if_false]
  rw [updateAncestorsOf_ok rfl]
  · refine ⟨_, rfl, rfl, fun o => rfl, fun a b => ?_, fun a b => ?_, rfl, fun h => ?_⟩
    · by_cases new : b = entry.hash
      · subst new
        dsimp only
        rw [if_pos rfl, parent, orphan]
        simp
      · simp [new]
    · simp only [if_true, parent]
      split <;> rename_i into <;> simp [into, or_comm]
    · by_cases new : h = entry.hash
      · have old : entry.hash ∉ pool.calculateMemPoolAncestors (pool.searchForParents entry.toHashedTx) :=
          fun ins => fresh (pooled_ancestor _ ins)
        simp [new, fresh, old]
      · simp [new]
  · intro h ins
    have pooled := pooled_ancestor h ins
    simp only [other pooled, false_and, if_false, if_true]
    rcases linked.sums h pooled with ⟨-, dirty⟩ | right
    · exact .inl dirty
    · have old := positive_weigh linked.distinct pooled (p := Reach pool.children h) .refl
      have new := weight_nonneg entry
      rw [right]
      exact .inr ⟨add_pos_of_pos_of_nonneg old.1 new.1, add_pos_of_pos_of_nonneg old.2.1 new.2.1, add_nonneg old.2.2 new.2.2⟩

lemma Linked.addUnchecked (unspent : ∀ o ∈ entry.outpoints, pool.mapNextTx o = none) (loopless : entry.hash ∉ entry.spentHashes) :
    ∃ added, pool.addUnchecked entry = .ok added ∧ added.Linked D ∧ added.mapTx = entry :: pool.mapTx ∧
      ∀ a b, b ∈ added.children a ↔ b ∈ pool.children a ∨ b = entry.hash ∧ a ∈ entry.spentHashes ∧ a ∈ pool.hashes := by
  have ancestor := fun h => linked.mem_ancestors (h := h) (pool.searchForParents entry.toHashedTx) fun _ start =>
    (mem_searchForParents.1 start).2
  obtain ⟨added, res, mapTx, next, parents, kids, total, state⟩ := linked.addUnchecked_fields fresh loopless
  refine ⟨_, res, ⟨?_, ?_, ?_, ?_, ?_, ?_⟩, mapTx, kids⟩
  · rw [hashes, mapTx]
    exact nodup_cons.2 ⟨fresh, linked.distinct⟩
  · intro o h
    rw [next, mapTx]
    split <;> rename_i spends
    · have unused : ∀ i ∈ pool.mapTx, o ∉ i.outpoints := fun i there uses => by
        have := (linked.spent o _).2 ⟨i, there, rfl, uses⟩
        simp [unspent o spends] at this
      simp only [mem_cons, exists_eq_or_imp, spends, and_true, Option.some.injEq]
      exact ⟨.inl, fun found => found.elim id fun ⟨i, there, _, uses⟩ => absurd uses (unused i there)⟩
    · simp [spends, linked.spent]
  · exact fun a b => (parents a b).trans ((or_congr_left (linked.inverse a b)).trans (kids a b).symm)
  · intro a b link
    simp only [hashes, mapTx, map_cons, mem_cons]
    rcases (kids a b).1 link with link | ⟨rfl, -, pooled⟩
    · exact ⟨.inr (linked.inside _ _ link).1, .inr (linked.inside _ _ link).2⟩
    · exact ⟨.inr pooled, .inl rfl⟩
  · simp [total, mapTx, linked.total, add_comm]
  · intro h pooled
    rw [linked.below_added fresh loopless mapTx kids fun h => (ancestor h).trans (by simp only [mem_searchForParents]), state]
    by_cases new : h = entry.hash
    · simp [new]
    · have pooled : h ∈ pool.hashes := by simpa [hashes, mapTx, new] using pooled
      simp only [new, if_false, false_or]
      rcases linked.sums h pooled with ⟨may, dirty⟩ | right
      · simp [may, dirty]
      · have clean := not_dirty linked.distinct pooled (p := Reach pool.children h) .refl
        rw [← below, ← right] at clean
        right
        simp only [clean, and_true, ← right]
        split
        · exact add_comm _ _
        · exact (zero_add _).symm

end Peony.CTxMemPool
