import Peony.Mempool.Linked

namespace Peony.CTxMemPool
open Reachability Relation List
open CTxMemPoolEntry (weight)
variable {pool now : CTxMemPool} {a b h : UInt256} {stage done starts : List UInt256}
structure Consistent (pool : CTxMemPool) : Prop extends Linked False pool where
  exact : ∀ a b, b ∈ pool.children a ↔ pool.Child a b
  acyclic : ∃ rank : UInt256 → Nat, ∀ a b, b ∈ pool.children a → rank a < rank b

/-- While a stage is removed, the entries of `done` no longer weigh on their ancestors. -/
structure Severed (pool : CTxMemPool) (done : List UInt256) (now : CTxMemPool) : Prop where
  mapTx : now.mapTx = pool.mapTx
  mapNextTx : now.mapNextTx = pool.mapNextTx
  parents : now.parents = pool.parents
  total : now.totalTxSize = pool.totalTxSize
  children : ∀ a b, b ∈ now.children a ↔ b ∈ pool.children a ∧ b ∉ done
  sums : ∀ h ∈ pool.hashes, now.withDescendants h = pool.weigh fun y => Reach pool.children h y ∧ ¬ (y ∈ done ∧ y ≠ h)

namespace Consistent

section
variable (consistent : pool.Consistent)
include consistent

lemma withDescendants_eq (pooled : h ∈ pool.hashes) : pool.withDescendants h = pool.below h :=
  (consistent.sums h pooled).resolve_left fun dirty => dirty.1

lemma mem_ancestors_of_entry : h ∈ pool.calculateMemPoolAncestors (pool.parents b) ↔ Reach pool.children h b ∧ h ≠ b := by
  rw [consistent.mem_ancestors _ fun a parent => (consistent.inside _ _ ((consistent.inverse a b).1 parent)).1]
  constructor
  · rintro ⟨a, parent, reach⟩
    have link := (consistent.inverse a b).1 parent
    obtain ⟨rank, lt⟩ := consistent.acyclic
    have le : rank h ≤ rank a := by
      clear link parent
      induction reach with
      | refl => exact Nat.le_refl _
      | tail _ step ih => exact ih.trans (lt _ _ step).le
    exact ⟨reach.tail link, fun same => absurd (lt _ _ link) (same ▸ le.not_gt)⟩
  · rintro ⟨reach, other⟩
    cases reach with
    | refl => exact absurd rfl other
    | tail reach step => exact ⟨_, (consistent.inverse _ _).2 step, reach⟩

lemma severed_step (severed : Severed pool done now) {it} (pooled : it ∈ pool.mapTx)
    (left : it.hash ∉ done) : ∃ next, now.updateAncestorsOf false it (now.calculateMemPoolAncestors (now.parents it.hash)) = .ok next ∧
      Severed pool (it.hash :: done) next := by
  have ancestor : ∀ h, h ∈ now.calculateMemPoolAncestors (now.parents it.hash) ↔ Reach pool.children h it.hash ∧ h ≠ it.hash := by
    intro h
    rw [← consistent.mem_ancestors_of_entry]
    simp only [calculateMemPoolAncestors, severed.parents, severed.mapTx]
  have lighter : ∀ h ∈ pool.hashes, Reach pool.children h it.hash → h ≠ it.hash → now.withDescendants h + -it.weight =
      pool.weigh fun y => (Reach pool.children h y ∧ ¬ (y ∈ done ∧ y ≠ h)) ∧ ¬ y = it.hash := by
    intro h ins reach other
    have single : (pool.weigh fun y => (Reach pool.children h y ∧ ¬ (y ∈ done ∧ y ≠ h)) ∧ y = it.hash) = it.weight := by
      rw [← weigh_eq_of_mem (w := weight) consistent.distinct pooled]
      refine weigh_congr fun y _ => ⟨And.right, fun same => ⟨⟨same ▸ reach, ?_⟩, same⟩⟩
      rw [same]
      exact fun gone => left gone.1
    rw [severed.sums h ins, weigh, weigh_split, ← weigh, single]
    abel
  have pooled_ancestor : ∀ {h}, Reach pool.children h it.hash → h ∈ pool.hashes := by
    intro h reach
    cases reach using ReflTransGen.head_induction_on with
    | refl => exact mem_map_of_mem pooled
    | head step _ => exact (consistent.inside _ _ step).1
  rw [updateAncestorsOf_ok rfl]
  · refine ⟨_, rfl, severed.mapTx, severed.mapNextTx, severed.parents, severed.total, fun a b => ?_, fun h ins => ?_⟩
    · simp only [severed.parents, consistent.inverse, mem_cons, Bool.false_eq_true, if_false]
      by_cases link : it.hash ∈ pool.children a
      · simp only [link, if_true, mem_filter, severed.children, decide_eq_true_eq]
        tauto
      · have other : b ∈ pool.children a → b ≠ it.hash := fun child same => link (same ▸ child)
        simp only [link, if_false, severed.children]
        tauto
    · have clean : (now.withDescendants h).isDirty = false := by
        rw [severed.sums h ins]
        exact not_dirty consistent.distinct ins ⟨.refl, fun gone => gone.2 rfl⟩
      simp only [clean, and_true, Bool.false_eq_true, if_false]
      split <;> rename_i above <;> rw [ancestor] at above
      · rw [lighter h ins above.1 above.2]
        refine weigh_congr fun y _ => ?_
        have other : y.hash = it.hash → y.hash ≠ h := fun same back => above.2 (back ▸ same)
        rw [mem_cons]
        tauto
      · rw [severed.sums h ins]
        refine weigh_congr fun y _ => ?_
        have self : y.hash = it.hash → Reach pool.children h y.hash → y.hash = h := fun same reach =>
          by_contra fun other => above ⟨same ▸ reach, fun back => other (same.trans back.symm)⟩
        rw [mem_cons]
        tauto
  · intro h ins
    obtain ⟨reach, other⟩ := (ancestor h).1 ins
    have ins := pooled_ancestor reach
    refine .inr ?_
    simp only [if_false, Bool.false_eq_true]
    rw [lighter h ins reach other]
    exact positive_weigh consistent.distinct ins ⟨⟨.refl, fun gone => gone.2 rfl⟩, other⟩

lemma severed_run (staged) (pooled : staged ⊆ pool.mapTx)
    (dist : (staged.map fun it => it.hash).Nodup) (fresh : ∀ it ∈ staged, it.hash ∉ done) (severed : Severed pool done now) :
    ∃ last, staged.foldlM (fun pool it => pool.updateAncestorsOf false it
      (pool.calculateMemPoolAncestors (pool.parents it.hash))) now = .ok last ∧
      ∃ all, (∀ y, y ∈ all ↔ y ∈ done ∨ y ∈ staged.map fun it => it.hash) ∧ Severed pool all last := by
  induction staged generalizing now done with
  | nil => exact ⟨_, rfl, _, by simp, severed⟩
  | cons it staged ih =>
    obtain ⟨next, step, severed⟩ := consistent.severed_step severed (pooled mem_cons_self) (fresh it mem_cons_self)
    rw [map_cons, nodup_cons] at dist
    have later : ∀ other ∈ staged, other.hash ∉ it.hash :: done := by
      intro other ins
      rw [mem_cons, not_or]
      exact ⟨fun same => dist.1 (same ▸ mem_map_of_mem ins), fresh _ (mem_cons_of_mem _ ins)⟩
    obtain ⟨last, rest, all, covers, severed⟩ := ih (subset_of_cons_subset pooled) dist.2 later severed
    refine ⟨_, ?_, _, fun y => (covers y).trans ?_, severed⟩
    · rw [foldlM_cons, step]
      exact rest
    · simp only [map_cons, mem_cons]
      tauto

/-- Entries may leave with all of their descendants, or with all of their ancestors. -/
lemma removeStaged_fields : ∃ left, pool.removeStaged stage = .ok left ∧
      left.mapTx = (pool.mapTx.filter fun entry => entry.hash ∉ stage) ∧
      (∀ o h, left.mapNextTx o = some h ↔ pool.mapNextTx o = some h ∧ ∀ entry ∈ pool.mapTx, entry.hash ∈ stage → o ∉ entry.outpoints) ∧
      (∀ a b, a ∈ left.parents b ↔ b ∈ pool.children a ∧ a ∉ stage ∧ b ∉ stage) ∧
      (∀ a b, b ∈ left.children a ↔ b ∈ pool.children a ∧ a ∉ stage ∧ b ∉ stage) ∧
      left.totalTxSize = pool.totalTxSize - ((pool.mapTx.filter fun entry => entry.hash ∈ stage).map fun entry => entry.nTxSize).sum ∧
      ∀ h ∈ pool.hashes, left.withDescendants h = pool.weigh fun y => Reach pool.children h y ∧ ¬ (y ∈ stage ∧ y ≠ h) := by
  have start : Severed pool [] pool :=
    ⟨rfl, rfl, rfl, rfl, by simp, fun h ins => by simpa [below] using consistent.withDescendants_eq ins⟩
  obtain ⟨last, run, all, covers, severed⟩ := consistent.severed_run (pool.mapTx.filter fun it => it.hash ∈ stage)
    filter_sublist.subset (consistent.distinct.sublist (filter_sublist.map _)) (fun _ _ => not_mem_nil) start
  have gone : ∀ {y}, y ∈ pool.hashes → (y ∈ all ↔ y ∈ stage) := by
    intro y ins
    obtain ⟨entry, there, rfl⟩ := mem_map.1 ins
    rw [covers]
    simp only [not_mem_nil, false_or, mem_map, mem_filter, decide_eq_true_eq]
    constructor
    · rintro ⟨_, staged, same⟩
      exact same ▸ staged.2
    · exact fun staged => ⟨_, ⟨there, staged⟩, rfl⟩
  unfold CTxMemPool.removeStaged
  dsimp only
  rw [run]
  refine ⟨_, rfl, congrArg _ severed.mapTx, fun o h => ?_, fun a b => ?_, fun a b => ?_, by simp only [severed.total], fun h ins => ?_⟩
  · simp only [severed.mapNextTx]
    split <;> rename_i spends <;> simp only [any_eq_true, mem_filter, decide_eq_true_eq] at spends
    · simp only [reduceCtorEq, false_iff, not_and, not_forall]
      obtain ⟨entry, there, uses⟩ := spends
      exact fun _ => ⟨_, there.1, there.2, not_not.2 uses⟩
    · exact ⟨fun some => ⟨some, fun entry there staged uses => spends ⟨_, ⟨there, staged⟩, uses⟩⟩, And.left⟩
  · by_cases staged : b ∈ stage
    · simp [staged]
    · simp only [staged, if_false, mem_filter, decide_eq_true_eq, severed.parents, consistent.inverse, severed.children]
      have kept : b ∈ pool.children a → b ∉ all := fun link => mt (gone (consistent.inside _ _ link).2).1 staged
      tauto
  · by_cases staged : a ∈ stage
    · simp [staged]
    · simp only [staged, if_false, severed.children]
      have same : b ∈ pool.children a → (b ∈ all ↔ b ∈ stage) := fun link => gone (consistent.inside _ _ link).2
      tauto
  · refine (severed.sums h ins).trans (weigh_congr fun entry there => ?_)
    rw [gone (mem_map_of_mem there)]

lemma removeStaged (whole : (∀ s t, s ∈ stage → t ∈ pool.children s → t ∈ stage) ∨
    (∀ s t, s ∈ stage → s ∈ pool.children t → t ∈ stage)) : ∃ left, pool.removeStaged stage = .ok left ∧ left.Consistent := by
  obtain ⟨left, res, mapTx, next, parents, kids, total, state⟩ := consistent.removeStaged_fields
  have pooled : ∀ {y}, y ∈ left.hashes ↔ y ∈ pool.hashes ∧ y ∉ stage := by
    intro y
    simp only [hashes, mapTx, mem_map, mem_filter, decide_eq_true_eq]
    constructor
    · rintro ⟨entry, there, rfl⟩
      exact ⟨⟨_, there.1, rfl⟩, there.2⟩
    · rintro ⟨⟨entry, there, rfl⟩, kept⟩
      exact ⟨_, ⟨there, kept⟩, rfl⟩
  refine ⟨_, res, ⟨?_, ?_, ?_, ?_, ?_, ?_⟩, ?_, ?_⟩
  · rw [hashes, mapTx]
    exact consistent.distinct.sublist (filter_sublist.map _)
  · intro o h
    simp only [next, consistent.spent, mapTx, mem_filter, decide_eq_true_eq]
    constructor
    · rintro ⟨⟨entry, there, rfl, uses⟩, kept⟩
      exact ⟨_, ⟨there, fun staged => kept _ there staged uses⟩, rfl, uses⟩
    · rintro ⟨entry, ⟨there, kept⟩, rfl, uses⟩
      refine ⟨⟨_, there, rfl, uses⟩, fun other ins staged spends => kept ?_⟩
      have first := (consistent.spent o _).2 ⟨_, there, rfl, uses⟩
      have snd := (consistent.spent o _).2 ⟨_, ins, rfl, spends⟩
      rwa [Option.some.inj (first.symm.trans snd)]
  · exact fun a b => (parents a b).trans (kids a b).symm
  · intro a b link
    obtain ⟨link, above, below⟩ := (kids a b).1 link
    exact ⟨pooled.2 ⟨(consistent.inside _ _ link).1, above⟩, pooled.2 ⟨(consistent.inside _ _ link).2, below⟩⟩
  · rw [total, consistent.total, mapTx, sub_eq_iff_eq_add, ← sum_append, ← map_append]
    refine (List.Perm.map _ ?_).sum_eq
    simpa using (filter_append_perm (fun entry : CTxMemPoolEntry => entry.hash ∉ stage) _).symm
  · intro h ins
    obtain ⟨ins, kept⟩ := pooled.1 ins
    refine .inr ?_
    rw [state h ins, below, weigh, weigh, mapTx, weigh_filter (q := fun y => y ∉ stage)]
    refine weigh_congr fun entry there => ?_
    by_cases staged : entry.hash ∈ stage
    · have other : entry.hash ≠ h := fun back => kept (back ▸ staged)
      simp [staged, other]
    · simp [staged, reach_of_removed kids whole kept _]
  · intro a b
    rw [kids, consistent.exact]
    simp only [Child, pooled, mapTx, mem_filter, decide_eq_true_eq]
    constructor
    · rintro ⟨⟨above, entry, there, rfl, spends⟩, staying, kept⟩
      exact ⟨⟨above, staying⟩, _, ⟨there, kept⟩, rfl, spends⟩
    · rintro ⟨⟨above, staying⟩, entry, ⟨there, kept⟩, rfl, spends⟩
      exact ⟨⟨above, _, there, rfl, spends⟩, staying, kept⟩
  · obtain ⟨rank, lt⟩ := consistent.acyclic
    exact ⟨_, fun a b link => lt a b ((kids a b).1 link).1⟩

lemma mem_descendants (pooled : starts ⊆ pool.hashes) :
    h ∈ starts.foldl pool.calculateDescendants [] ↔ ∃ s ∈ starts, Reach pool.children s h := by
  suffices all : ∀ set, (∀ v ∈ set, ∀ z ∈ pool.children v, z ∈ set) →
      (h ∈ starts.foldl pool.calculateDescendants set ↔ h ∈ set ∨ ∃ s ∈ starts, Reach _ s h) by
    simpa using all [] (by simp)
  induction starts with
  | nil => simp
  | cons s starts ih =>
    intro set closed
    have mem : ∀ {y}, y ∈ pool.calculateDescendants set s ↔ y ∈ set ∨ Reach pool.children s y := by
      intro y
      unfold calculateDescendants
      split <;> rename_i old
      · -- what is in the set already is closed under the child links
        refine ⟨.inl, fun found => found.elim id fun reach => ?_⟩
        have expanded : ∀ v ∈ set, ∀ z ∈ pool.children v, z ∈ set ∨ z ∈ [] := fun v ins z step => .inl (closed v ins z step)
        simpa using reach_of_expanded expanded old reach
      · rw [mem_closure _ _ (by simpa [hashes] using length_filter_le _ pool.hashes) (by simpa using pooled mem_cons_self)
          (fun v _ z step => (consistent.inside v z step).2) (by simpa using old) (fun v ins z step => .inl (closed v ins z step))]
        simp
    rw [foldl_cons, ih (subset_of_cons_subset pooled)]
    · simp [mem, or_assoc]
    · grind

lemma removeDescendants (pooled : starts ⊆ pool.hashes) :
    ∃ left, pool.removeStaged (starts.foldl pool.calculateDescendants []) = .ok left ∧ left.Consistent := by
  refine consistent.removeStaged (.inl fun s t ins link => ?_)
  obtain ⟨start, there, reach⟩ := (consistent.mem_descendants pooled).1 ins
  exact (consistent.mem_descendants pooled).2 ⟨_, there, reach.tail link⟩
end

protected lemma empty : empty.Consistent :=
  ⟨⟨nodup_nil, by simp [empty], by simp [empty], by simp [empty], rfl, by simp [empty, hashes]⟩,
    by simp [empty, Child, hashes], fun _ => 0, by simp [empty]⟩

lemma addUnchecked {entry} (consistent : pool.Consistent) (fresh : entry.hash ∉ pool.hashes)
    (unspent : ∀ o ∈ entry.outpoints, pool.mapNextTx o = none) (loopless : entry.hash ∉ entry.spentHashes)
    (childless : ∀ other ∈ pool.mapTx, entry.hash ∉ other.spentHashes) :
    ∃ added, pool.addUnchecked entry = .ok added ∧ added.Consistent ∧ added.mapTx = entry :: pool.mapTx := by
  obtain ⟨added, res, linked, mapTx, kids⟩ := consistent.toLinked.addUnchecked fresh unspent loopless
  have other : ∀ {h}, h ∈ pool.hashes → h ≠ entry.hash := fun pooled same => fresh (same ▸ pooled)
  refine ⟨_, res, ⟨linked, fun a b => ?_, ?_⟩, mapTx⟩
  · rw [kids, consistent.exact]
    simp only [Child, hashes, mapTx, map_cons, mem_cons, exists_eq_or_imp]
    constructor
    · grind
    · grind
  · obtain ⟨rank, lt⟩ := consistent.acyclic
    refine ⟨fun h => if h = entry.hash then (pool.hashes.map rank).sum + 1 else rank h, fun a b link => ?_⟩
    rcases (kids a b).1 link with link | ⟨rfl, -, above⟩
    · simpa [other (consistent.inside _ _ link).1, other (consistent.inside _ _ link).2] using lt a b link
    · have le := single_le_sum (fun _ _ => Nat.zero_le _) _ (mem_map_of_mem (f := rank) above)
      simpa [other above] using Nat.lt_succ_of_le le

end Consistent

inductive Call where
  | addUnchecked (entry : CTxMemPoolEntry)
  | remove (origTx : HashedTx) (fRecursive : Bool)
  | removeForBlock (vtx : List HashedTx)
  | removeConflicts (tx : HashedTx)
  | expire (time : Int)
  | trimToSize (worst : CTxMemPool → Option UInt256)

def call (pool : CTxMemPool) : Call → Except Failure CTxMemPool
  | .addUnchecked entry => pool.addUnchecked entry
  | .remove origTx fRecursive => pool.remove origTx fRecursive
  | .removeForBlock vtx => pool.removeForBlock vtx
  | .removeConflicts tx => pool.removeConflicts tx
  | .expire time => pool.expire time
  | .trimToSize worst => trimToSize worst pool.mapTx.length pool

def parentless (pool : CTxMemPool) (hash : UInt256) : Bool :=
  pool.mapTx.all fun entry => entry.hash ≠ hash || entry.spentHashes.all (· ∉ pool.hashes)

def childless (pool : CTxMemPool) (hash : UInt256) : Bool := pool.mapTx.all (hash ∉ ·.spentHashes)

/-- Nothing in the pool is joined through the transaction. -/
def atEnd (pool : CTxMemPool) (hash : UInt256) : Bool := pool.parentless hash || pool.childless hash

def blockFits : CTxMemPool → List HashedTx → Bool
  | _, [] => true
  | pool, tx :: vtx => pool.atEnd tx.hash && ((pool.removeBlockTx tx).toOption.all fun next => next.blockFits vtx)

/-- What is added is new, spends nothing twice and has no child in the pool; what is removed alone has no parent or no child. -/
def fits (pool : CTxMemPool) : Call → Bool
  | .addUnchecked entry => entry.hash ∉ pool.hashes && (entry.outpoints.all fun o => (pool.mapNextTx o).isNone) &&
      entry.hash ∉ entry.spentHashes && pool.childless entry.hash
  | .remove origTx false => pool.atEnd origTx.hash
  | .removeForBlock vtx => pool.blockFits vtx
  | _ => true

def fitsRun : CTxMemPool → List Call → Bool
  | _, [] => true
  | pool, c :: calls => pool.fits c && ((pool.call c).toOption.all fun next => next.fitsRun calls)

namespace Consistent

lemma remove (consistent : pool.Consistent) {origTx fRecursive}
    (alone : fRecursive = false → pool.atEnd origTx.hash = true) :
    ∃ left, pool.remove origTx fRecursive = .ok left ∧ left.Consistent := by
  unfold CTxMemPool.remove
  generalize found : (if origTx.hash ∈ pool.hashes then [origTx.hash] else if fRecursive = true then
    (List.range _).filterMap fun i => pool.mapNextTx _ else []) = txToRemove
  have pooled : txToRemove ⊆ pool.hashes := by
    subst found
    split
    · simpa
    · split
      · intro h ins
        obtain ⟨i, -, spender⟩ := mem_filterMap.1 ins
        obtain ⟨entry, there, rfl, -⟩ := (consistent.spent _ _).1 spender
        exact mem_map_of_mem there
      · simp
  have passes := all_eq_true.2 fun h ins => decide_eq_true (pooled ins)
  dsimp only
  rw [passes]
  cases fRecursive with
  | true => exact consistent.removeDescendants pooled
  | false =>
    have same : ∀ s ∈ txToRemove, s = origTx.hash := by grind
    rcases Bool.or_eq_true_iff.1 (alone rfl) with orphan | barren
    · refine consistent.removeStaged (.inr fun s t ins link => ?_)
      obtain ⟨above, entry, there, rfl, spends⟩ := (consistent.exact t s).1 link
      have free := all_eq_true.1 orphan _ there
      simp only [same _ ins, ne_eq, not_true_eq_false, decide_false, Bool.false_or, all_eq_true, decide_eq_true_eq] at free
      exact absurd above (free t spends)
    · refine consistent.removeStaged (.inl fun s t ins link => ?_)
      obtain ⟨-, entry, there, rfl, spends⟩ := (consistent.exact s t).1 link
      rw [same s ins] at spends
      exact absurd spends (of_decide_eq_true (all_eq_true.1 barren _ there))

lemma foldlM {α : Type} {step : CTxMemPool → α → Except Failure CTxMemPool} (items : List α)
    (each : ∀ pool item, pool.Consistent → ∃ next, step pool item = .ok next ∧ next.Consistent) (consistent : pool.Consistent) :
    ∃ last, items.foldlM step pool = .ok last ∧ last.Consistent := by
  induction items generalizing pool with
  | nil => exact ⟨_, rfl, consistent⟩
  | cons item items ih =>
    obtain ⟨next, first, consistent⟩ := each _ _ consistent
    rw [foldlM_cons, first]
    exact ih consistent

variable (consistent : pool.Consistent)
include consistent

lemma removeConflicts (tx : HashedTx) : ∃ left, pool.removeConflicts tx = .ok left ∧ left.Consistent := by
  refine foldlM _ (fun pool prevout consistent => ?_) consistent
  split
  · exact ⟨_, rfl, consistent⟩
  · split
    · exact ⟨_, rfl, consistent⟩
    · exact consistent.remove (by simp)

lemma removeForBlock (vtx) (fits : pool.blockFits vtx = true) :
    ∃ left, pool.removeForBlock vtx = .ok left ∧ left.Consistent := by
  induction vtx generalizing pool with
  | nil => exact ⟨_, rfl, consistent⟩
  | cons tx vtx ih =>
    rw [blockFits, Bool.and_eq_true] at fits
    obtain ⟨middle, first, between⟩ : ∃ left, pool.remove tx _ = .ok left ∧ left.Consistent := consistent.remove fun _ => fits.1
    obtain ⟨next, snd, after⟩ := between.removeConflicts tx
    have both : pool.removeBlockTx tx = .ok next := by
      rw [removeBlockTx, first]
      exact snd
    rw [both] at fits
    obtain ⟨last, rest, done⟩ := ih after fits.2
    refine ⟨_, ?_, done⟩
    rw [removeForBlock, foldlM_cons, both]
    exact rest

lemma trimToSize (worst) (turns : Nat) :
    ∃ left, trimToSize worst turns pool = .ok left ∧ left.Consistent := by
  induction turns generalizing pool with
  | zero => exact ⟨_, rfl, consistent⟩
  | succ turns ih =>
    rw [trimToSize]
    split <;> rename_i found
    · exact ⟨_, rfl, consistent⟩
    · rename_i it
      have pooled : [it] ⊆ pool.hashes := by simpa using (Option.filter_eq_some_iff.1 found).2
      obtain ⟨left, gone, consistent⟩ := consistent.removeDescendants pooled
      rw [foldl_cons, foldl_nil] at gone
      rw [gone]
      exact ih consistent

lemma call {c} (fits : pool.fits c = true) : ∃ next, pool.call c = .ok next ∧ next.Consistent := by
  cases c with
  | addUnchecked entry =>
    simp only [CTxMemPool.fits, childless, Bool.and_eq_true, decide_eq_true_eq, all_eq_true, Option.isNone_iff_eq_none] at fits
    obtain ⟨added, res, after, -⟩ := consistent.addUnchecked fits.1.1.1 fits.1.1.2 fits.1.2 fits.2
    exact ⟨_, res, after⟩
  | remove origTx fRecursive => exact consistent.remove fun alone => by subst alone; exact fits
  | removeForBlock vtx => exact consistent.removeForBlock _ fits
  | removeConflicts tx => exact consistent.removeConflicts tx
  | expire time => exact consistent.removeDescendants (filter_sublist.map _).subset
  | trimToSize worst => exact consistent.trimToSize _ _

end Consistent

/-- Along every run of calls that fit, the pool is consistent and no assertion fails. -/
theorem consistent_of_run (calls : List Call) (fits : empty.fitsRun calls = true) :
    ∃ pool, calls.foldlM call empty = .ok pool ∧ pool.Consistent := by
  suffices run : ∀ pool : CTxMemPool, pool.Consistent → pool.fitsRun _ = true → ∃ last, calls.foldlM call pool = .ok last ∧
    last.Consistent from
    run _ .empty fits
  clear fits
  induction calls with
  | nil => exact fun pool consistent _ => ⟨_, rfl, consistent⟩
  | cons c calls ih =>
    intro pool consistent fits
    rw [fitsRun, Bool.and_eq_true] at fits
    obtain ⟨next, first, consistent⟩ := consistent.call fits.1
    rw [foldlM_cons, first]
    rw [first] at fits
    exact ih _ consistent fits.2

def chainEntry (hash prev : UInt256) : CTxMemPoolEntry where
  tx := ⟨1, [⟨⟨prev, 0⟩, [], 0⟩], [⟨1, []⟩], 0⟩
  hash := hash
  nFee := 1
  nTxSize := 100
  nTime := 0
  fee_nonneg := by decide
  size_pos := by decide

def chainCalls (last : Call) : List Call :=
  [.addUnchecked (chainEntry 1 7), .addUnchecked (chainEntry 2 1), .addUnchecked (chainEntry 3 2), last]

theorem consistent_of_mined_first : ∃ pool, (chainCalls (.removeForBlock [(chainEntry 1 7).toHashedTx])).foldlM call empty = .ok pool ∧
    pool.Consistent := consistent_of_run _ (by decide +kernel)

/-- The first still counts the third, which it no longer reaches. -/
theorem middle_removal_miscounts : ∃ pool, (chainCalls (.remove (chainEntry 2 1).toHashedTx false)).foldlM call empty = .ok pool ∧
    ¬ pool.Consistent := by
  obtain ⟨pool, run, pooled, childless, count⟩ : ∃ pool,
      (chainCalls (.remove (chainEntry 2 1).toHashedTx false)).foldlM call empty = .ok pool ∧
      1 ∈ pool.hashes ∧ pool.children 1 = [] ∧ (pool.withDescendants 1).1 = 2 := Except.exists_ok_of_decide (by decide +kernel)
  refine ⟨pool, run, fun consistent => ?_⟩
  obtain ⟨entry, there, first⟩ := mem_map.1 pooled
  have alone : pool.below 1 = entry.weight := by
    rw [below, ← weigh_eq_of_mem (w := weight) consistent.distinct there]
    refine weigh_congr fun y _ => ⟨fun reach => ?_, fun same => by rw [same, first]⟩
    rcases reach.cases_head with same | ⟨z, step, -⟩
    · exact same.symm.trans first.symm
    · rw [childless] at step
      exact absurd step not_mem_nil
  rw [consistent.withDescendants_eq pooled, alone] at count
  exact absurd count (by simp [weight])

end Peony.CTxMemPool
