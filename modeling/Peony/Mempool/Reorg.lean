import Mathlib.Data.List.Nodup
import Peony.Mempool.Consistency

namespace Peony.CTxMemPool
open Reachability Relation DescendantState List
variable (pool : CTxMemPool) (limit : Nat) (cached : UInt256 → Option (List UInt256)) (setExclude : List UInt256)
/-- `stageEntries`, `setAllDescendants` and `nChildrenToVisit`. -/
structure Visit where
  (stage all : List UInt256)
  toVisit : Nat

def visitNext (v : Visit) (child : UInt256) : Visit :=
  match cached child with
  | some entries => entries.foldl (fun v entry =>
      ⟨v.stage, v.all.insert entry, v.toVisit + if entry ∉ v.all ∧ entry ∉ setExclude ∧ entry ∉ v.stage then 1 else 0⟩) v
  | none =>
    if child ∈ v.all then v
    else ⟨v.stage.insert child, v.all, v.toVisit + if child ∉ v.stage ∧ child ∉ setExclude then 1 else 0⟩

/-- `none` stands for the early `return false`. -/
def visitChild (v : Visit) (child : UInt256) : Option Visit :=
  let next := visitNext cached setExclude v child
  if limit < next.toVisit then none else some next

def visitAll : Nat → Visit → Option (List UInt256)
  | 0, v => some v.all
  | turns + 1, v =>
    match v.stage.argmin BitVec.toNat with
    | none => some v.all
    | some cit =>
      if (pool.withDescendants cit).isDirty then none
      else ((pool.children cit).foldlM (visitChild limit cached setExclude) ⟨v.stage.filter (· ≠ cit), v.all.insert cit, v.toVisit⟩).bind
        (visitAll turns)

variable {pool limit cached setExclude} {v w : Visit} {y z : UInt256}
lemma mem_visitNext {child} :
    (∀ y, y ∈ (visitNext cached setExclude v child).all ↔ y ∈ v.all ∨ ∃ entries, cached child = some entries ∧ y ∈ entries) ∧
      ∀ y, y ∈ (visitNext cached setExclude v child).stage ↔ y ∈ v.stage ∨ y = child ∧ cached child = none ∧ child ∉ v.all := by
  unfold visitNext
  cases old : cached _ with
  | none => grind
  | some entries =>
    clear old
    induction entries generalizing v with
    | nil => simp
    | cons entry entries ih => grind

lemma mem_visitChildren {kids : List UInt256} (visited : kids.foldlM (visitChild limit cached setExclude) v = some w) :
    (∀ y, y ∈ w.all ↔ y ∈ v.all ∨ ∃ z ∈ kids, ∃ entries, cached z = some entries ∧ y ∈ entries) ∧
      v.stage ⊆ w.stage ∧ (∀ y ∈ w.stage, y ∈ v.stage ∨ y ∈ kids ∧ y ∉ v.all) ∧
      ∀ z ∈ kids, cached z = none → z ∈ w.all ∨ z ∈ w.stage := by
  induction kids generalizing v with
  | nil => cases Option.some.inj visited; simp
  | cons child kids ih =>
    obtain ⟨middle, first, rest⟩ := Option.bind_eq_some_iff.1 visited
    obtain rfl := Option.some.inj (Option.ite_none_left_eq_some.1 first).2
    obtain ⟨all, stage⟩ := mem_visitNext (v := v)
    obtain ⟨all', grows, staged, covered⟩ := ih rest
    refine ⟨fun y => ?_, fun y ins => grows ((stage y).2 (.inl ins)), fun y ins => ?_, fun z ins fresh => ?_⟩
    · rw [all', all]
      simp [or_assoc]
    · rcases staged y ins with old | ⟨child, fresh⟩
      · rcases (stage y).1 old with old | ⟨rfl, -, fresh⟩
        · exact .inl old
        · exact .inr ⟨mem_cons_self, fresh⟩
      · exact .inr ⟨mem_cons_of_mem _ child, fun old => fresh ((all y).2 (.inl old))⟩
    · rcases mem_cons.1 ins with rfl | ins
      · by_cases old : z ∈ v.all
        · exact .inl ((all' z).2 (.inl ((all z).2 (.inl old))))
        · exact .inr (grows ((stage z).2 (.inr ⟨rfl, fresh, old⟩)))
      · exact covered z ins fresh

/-- `start` is what the visit began with; the cache holds for some of `setExclude` all that they reach outside of it. -/
structure Visiting (pool : CTxMemPool) (cached : UInt256 → Option (List UInt256)) (start : List UInt256) (v : Visit) : Prop where
  begun : ∀ s ∈ start, s ∈ v.all ∨ s ∈ v.stage
  reached : ∀ y, y ∈ v.all ∨ y ∈ v.stage → ∃ s ∈ start, Reach pool.children s y
  expanded : ∀ a ∈ v.all, ∀ z ∈ pool.children a, z ∈ v.all ∨ z ∈ v.stage ∨ ∃ entries, cached z = some entries ∧ entries ⊆ v.all

/-- Unless broken off, all that `start` reaches outside of `setExclude`. -/
lemma mem_visitAll {start all} {turns : Nat} (ins : ∀ a, pool.children a ⊆ pool.hashes)
    (apart : ∀ a ∉ setExclude, ∀ z ∈ pool.children a, z ∉ setExclude)
    (right : ∀ c entries, cached c = some entries → c ∈ setExclude ∧ ∀ y, y ∈ entries ↔ y ∉ setExclude ∧ Reach pool.children c y)
    (pooled : v.stage ⊆ pool.hashes) (enough : (pool.hashes.filter fun x => x ∈ v.stage ∨ x ∉ v.all).length ≤ turns)
    (visiting : Visiting pool cached start v) (visited : visitAll pool limit cached setExclude turns v = some all)
      (outside : y ∉ setExclude) :
    y ∈ all ↔ ∃ s ∈ start, Reach pool.children s y := by
  have ended : ∀ {v : Visit}, v.stage = [] → Visiting pool cached start v → (y ∈ v.all ↔ ∃ s ∈ start, Reach pool.children s y) := by
    intro v empty visiting
    refine ⟨fun found => visiting.reached y (.inl found), fun ⟨s, begins, reach⟩ => ?_⟩
    have first : s ∈ v.all := (visiting.begun s begins).resolve_right (by simp [empty])
    clear begins
    induction reach using ReflTransGen.head_induction_on with
    | refl => exact first
    | head step rest ih =>
      rcases visiting.expanded _ first _ step with found | staged | ⟨entries, known, cnt⟩
      · exact ih found
      · simp [empty] at staged
      · exact cnt (((right _ _ known).2 y).2 ⟨outside, rest⟩)
  induction turns generalizing v with
  | zero =>
    obtain rfl := Option.some.inj visited
    refine ended (eq_nil_iff_forall_not_mem.2 fun s staged => ?_) visiting
    exact filter_eq_nil_iff.1 (length_eq_zero_iff.1 (Nat.le_zero.1 enough)) s (pooled staged) (by simp [staged])
  | succ turns ih =>
    rw [visitAll] at visited
    cases least : v.stage.argmin BitVec.toNat with
    | none =>
      simp only [least] at visited
      obtain rfl := Option.some.inj visited
      exact ended (argmin_eq_none.1 least) visiting
    | some cit =>
      simp only [least] at visited
      obtain ⟨w, kids, rest⟩ := Option.bind_eq_some_iff.1 (Option.ite_none_left_eq_some.1 visited).2
      obtain ⟨all', grows, staged, covered⟩ := mem_visitChildren kids
      have cit_staged : cit ∈ v.stage := argmin_mem (f := BitVec.toNat) (by simp [least])
      have kept : ∀ {s}, s ∈ v.all → s ∈ w.all := fun old => (all' _).2 (.inl (mem_insert_of_mem old))
      have cit_all : cit ∈ w.all := (all' _).2 (.inl mem_insert_self)
      have moved : ∀ {s}, s ∈ v.stage → s ∈ w.all ∨ s ∈ w.stage := by
        intro s old
        by_cases same : s = cit
        · exact .inl (same ▸ cit_all)
        · exact .inr (grows (by simp [old, same]))
      have left : ∀ x ∈ w.stage, x ≠ cit ∧ (x ∈ v.stage ∨ x ∈ pool.children cit ∧ x ∉ v.all) := by
        intro x ins
        rcases staged x ins with old | ⟨child, fresh⟩
        · simp only [mem_filter, decide_eq_true_eq] at old
          exact ⟨old.2, .inl old.1⟩
        · simp only [mem_insert_iff, not_or] at fresh
          exact ⟨fresh.1, .inr ⟨child, fresh.2⟩⟩
      refine ih (fun x inside_w => ?_) ?_ ⟨fun s begins => ?_, fun x found => ?_, fun a found z step => ?_⟩ rest
      · exact ((left x inside_w).2).elim (fun old => pooled old) fun new => ins _ new.1
      · have fewer : (pool.hashes.filter fun x => x ∈ w.stage ∨ x ∉ w.all).length <
            (pool.hashes.filter fun x => x ∈ v.stage ∨ x ∉ v.all).length := by
          refine length_filter_lt (fun x _ => ?_) (pooled cit_staged)
            (by simp [cit_staged]) (by simpa [cit_all] using fun again => (left _ again).1 rfl)
          simp only [decide_eq_true_eq]
          exact fun found => found.elim (fun again => (left x again).2.imp id And.right) fun fresh => .inr fun old => fresh (kept old)
        omega
      · exact (visiting.begun s begins).elim (fun old => .inl (kept old)) moved
      · obtain ⟨s, begins, reach⟩ := visiting.reached _ (.inr cit_staged)
        rcases found with found | found
        · rcases (all' x).1 found with old | ⟨z, child, entries, known, mem⟩
          · rcases mem_insert_iff.1 old with rfl | old
            · exact ⟨s, begins, reach⟩
            · exact visiting.reached x (.inl old)
          · exact ⟨s, begins, (reach.tail child).trans (((right z _ known).2 x).1 mem).2⟩
        · rcases (left x found).2 with old | ⟨child, -⟩
          · exact visiting.reached x (.inr old)
          · exact ⟨s, begins, reach.tail child⟩
      · rcases (all' a).1 found with old | ⟨c, child, entries, known, mem⟩
        · rcases mem_insert_iff.1 old with rfl | old
          · cases known : cached z with
            | none => exact (covered z step known).imp id .inl
            | some entries => exact .inr (.inr ⟨_, rfl, fun x mem => (all' x).2 (.inr ⟨z, step, _, known, mem⟩)⟩)
          · rcases visiting.expanded a old z step with seen | seen | ⟨entries, known, cnt⟩
            · exact .inl (kept seen)
            · exact (moved seen).imp id .inl
            · exact .inr (.inr ⟨_, known, fun x mem => kept (cnt mem)⟩)
        · -- a cached set is closed under the child links
          obtain ⟨out, reach⟩ := ((right c _ known).2 a).1 mem
          have next := ((right c _ known).2 z).2 ⟨apart a out z step, reach.tail step⟩
          exact .inl ((all' z).2 (.inr ⟨c, child, _, known, next⟩))

variable (pool : CTxMemPool)
def linkChildren (setAlreadyIncluded : List UInt256) (hash : UInt256) : CTxMemPool :=
  let spenders := pool.mapTx.filter fun entry => entry.outpoints.any fun o => o.hash = hash ∧ pool.mapNextTx o = some entry.hash
  let found := (spenders.map fun entry => entry.hash).filter (· ∉ setAlreadyIncluded)
  { pool with
    children := fun a => if a = hash then pool.children a ∪ found else pool.children a
    parents := fun b => if b ∈ found then (pool.parents b).insert hash else pool.parents b }

def setDirty (hash : UInt256) : CTxMemPool :=
  { pool with withDescendants := fun h =>
      if h = hash then ((pool.mapTx.find? fun entry => entry.hash = h).map fun entry => (0, entry.nTxSize, entry.nFee)).getD 0
      else pool.withDescendants h }

def updateFromBlock (included : List UInt256) (state : CTxMemPool × (UInt256 → Option (List UInt256))) (hash : UInt256) :
    Except Failure (CTxMemPool × (UInt256 → Option (List UInt256))) :=
  if hash ∉ state.1.hashes then .ok state
  else
    let pool := state.1.linkChildren included hash
    match visitAll pool 100 state.2 included pool.mapTx.length ⟨pool.children hash, [], 0⟩ with
    | none => .ok (pool.setDirty hash, state.2)
    | some all => do
      let counted := all.filter (· ∉ included)
      let updated ← updateState ((pool.mapTx.filter fun entry => entry.hash ∈ counted).map CTxMemPoolEntry.weight).sum
        (pool.withDescendants hash)
      return ({ pool with withDescendants := fun h => if h = hash then updated else pool.withDescendants h },
        fun h => if h = hash ∧ counted ≠ [] then some counted else state.2 h)

def updateTransactionsFromBlock (vHashesToUpdate : List UInt256) : Except Failure CTxMemPool := do
  return (← vHashesToUpdate.reverse.foldlM (updateFromBlock vHashesToUpdate) (pool, fun _ => none)).1

/-- After the turns of `done`: `added` is the pool before, `included` the re-added transactions. -/
structure Updating (added : CTxMemPool) (included done : List UInt256) (now : CTxMemPool)
    (cached : UInt256 → Option (List UInt256)) : Prop where
  mapTx : now.mapTx = added.mapTx
  mapNextTx : now.mapNextTx = added.mapNextTx
  total : now.totalTxSize = added.totalTxSize
  inverse : ∀ a b, a ∈ now.parents b ↔ b ∈ now.children a
  children : ∀ a b, b ∈ now.children a ↔ added.Child a b ∧ (a ∈ included → b ∉ included → a ∈ done)
  sums : ∀ h ∈ added.hashes, (now.withDescendants h).isDirty ∨
    now.withDescendants h = added.weigh fun y => ReflTransGen added.Child h y ∧ (h ∈ included → h ∉ done → y ∈ included)
  cache : ∀ c entries, cached c = some entries → c ∈ included ∧ c ∈ done ∧ ∀ y, y ∈ entries ↔ y ∉ included ∧
    ReflTransGen added.Child c y

section
variable {added now : CTxMemPool} {included done : List UInt256} {cached : UInt256 → Option (List UInt256)} {u : UInt256}
variable (updating : Updating added included done now cached) (linked : added.Linked True)
include updating linked

lemma Updating.linkChildren (pooled : u ∈ added.hashes) :
    (∀ a b, b ∈ (now.linkChildren included u).children a ↔ added.Child a b ∧ (a ∈ included → b ∉ included → a ∈ u :: done)) ∧
    ∀ a b, a ∈ (now.linkChildren included u).parents b ↔ b ∈ (now.linkChildren included u).children a := by
  have mem : ∀ c, c ∈ (((now.mapTx.filter fun entry => entry.outpoints.any fun o => o.hash = u ∧ now.mapNextTx o = some entry.hash).map
      fun entry => entry.hash).filter (· ∉ included)) ↔ added.Child u c ∧ c ∉ included := by
    intro c
    rw [updating.mapTx, updating.mapNextTx]
    simp only [Child, pooled, true_and, mem_filter, mem_map, any_eq_true, decide_eq_true_eq, HashedTx.spentHashes]
    refine and_congr_left fun _ => exists_congr fun entry => ?_
    constructor
    · rintro ⟨⟨there, o, uses, same, -⟩, rfl⟩
      exact ⟨there, rfl, o, uses, same⟩
    · rintro ⟨there, rfl, o, uses, same⟩
      exact ⟨⟨there, o, uses, same, (linked.spent o _).2 ⟨_, there, rfl, uses⟩⟩, rfl⟩
  unfold CTxMemPool.linkChildren
  dsimp only
  generalize ((now.mapTx.filter fun entry => entry.outpoints.any fun o => o.hash = u ∧ now.mapNextTx o = some entry.hash).map
      fun entry => entry.hash).filter _ = found at mem
  refine ⟨fun a b => ?_, fun a b => ?_⟩
  · by_cases same : a = u
    · subst same
      simp only [if_true, mem_union_iff, updating.children, mem, mem_cons_self]
      tauto
    · simp [same, updating.children]
  · by_cases new : b ∈ found <;> by_cases same : a = u <;> simp [new, same, updating.inverse]

variable (apart : ∀ a b, a ∉ included → added.Child a b → b ∉ included)
include apart

lemma Updating.turn (closed : ∀ a b, a ∈ u :: done → added.Child a b → b ∈ included → b ∈ done)
    (pooled : u ∈ added.hashes) (block : u ∈ included) (fresh : u ∉ done) :
    ∃ next cached', updateFromBlock included (now, cached) u = .ok (next, cached') ∧
      Updating added included (u :: done) next cached' := by
  obtain ⟨kids, inverse⟩ := updating.linkChildren linked pooled
  have mapTx : (now.linkChildren included u).mapTx = added.mapTx := updating.mapTx
  have state : (now.linkChildren included u).withDescendants = now.withDescendants := rfl
  -- from here on the transactions that are not of the block or have had their turn have all their links
  have reach : ∀ a, (a ∈ included → a ∈ u :: done) → ∀ b, Reach (now.linkChildren included u).children a b ↔
      ReflTransGen added.Child a b := by
    refine fun a start b => reach_of_closed (p := fun a => a ∈ included → a ∈ u :: done) (fun a b known link ins => ?_)
      (fun a b known => ?_) start
    · by_cases listed : a ∈ included
      · exact mem_cons_of_mem _ (closed a b (known listed) link ins)
      · exact absurd ins (apart a b listed link)
    · rw [kids]
      exact and_iff_left fun listed _ => known listed
  have unlisted : ∀ b, (∃ s ∈ (now.linkChildren included u).children u, Reach (now.linkChildren included u).children s b) ∧
    b ∉ included ↔
      ReflTransGen added.Child u b ∧ b ∉ included := by
    refine fun b => and_congr_left fun out => ?_
    rw [← reach u (fun _ => mem_cons_self)]
    constructor
    · exact fun ⟨s, step, rest⟩ => .head step rest
    · intro path
      rcases path.cases_head with same | ⟨s, step, rest⟩
      · exact absurd (same ▸ block) out
      · exact ⟨s, step, rest⟩
  have link_pooled : ∀ a, (now.linkChildren included u).children a ⊆ (now.linkChildren included u).hashes := by
    intro a b link
    obtain ⟨-, entry, there, rfl, -⟩ := ((kids a b).1 link).1
    rw [hashes, mapTx]
    exact mem_map_of_mem there
  have here : u ∈ now.hashes := by
    rw [hashes, updating.mapTx]
    exact pooled
  have others : ∀ {h y}, h ≠ u → ((h ∈ included → h ∉ done → y ∈ included) ↔ (h ∈ included → h ∉ u :: done → y ∈ included)) := by
    intro h y other
    simp [other]
  rw [updateFromBlock, if_neg (not_not.2 here)]
  cases visited : visitAll (now.linkChildren included u) 100 cached included (now.linkChildren included u).mapTx.length
      ⟨(now.linkChildren included u).children u, [], 0⟩ with
  | none =>
    simp only [visited]
    refine ⟨_, _, rfl, updating.mapTx, updating.mapNextTx, updating.total, inverse, kids, fun h ins => ?_, fun c entries known => ?_⟩
    · by_cases same : h = u
      · left
        simp only [setDirty, same, if_true]
        cases (now.linkChildren _ u).mapTx.find? fun entry => entry.hash = u <;> rfl
      · simpa only [setDirty, same, if_false, state, others same] using updating.sums h ins
    · obtain ⟨listed, turned, right⟩ := updating.cache c _ known
      exact ⟨listed, mem_cons_of_mem _ turned, right⟩
  | some all =>
    have cnt : ∀ y, y ∈ all.filter (· ∉ included) ↔ ReflTransGen added.Child u y ∧ y ∉ included := by
      intro y
      rw [← unlisted, mem_filter, decide_eq_true_eq]
      refine and_congr_left fun out => mem_visitAll (fun a b link => ?_) (fun a out z link => apart a z out ((kids a z).1 link).1)
        (fun c entries known => ?_) (fun b link => ?_) ?_ ⟨fun s begins => .inr begins, fun y found => ?_, by simp⟩ visited out
      · exact link_pooled a link
      · obtain ⟨listed, turned, right⟩ := updating.cache c _ known
        exact ⟨listed, fun y => (right y).trans (and_congr_right fun _ => (reach c (fun _ => mem_cons_of_mem _ turned) y).symm)⟩
      · exact link_pooled u link
      · simp [hashes]
      · exact ⟨y, by simpa using found, .refl⟩
    have modify : (((now.linkChildren included u).mapTx.filter fun entry =>
        entry.hash ∈ all.filter (· ∉ included)).map CTxMemPoolEntry.weight).sum =
        added.weigh fun y => ReflTransGen added.Child u y ∧ ¬ y ∈ included := by
      rw [mapTx, sum_filter_eq_weigh]
      exact weigh_congr fun entry _ => cnt _
    have whole : (added.weigh fun y => ReflTransGen added.Child u y ∧ (u ∈ included → u ∉ done → y ∈ included)) +
        (added.weigh fun y => ReflTransGen added.Child u y ∧ ¬ y ∈ included) = added.weigh (ReflTransGen added.Child u) := by
      simp only [block, fresh, not_false_eq_true, forall_const]
      exact weigh_split.symm
    have passes : (now.withDescendants u).isDirty ∨
        (now.withDescendants u + added.weigh fun y => ReflTransGen added.Child u y ∧ ¬ y ∈ included).Positive := by
      refine (updating.sums u pooled).imp id fun right => ?_
      rw [right, whole]
      exact positive_weigh linked.distinct pooled .refl
    simp only [visited]
    rw [modify, state, updateState_ok passes]
    refine ⟨_, _, rfl, updating.mapTx, updating.mapNextTx, updating.total, inverse, kids, fun h ins => ?_, fun c entries known => ?_⟩
    · by_cases same : h = u
      · subst same
        simp only [if_true, mem_cons_self, not_true_eq_false, false_implies, implies_true, and_true]
        split
        · exact .inl ‹_›
        · exact .inr ((congrArg (· + _) ((updating.sums h pooled).resolve_left ‹_›)).trans whole)
      · simpa only [same, if_false, others same] using updating.sums h ins
    · split at known <;> rename_i new
      · cases Option.some.inj known
        exact ⟨new.1 ▸ block, new.1 ▸ mem_cons_self, fun y => (cnt y).trans (by rw [new.1, and_comm])⟩
      · obtain ⟨listed, turned, right⟩ := updating.cache c _ known
        exact ⟨listed, mem_cons_of_mem _ turned, right⟩

lemma Updating.run (closed : ∀ a b, a ∈ done → added.Child a b → b ∈ included → b ∈ done)
    (todo) (turns : ∀ pre u after, todo = pre ++ u :: after → u ∈ added.hashes ∧ u ∈ included ∧ u ∉ done ∧ u ∉ pre ∧
      ∀ b, added.Child u b → b ∈ included → b ∈ done ∨ b ∈ pre) :
    ∃ last cached' all, todo.foldlM (updateFromBlock included) (now, cached) = .ok (last, cached') ∧
      (∀ u, u ∈ all ↔ u ∈ done ∨ u ∈ todo) ∧
      Updating added included all last cached' := by
  induction todo generalizing now cached done with
  | nil => exact ⟨_, _, _, rfl, by simp, updating⟩
  | cons u todo ih =>
    obtain ⟨pooled, block, fresh, -, kids⟩ := turns [] u _ rfl
    have closed' : ∀ a b, a ∈ u :: done → added.Child a b → b ∈ included → b ∈ done := by
      intro a b turned link listed
      rcases mem_cons.1 turned with rfl | turned
      · exact (kids b link listed).resolve_right not_mem_nil
      · exact closed a b turned link listed
    obtain ⟨next, cached', step, updating⟩ := updating.turn linked apart closed' pooled block fresh
    obtain ⟨last, cached'', all, rest, covers, updating⟩ := ih updating
      (fun a b turned link listed => mem_cons_of_mem _ (closed' a b turned link listed)) fun pre w after split => by
        obtain ⟨pooled, block, fresh, unseen, kids⟩ := turns _ w _ (by rw [split, cons_append])
        simp only [mem_cons, not_or] at unseen kids ⊢
        exact ⟨pooled, block, ⟨unseen.1, fresh⟩, unseen.2, fun b link listed => by have := kids b link listed; tauto⟩
    refine ⟨_, _, _, ?_, fun w => (covers w).trans (by simp only [mem_cons]; tauto), updating⟩
    rw [foldlM_cons, step]
    exact rest
end

structure RightOrDirty (pool : CTxMemPool) : Prop extends Linked True pool where
  exact : ∀ a b, b ∈ pool.children a ↔ pool.Child a b

lemma Consistent.rightOrDirty {pool : CTxMemPool} (consistent : pool.Consistent) : pool.RightOrDirty :=
  ⟨⟨consistent.distinct, consistent.spent, consistent.inverse, consistent.inside, consistent.total,
    fun _ ins => .inr (consistent.withDescendants_eq ins)⟩, consistent.exact⟩

/-- The transactions of a disconnected block, parents first, which conflict neither with the pool nor with one another. -/
structure Readds (pool : CTxMemPool) (entries : List CTxMemPoolEntry) : Prop where
  distinct : ((entries.map fun entry => entry.hash) ++ pool.hashes).Nodup
  unspent : ∀ entry ∈ entries, ∀ other ∈ pool.mapTx, ∀ o ∈ entry.outpoints, o ∉ other.outpoints
  apart : entries.Pairwise fun entry other => ∀ o ∈ other.outpoints, o ∉ entry.outpoints
  ordered : entries.Pairwise fun earlier later => later.hash ∉ earlier.spentHashes
  loopless : ∀ entry ∈ entries, entry.hash ∉ entry.spentHashes

lemma Linked.readd {pool} (linked : pool.Linked True) {entries} (readds : Readds pool entries) :
    ∃ added, entries.foldlM CTxMemPool.addUnchecked pool = .ok added ∧ added.Linked True ∧
      added.mapTx = entries.reverse ++ pool.mapTx ∧
      ∀ a b, b ∈ added.children a ↔ b ∈ pool.children a ∨ ∃ entry ∈ entries, entry.hash = b ∧ a ∈ entry.spentHashes ∧
        a ∈ added.hashes := by
  induction entries generalizing pool with
  | nil => exact ⟨_, rfl, linked, rfl, by simp⟩
  | cons entry entries ih =>
    obtain ⟨dist, unspent, apart, ordered, loopless⟩ := readds
    rw [map_cons, cons_append, nodup_cons, mem_append, not_or] at dist
    rw [pairwise_cons] at apart ordered
    have none_spent : ∀ o ∈ entry.outpoints, pool.mapNextTx o = none := by
      refine fun o uses => Option.eq_none_iff_forall_ne_some.2 fun h spends => ?_
      obtain ⟨other, there, -, also⟩ := (linked.spent o h).1 spends
      exact unspent _ mem_cons_self _ there o uses also
    obtain ⟨first, step, linked, mapTx, kids⟩ := linked.addUnchecked dist.1.2 none_spent (loopless _ mem_cons_self)
    have hashes_eq : first.hashes = entry.hash :: pool.hashes := by rw [hashes, mapTx, map_cons, hashes]
    have next : Readds first entries := by
      refine ⟨?_, fun x later other there o uses => ?_, apart.2, ordered.2, fun x later => loopless x (mem_cons_of_mem _ later)⟩
      · rw [hashes_eq]
        exact nodup_middle.2 (nodup_cons.2 ⟨by simp [dist.1], dist.2⟩)
      · rw [mapTx] at there
        rcases mem_cons.1 there with rfl | there
        · exact apart.1 x later o uses
        · exact unspent x (mem_cons_of_mem _ later) _ there o uses
    obtain ⟨added, rest, linked, shape, links⟩ := ih linked next
    refine ⟨_, by rw [foldlM_cons, step]; exact rest, linked, by rw [shape, mapTx]; simp, fun a b => ?_⟩
    have pooled : a ∈ entry.spentHashes → (a ∈ pool.hashes ↔ a ∈ added.hashes) := by
      intro spends
      have self : a ≠ entry.hash := fun same => loopless _ mem_cons_self (same ▸ spends)
      have later : ¬ ∃ x ∈ entries, x.hash = a := by
        rintro ⟨x, there, rfl⟩
        exact ordered.1 x there spends
      simp only [hashes, shape, mapTx, map_append, map_reverse, mem_append, mem_reverse, mem_map, later, mem_cons,
        exists_eq_or_imp, self.symm, false_or]
    rw [links, kids]
    simp only [mem_cons, exists_eq_or_imp]
    constructor
    · rintro ((old | ⟨rfl, spends, there⟩) | later)
      · exact .inl old
      · exact .inr (.inl ⟨rfl, spends, (pooled spends).1 there⟩)
      · exact .inr (.inr later)
    · rintro (old | ⟨rfl, spends, there⟩ | later)
      · exact .inl (.inl old)
      · exact .inl (.inr ⟨rfl, spends, (pooled spends).2 there⟩)
      · exact .inr later

/-- The transactions of a disconnected block leave the links exact and every entry right or dirty. -/
theorem rightOrDirty_of_readds {pool : CTxMemPool} (before : pool.RightOrDirty) (entries : List CTxMemPoolEntry)
    (readds : Readds pool entries)
    (confirmed : ∀ entry ∈ entries, ∀ h ∈ entry.spentHashes, h ∉ pool.hashes) :
    ∃ added last, entries.foldlM CTxMemPool.addUnchecked pool = .ok added ∧
      added.updateTransactionsFromBlock (entries.map fun entry => entry.hash) = .ok last ∧
        last.mapTx = entries.reverse ++ pool.mapTx ∧ last.RightOrDirty := by
  obtain ⟨added, adds, linked, mapTx, children⟩ := before.toLinked.readd readds
  generalize listed : (entries.map fun entry => entry.hash) = included
  have pooled : ∀ {h}, h ∈ added.hashes ↔ h ∈ included ∨ h ∈ pool.hashes := by simp [hashes, mapTx, ← listed]
  have disjoint : ∀ {h}, h ∈ included → h ∉ pool.hashes := by
    intro h block inside
    rw [← listed] at block
    exact (nodup_append.1 readds.distinct).2.2 h block h inside rfl
  have spender : ∀ {a b}, added.Child a b ↔ (a ∈ included ∨ a ∈ pool.hashes) ∧
      ((∃ entry ∈ entries, entry.hash = b ∧ a ∈ entry.spentHashes) ∨ ∃ entry ∈ pool.mapTx, entry.hash = b ∧ a ∈ entry.spentHashes) := by
    simp [Child, pooled, mapTx, or_and_right, exists_or]
  have in_block : ∀ {entry}, entry ∈ entries → entry.hash ∈ included := fun there => listed ▸ mem_map_of_mem there
  have apart : ∀ a b, a ∉ included → added.Child a b → b ∉ included := by
    rintro a b out link
    obtain ⟨inside, ⟨entry, there, -, spends⟩ | ⟨entry, there, rfl, -⟩⟩ := spender.1 link
    · exact absurd (inside.resolve_left out) (confirmed _ there a spends)
    · exact fun block => disjoint block (mem_map_of_mem there)
  have start_links : ∀ a b, b ∈ added.children a ↔ added.Child a b ∧ (a ∈ included → b ∉ included → a ∈ []) := by
    intro a b
    rw [children, before.exact, spender]
    simp only [Child, not_mem_nil, imp_false, not_not, pooled]
    constructor
    · rintro (⟨inside, old⟩ | ⟨entry, there, rfl, spends, inside⟩)
      · exact ⟨⟨.inr inside, .inr old⟩, fun block => absurd inside (disjoint block)⟩
      · exact ⟨⟨inside, .inl ⟨_, there, rfl, spends⟩⟩, fun _ => in_block there⟩
    · rintro ⟨⟨inside, ⟨entry, there, rfl, spends⟩ | ⟨entry, there, rfl, spends⟩⟩, block⟩
      · exact .inr ⟨_, there, rfl, spends, inside⟩
      · have old : a ∉ included := fun listed => disjoint (block listed) (mem_map_of_mem there)
        exact .inl ⟨inside.resolve_left old, _, there, rfl, spends⟩
  have start_reach : ∀ h y, Reach added.children h y ↔ ReflTransGen added.Child h y ∧ (h ∈ included → y ∈ included) :=
    fun h y => reach_of_cut apart fun a b => by simpa using start_links a b
  have start : Updating added included [] added fun _ => none := by
    refine ⟨rfl, rfl, rfl, linked.inverse, start_links, fun h inside => ?_, by simp⟩
    refine (linked.sums h inside).imp And.right fun right => right.trans ?_
    exact weigh_congr fun entry _ => (start_reach h _).trans (by simp)
  obtain ⟨last, cached, all, run, covers, updating⟩ := start.run linked apart (by simp) included.reverse fun sooner u later split => by
    subst listed
    have unique := nodup_reverse.2 (nodup_append.1 readds.distinct).1
    rw [split] at unique
    rw [← map_reverse] at split
    obtain ⟨sooner, rest, turns, rfl, tail⟩ := map_eq_append_iff.1 split
    obtain ⟨entry, later, rfl, rfl, rfl⟩ := map_eq_cons_iff.1 tail
    have order := pairwise_reverse.2 readds.ordered
    rw [turns, pairwise_append, pairwise_cons] at order
    have there : entry ∈ entries := mem_reverse.1 (turns ▸ by simp)
    refine ⟨pooled.2 (.inl (in_block there)), in_block there, not_mem_nil, fun twice => ?_, fun b link block => .inr ?_⟩
    · exact (nodup_append.1 unique).2.2 _ twice _ mem_cons_self rfl
    · obtain ⟨-, ⟨child, child_in, rfl, spends⟩ | ⟨child, old, rfl, -⟩⟩ := spender.1 link
      · have placed := turns ▸ mem_reverse.2 child_in
        rcases mem_append.1 placed with sooner | placed
        · exact mem_map_of_mem sooner
        · rcases mem_cons.1 placed with rfl | after
          · exact absurd spends (readds.loopless _ child_in)
          · exact absurd spends (order.2.1.1 _ after)
      · exact absurd (mem_map_of_mem old) (disjoint block)
  have links := fun a b =>
    (updating.children a b).trans (and_iff_left fun block _ => (covers a).2 (.inr (mem_reverse.2 block)))
  have same : last.Child = added.Child := by
    funext a b
    simp [Child, hashes, updating.mapTx]
  refine ⟨_, _, adds, ?_, updating.mapTx.trans mapTx, ⟨?_, ?_, updating.inverse, fun a b link => ?_, ?_, fun h inside => ?_⟩,
    fun a b => by rw [links, same]⟩
  · rw [updateTransactionsFromBlock, run]
    rfl
  · rw [hashes, updating.mapTx]
    exact linked.distinct
  · rw [updating.mapNextTx, updating.mapTx]
    exact linked.spent
  · obtain ⟨above, entry, there, rfl, -⟩ := (links a b).1 link
    rw [hashes, updating.mapTx]
    exact ⟨above, mem_map_of_mem there⟩
  · rw [updating.total, updating.mapTx]
    exact linked.total
  · rw [hashes, updating.mapTx] at inside
    refine (updating.sums h inside).imp (fun dirty => ⟨trivial, dirty⟩) fun right => right.trans ?_
    rw [below, weigh, weigh, updating.mapTx]
    refine weigh_congr fun entry _ => ?_
    rw [Reach, funext fun a => funext fun b => propext (links a b)]
    exact and_iff_left fun block left => absurd ((covers h).2 (.inr (mem_reverse.2 block))) left

theorem rightOrDirty_of_pooled_child : ∃ pool, pool.mapTx = [chainEntry 3 2] ∧
    ∃ added last, [chainEntry 1 7, chainEntry 2 1].foldlM CTxMemPool.addUnchecked pool = .ok added ∧
      added.updateTransactionsFromBlock ([chainEntry 1 7, chainEntry 2 1].map fun entry => entry.hash) = .ok last ∧
      last.mapTx = [chainEntry 1 7, chainEntry 2 1].reverse ++ pool.mapTx ∧ last.RightOrDirty := by
  obtain ⟨pool, -, consistent, mapTx⟩ : ∃ pool, CTxMemPool.empty.addUnchecked (chainEntry 3 2) = .ok pool ∧ pool.Consistent ∧
      pool.mapTx = [chainEntry 3 2] := Consistent.empty.addUnchecked (by decide) (by decide) (by decide) (by decide)
  refine ⟨pool, mapTx, rightOrDirty_of_readds consistent.rightOrDirty _ ⟨?_, ?_, ?_, ?_, ?_⟩ ?_⟩
  · rw [hashes, mapTx]
    decide +kernel
  · rw [mapTx]
    decide +kernel
  · decide +kernel
  · decide +kernel
  · decide +kernel
  · simp [hashes, mapTx, chainEntry, HashedTx.spentHashes, HashedTx.outpoints]

end Peony.CTxMemPool
