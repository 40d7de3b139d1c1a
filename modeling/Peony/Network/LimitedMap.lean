import Mathlib.Data.List.Sort
import Peony.Library.AssocMap
import Peony.Library.Except
import Peony.Primitives.Transaction

/-! `limitedmap` (limitedmap.h). The entries of `map` stand in any order; an iterator in `rmap` is its key. -/

namespace Peony
open List Except

structure LimitedMap (K V : Type) where
  map : List (K × V) := []
  rmap : List (V × K) := []
  nMaxSize : Nat
  deriving DecidableEq

namespace LimitedMap

inductive Call (K V : Type)
  | insert (k : K) (v : V)
  | erase (k : K)
  | update (k : K) (v : V)
  | max_size (s : Nat)

variable {K V : Type} [DecidableEq K] [LinearOrder V] (m : LimitedMap K V) {last : LimitedMap K V} {k : K} {v : V}
  {items : List (K × V)}
/-- A multimap inserts behind the entries with the same key. -/
def put (k : K) (v : V) : LimitedMap K V :=
  { m with map := (k, v) :: m.map, rmap := m.rmap.orderedInsert (·.1 < ·.1) (v, k) }

def eraseBegin : Except Failure (LimitedMap K V) :=
  match m.rmap with
  | [] => .error (.fault "rmap.begin()->second")
  | (_, k) :: rmap => .ok { m with map := m.map.filter (·.1 != k), rmap }

section
variable (k : K) (v : V)
/-- The entry to erase is found when the new one is in `map` but not yet in `rmap`. -/
def insert : Except Failure (LimitedMap K V) :=
  if k ∈ m.map.map Prod.fst then .ok m
  else do
    let m ← if m.nMaxSize ≠ 0 ∧ m.map.length + 1 = m.nMaxSize then m.eraseBegin else .ok m
    return m.put k v

/-- The search in the equal range of the value. -/
def unlink : Except Failure (LimitedMap K V) :=
  if (v, k) ∈ m.rmap then .ok { m with map := m.map.filter (·.1 != k), rmap := m.rmap.erase (v, k) }
  else .error (.assertion "0")

def erase (k : K) : Except Failure (LimitedMap K V) :=
  match m.map.find? (·.1 == k) with
  | none => .ok m
  | some itTarget => m.unlink k itTarget.2

def update : Except Failure (LimitedMap K V) :=
  match m.map.find? (·.1 == k) with
  | none => .ok m
  | some itTarget => (·.put k v) <$> m.unlink k itTarget.2
end

/-- Every round takes an entry from `rmap`, so that the fuel of `max_size` is enough. -/
def shrink (s : Nat) : (fuel : Nat) → LimitedMap K V → Except Failure (LimitedMap K V)
  | 0, m => .ok m
  | fuel + 1, m => if m.map.length > s then m.eraseBegin >>= shrink s fuel else .ok m

def max_size (s : Nat) : Except Failure (LimitedMap K V) := do
  let m ← if s ≠ 0 then m.shrink s (m.rmap.length + 1) else .ok m
  return { m with nMaxSize := s }

def step : Call K V → Except Failure (LimitedMap K V)
  | .insert k v => m.insert k v
  | .erase k => m.erase k
  | .update k v => m.update k v
  | .max_size s => m.max_size s

def inserts (items : List (K × V)) : Except Failure (LimitedMap K V) := items.foldlM (fun m e => m.insert e.1 e.2) m

structure Indexed : Prop where
  distinct : (m.map.map Prod.fst).Nodup
  inverse : m.rmap.Perm (m.map.map Prod.swap)

def HoldsHighest (N : Nat) (items : List (K × V)) : Prop :=
  m.map.length = min N items.length ∧ m.map ⊆ items ∧ ∀ e ∈ items, e ∉ m.map → ∀ kept ∈ m.map, e.2 ≤ kept.2

variable {m}
namespace Indexed
variable (indexed : m.Indexed)
include indexed

omit [LinearOrder V] in
lemma without {rmap} (takes : m.rmap.Perm ((v, k) :: rmap)) : Indexed { m with map := m.map.filter (·.1 != k), rmap } := by
  have pairs := takes.symm.trans indexed.inverse
  obtain ⟨e, mem, entry⟩ := mem_map.mp (pairs.subset (mem_cons_self (l := rmap)))
  have found : (k, v) ∈ m.map := by rwa [← Prod.swap_swap e, entry] at mem
  have rest := (AssocMap.perm_without indexed.distinct found).map Prod.swap
  exact ⟨indexed.distinct.sublist (filter_sublist.map _), (pairs.trans rest).cons_inv⟩

omit [DecidableEq K] in
lemma put (fresh : k ∉ m.map.map Prod.fst) (v : V) : (m.put k v).Indexed :=
  ⟨nodup_cons.mpr ⟨fresh, indexed.distinct⟩, (perm_orderedInsert _ _ _).trans (indexed.inverse.cons _)⟩

omit [LinearOrder V] in
lemma eraseBegin (held : m.map ≠ []) :
    ∃ next, m.eraseBegin = .ok next ∧ next.Indexed ∧ next.map.length + 1 = m.map.length ∧ next.nMaxSize = m.nMaxSize ∧
      next.map ⊆ m.map := by
  have sizes := indexed.inverse.length_eq
  cases shape : m.rmap with
  | nil =>
    rw [shape, length_map] at sizes
    exact absurd (length_eq_zero_iff.mp sizes.symm) held
  | cons e rmap =>
    obtain ⟨w, lowest⟩ := e
    have rest := indexed.without (Perm.of_eq shape)
    have sizes' := rest.inverse.length_eq
    refine ⟨_, by rw [LimitedMap.eraseBegin, shape], rest, ?_, rfl, filter_subset_self ..⟩
    simp only [shape, length_map, length_cons] at sizes sizes' ⊢
    omega

lemma insert (k : K) (v) : (m.map = [] ∧ m.nMaxSize = 1 ∧ ∃ failure, m.insert k v = .error failure) ∨
      ¬(m.map = [] ∧ m.nMaxSize = 1) ∧ ∃ next, m.insert k v = .ok next ∧ next.Indexed ∧ next.nMaxSize = m.nMaxSize ∧
        (m.map.length < m.nMaxSize → next.map.length < m.nMaxSize) ∧
        (k ∉ m.map.map Prod.fst → m.map.length + 1 ≠ m.nMaxSize → next.map = (k, v) :: m.map) := by
  by_cases known : k ∈ m.map.map Prod.fst
  · refine .inr ⟨?_, m, if_pos known, indexed, rfl, id, absurd known⟩
    rintro ⟨empty, -⟩
    rw [empty] at known
    cases known
  · rw [LimitedMap.insert, if_neg known]
    by_cases full : m.map.length + 1 = m.nMaxSize
    · rw [if_pos ⟨by omega, full⟩]
      by_cases held : m.map = []
      · left
        have empty : m.rmap = [] := by simpa [held] using indexed.inverse
        refine ⟨held, by simpa [held] using full.symm, .fault "rmap.begin()->second", ?_⟩
        simp only [LimitedMap.eraseBegin, empty]
        rfl
      · obtain ⟨base, erases, rest, size, same, ins⟩ := indexed.eraseBegin held
        rw [erases]
        refine .inr ⟨fun empty => held empty.1, _, rfl, rest.put (fun again => known (map_subset _ ins again)) v, same, ?_,
          fun _ free => absurd full free⟩
        simp only [LimitedMap.put, length_cons]
        omega
    · rw [if_neg fun both => full both.2]
      refine .inr ⟨?_, _, rfl, indexed.put known v, rfl, ?_, fun _ _ => rfl⟩
      · rintro ⟨empty, one⟩
        simp [empty, one] at full
      · simp only [LimitedMap.put, length_cons]
        omega

omit [LinearOrder V] in
lemma shrink (s fuel : Nat) : ∃ next, LimitedMap.shrink s fuel m = .ok next ∧ next.Indexed := by
  induction fuel generalizing m with
  | zero => exact ⟨m, rfl, indexed⟩
  | succ fuel ih =>
    unfold LimitedMap.shrink
    split
    · next large =>
      obtain ⟨next, erases, rest, -⟩ := indexed.eraseBegin (ne_nil_of_length_pos (Nat.zero_lt_of_lt large))
      rw [erases]
      exact ih rest
    · exact ⟨m, rfl, indexed⟩

lemma unlink {e} (found : m.map.find? (·.1 == k) = some e) :
    ∃ next, m.unlink k e.2 = .ok next ∧ next.Indexed ∧ k ∉ next.map.map Prod.fst := by
  obtain rfl : e.1 = k := by simpa using find?_some found
  have listed := indexed.inverse.symm.subset (mem_map_of_mem (mem_of_find?_eq_some found))
  exact ⟨_, if_pos listed, indexed.without (perm_cons_erase listed), by simp⟩

lemma step (call : Call K V) : (∃ next, m.step call = .ok next ∧ next.Indexed) ∨
      (m.map = [] ∧ m.nMaxSize = 1 ∧ ∃ k v, call = .insert k v) ∧ ∃ failure, m.step call = .error failure := by
  cases call with
  | insert k v =>
    rcases indexed.insert k v with ⟨empty, one, fails⟩ | ⟨-, next, inserts, rest, -⟩
    · exact .inr ⟨⟨empty, one, k, v, rfl⟩, fails⟩
    · exact .inl ⟨next, inserts, rest⟩
  | erase k =>
    simp only [LimitedMap.step, LimitedMap.erase]
    split
    · exact .inl ⟨m, rfl, indexed⟩
    · next found =>
      obtain ⟨next, unlinks, rest, -⟩ := indexed.unlink found
      exact .inl ⟨next, unlinks, rest⟩
  | update k v =>
    simp only [LimitedMap.step, LimitedMap.update]
    split
    · exact .inl ⟨m, rfl, indexed⟩
    · next found =>
      obtain ⟨next, unlinks, rest, fresh⟩ := indexed.unlink found
      rw [unlinks]
      exact .inl ⟨_, rfl, rest.put fresh v⟩
  | max_size s =>
    simp only [LimitedMap.step, LimitedMap.max_size]
    split
    · obtain ⟨next, shrinks, rest⟩ := indexed.shrink s (m.rmap.length + 1)
      rw [shrinks]
      exact .inl ⟨_, rfl, rest.distinct, rest.inverse⟩
    · exact .inl ⟨_, rfl, indexed.distinct, indexed.inverse⟩

lemma run {calls : List (Call K V)} (runs : calls.foldlM LimitedMap.step m = .ok last) : last.Indexed := by
  induction calls generalizing m with
  | nil =>
    cases runs
    exact indexed
  | cons call calls ih =>
    obtain ⟨next, first, runs⟩ := bind_eq_ok.mp runs
    rcases indexed.step call with ⟨other, steps, rest⟩ | ⟨-, failure, fails⟩
    · cases steps.symm.trans first
      exact ih rest runs
    · cases fails.symm.trans first

lemma inserts_small (small : m.map.length < m.nMaxSize) (runs : m.inserts items = .ok last) : last.map.length < m.nMaxSize := by
  induction items generalizing m with
  | nil =>
    cases runs
    exact small
  | cons e items ih =>
    obtain ⟨next, first, runs⟩ := bind_eq_ok.mp runs
    rcases indexed.insert e.1 e.2 with ⟨-, -, failure, fails⟩ | ⟨-, other, inserts, rest, same, bound, -⟩
    · cases fails.symm.trans first
    · cases inserts.symm.trans first
      rw [← same] at bound ⊢
      exact ih rest (bound (same ▸ small)) runs

lemma inserts_all (dist : (items.map Prod.fst).Nodup) (apart : ∀ e ∈ items, e.1 ∉ m.map.map Prod.fst)
    (room : m.map.length + items.length < m.nMaxSize) : ∃ last, m.inserts items = .ok last ∧ last.map = items.reverse ++ m.map := by
  induction items generalizing m with
  | nil => exact ⟨m, rfl, rfl⟩
  | cons e items ih =>
    rw [length_cons] at room
    obtain ⟨alone, dist⟩ := nodup_cons.mp dist
    rcases indexed.insert e.1 e.2 with ⟨empty, one, -⟩ | ⟨-, next, inserts, rest, same, -, all⟩
    · omega
    · have added := all (apart e mem_cons_self) (by omega)
      have later : ∀ other ∈ items, other.1 ∉ next.map.map Prod.fst := by
        intro other mem
        rw [added, map_cons, mem_cons, not_or]
        exact ⟨fun equal => alone (equal ▸ mem_map_of_mem mem), apart _ (mem_cons_of_mem _ mem)⟩
      obtain ⟨last, runs, held⟩ := ih rest dist later (by rw [added, length_cons, same]; omega)
      refine ⟨last, ?_, by simp [held, added]⟩
      rw [LimitedMap.inserts, foldlM_cons, inserts]
      exact runs

end Indexed

/-- Only a first entry under a maximum of one faults, and the highest entries are held as long as they are fewer than the maximum. -/
theorem holdsHighest_iff (N : Nat) :
    (∀ (calls : List (Call K V)) (m : LimitedMap K V), calls.foldlM step { nMaxSize := N + 1 } = .ok m → m.Indexed ∧
      ∀ call, (∃ next, m.step call = .ok next) ↔ ¬(m.map = [] ∧ m.nMaxSize = 1 ∧ ∃ k v, call = .insert k v)) ∧
    ∀ items : List (K × V), (items.map Prod.fst).Nodup →
      ((∃ m : LimitedMap K V, inserts { nMaxSize := N + 1 } items = .ok m ∧ m.HoldsHighest (N + 1) items) ↔ items.length < N + 1) := by
  have start : Indexed ({ nMaxSize := N + 1 } : LimitedMap K V) := ⟨nodup_nil, .nil⟩
  refine ⟨fun calls m runs => ⟨start.run runs, fun call => ⟨?_, fun sound => ?_⟩⟩, fun items distinct => ⟨?_, fun short => ?_⟩⟩
  · rintro ⟨next, steps⟩ ⟨empty, one, k, v, rfl⟩
    rcases (start.run runs).insert k v with ⟨-, -, failure, fails⟩ | ⟨held, -⟩
    · cases fails.symm.trans steps
    · exact held ⟨empty, one⟩
  · rcases (start.run runs).step call with ⟨next, steps, -⟩ | ⟨faults, -⟩
    · exact ⟨next, steps⟩
    · exact absurd faults sound
  · rintro ⟨m, runs, size, -⟩
    have small := start.inserts_small (Nat.succ_pos N) runs
    change _ < N + 1 at small
    omega
  · obtain ⟨m, runs, all⟩ := start.inserts_all distinct (fun _ _ => not_mem_nil) (by simpa using short)
    rw [append_nil] at all
    refine ⟨m, runs, by rw [all, length_reverse]; omega, by simp [all], fun e member missing => ?_⟩
    simp [all, member] at missing

/-- Of two entries under a maximum of two only the second is held. -/
theorem two_entries_lose_one : inserts { nMaxSize := 2 } [(1, 7), (2, 5)] = .ok (⟨[(2, 5)], [(5, 2)], 2⟩ : LimitedMap Nat Nat) := by
  decide

end LimitedMap

end Peony
