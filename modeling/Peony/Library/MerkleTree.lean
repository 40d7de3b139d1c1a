import Mathlib.Algebra.Ring.Parity
import Mathlib.Data.Nat.Log
import Mathlib.Tactic.Linarith
import Mathlib.Tactic.Ring

/-! Binary hash trees in which the last node of an odd level is hashed with itself, and what their roots say about their leaves. -/

namespace MerkleTree
open Nat
variable {k : Nat} {α : Type} (hash : α → α → α) (leaf : Nat → α) (n : Nat)
/-- Node `j` of level `k` over the first `n` leaves, which exists if `j * 2 ^ k < n`. -/
def node : (k j : Nat) → α
  | 0, j => leaf j
  | k + 1, j => hash (node k (2 * j)) (if (2 * j + 1) * 2 ^ k < n then node k (2 * j + 1) else node k (2 * j))

def right (k j : Nat) : α := if (2 * j + 1) * 2 ^ k < n then node hash leaf n k (2 * j + 1) else node hash leaf n k (2 * j)
def root : α := node hash leaf n (Nat.clog 2 n) 0

def pairs : List (α × α) :=
  ((List.range n).filter fun k => 2 ^ k < n).flatMap fun k =>
    ((List.range n).filter fun j => j * 2 ^ (k + 1) < n).map fun j => (node hash leaf n k (2 * j), right hash leaf n k j)

structure CollisionFree (pairs : List (α × α)) (leaves : List α) : Prop where
  injective : ∀ p ∈ pairs, ∀ q ∈ pairs, hash p.1 p.2 = hash q.1 q.2 → p = q
  leaves : ∀ p ∈ pairs, hash p.1 p.2 ∉ leaves

instance [DecidableEq α] (pairs : List (α × α)) (leaves : List α) : Decidable (CollisionFree hash pairs leaves) :=
  decidable_of_iff
    ((∀ p ∈ pairs, ∀ q ∈ pairs, hash p.1 p.2 = hash q.1 q.2 → p = q) ∧ ∀ p ∈ pairs, hash p.1 p.2 ∉ leaves)
    ⟨fun ⟨injective, leaves⟩ => ⟨injective, leaves⟩, fun ⟨injective, leaves⟩ => ⟨injective, leaves⟩⟩

def NoCollision (first second : List (α × α)) : Prop := ∀ p ∈ first, ∀ q ∈ second, hash p.1 p.2 = hash q.1 q.2 → p = q

instance [DecidableEq α] (first second : List (α × α)) : Decidable (NoCollision hash first second) :=
  inferInstanceAs (Decidable (∀ p ∈ first, ∀ q ∈ second, hash p.1 p.2 = hash q.1 q.2 → p = q))

def FullTwins : Prop := ∃ k j, (2 * j + 2) * 2 ^ k ≤ n ∧ node hash leaf n k (2 * j) = node hash leaf n k (2 * j + 1)

variable {hash leaf n}
lemma node_succ (k j) : node hash leaf n (k + 1) j = hash (node hash leaf n k (2 * j)) (right hash leaf n k j) := rfl
lemma right_of_lt {j} (there : (2 * j + 1) * 2 ^ k < n) : right hash leaf n k j = node hash leaf n k (2 * j + 1) := if_pos there

lemma right_of_le {j} (absent : n ≤ (2 * j + 1) * 2 ^ k) : right hash leaf n k j = node hash leaf n k (2 * j) :=
  if_neg (not_lt.mpr absent)

lemma left_there {j} (there : (2 * j + 1) * 2 ^ k < n) : 2 * j * 2 ^ k < n :=
  (Nat.mul_le_mul_right _ (Nat.le_succ _)).trans_lt there

lemma leftmost (level : 2 ^ k < n) : 0 * 2 ^ (k + 1) < n := by simpa using (Nat.two_pow_pos k).trans level

lemma mem_pairs {j} (level : 2 ^ k < n) (there : j * 2 ^ (k + 1) < n) :
    (node hash leaf n k (2 * j), right hash leaf n k j) ∈ pairs hash leaf n := by
  have low : k < n := Nat.lt_two_pow_self.trans level
  have left : j < n := lt_of_le_of_lt (Nat.le_mul_of_pos_right j (Nat.two_pow_pos _)) there
  apply List.mem_flatMap.mpr
  exact ⟨k, by simp [low, level], List.mem_map.mpr ⟨j, by simp [left, there], rfl⟩⟩

section
variable {α : Type} {hash : α → α → α} {leaf : Nat → α} {n : Nat} {all : List (α × α)} {leaves : List α}
variable (free : CollisionFree hash all leaves)
include free

lemma CollisionFree.children {leaf' n'} (first : pairs hash leaf n ⊆ all)
    (second : pairs hash leaf' n' ⊆ all) {k' j j'} (level : 2 ^ k < n) (level' : 2 ^ k' < n') (there : j * 2 ^ (k + 1) < n)
    (there' : j' * 2 ^ (k' + 1) < n') (same : node hash leaf n (k + 1) j = node hash leaf' n' (k' + 1) j') :
    node hash leaf n k (2 * j) = node hash leaf' n' k' (2 * j') ∧ right hash leaf n k j = right hash leaf' n' k' j' := by
  have equal := free.injective _ (first (mem_pairs level there)) _ (second (mem_pairs level' there')) same
  exact ⟨congrArg Prod.fst equal, congrArg Prod.snd equal⟩

/-- Partial and full nodes have one hash only if some twins do. -/
lemma node_ne_of_partial (ins : pairs hash leaf n ⊆ all) (single : ¬ FullTwins hash leaf n)
    {p q} (full : (p + 1) * 2 ^ k ≤ n) (there : q * 2 ^ k < n) (lacks : n < (q + 1) * 2 ^ k) :
    node hash leaf n k p ≠ node hash leaf n k q := by
  induction k generalizing p q with
  | zero => omega
  | succ k ih =>
    intro same
    rw [pow_succ] at full there lacks
    have level : 2 ^ k < n := by grind
    obtain ⟨left, right⟩ := free.children ins ins level level (by rw [pow_succ]; linarith) (by rw [pow_succ]; linarith) same
    rw [right_of_lt (by linarith)] at right
    by_cases both : (2 * q + 1) * 2 ^ k < n
    · rw [right_of_lt both] at right
      exact ih (by linarith) both (by linarith) right
    · -- the node that lacks leaves is hashed with itself
      rw [right_of_le (by omega), ← left] at right
      exact single ⟨k, p, by linarith, right.symm⟩

lemma siblings_ne (ins : pairs hash leaf n ⊆ all) (single : ¬ FullTwins hash leaf n)
    {j} (there : (2 * j + 1) * 2 ^ k < n) : node hash leaf n k (2 * j) ≠ node hash leaf n k (2 * j + 1) := by
  by_cases full : (2 * j + 2) * 2 ^ k ≤ n
  · intro same
    exact single ⟨k, j, full, same⟩
  · have lacks := not_le.mp full
    exact node_ne_of_partial free ins single there.le there lacks
end
section
variable {α : Type} {hash : α → α → α} {leaf leaf' : Nat → α} {n n' : Nat} {all : List (α × α)} {leaves : List α}
variable (free : CollisionFree hash all leaves) (first : pairs hash leaf n ⊆ all) (second : pairs hash leaf' n' ⊆ all)
include free first second

lemma left_eq
    {m} (low : k ≤ Nat.clog 2 n) (low' : k + m ≤ Nat.clog 2 n') (same : node hash leaf n k 0 = node hash leaf' n' (k + m) 0) :
    leaf 0 = node hash leaf' n' m 0 := by
  induction k with
  | zero =>
    rw [zero_add] at same
    exact same
  | succ k ih =>
    have level : 2 ^ k < n := (lt_clog_iff_pow_lt one_lt_two).mp (by omega)
    have level' : 2 ^ (k + m) < n' := (lt_clog_iff_pow_lt one_lt_two).mp (by omega)
    rw [add_right_comm] at same
    obtain ⟨left, -⟩ := free.children first second level level' (leftmost level) (leftmost level') same
    exact ih (by omega) (by omega) left

lemma depth_le (mem : leaf 0 ∈ leaves) (same : root hash leaf n = root hash leaf' n') : Nat.clog 2 n' ≤ Nat.clog 2 n := by
  by_contra deeper
  obtain ⟨m, depth⟩ := Nat.exists_eq_add_of_lt (Nat.not_le.mp deeper)
  unfold root at same
  rw [depth, Nat.add_assoc] at same
  have output := left_eq free first second le_rfl (by omega) same
  have level : 2 ^ m < n' := (lt_clog_iff_pow_lt one_lt_two).mp (by omega)
  rw [output] at mem
  exact free.leaves _ (second (mem_pairs level (leftmost level))) mem

lemma level_below (single : ¬ FullTwins hash leaf n) (single' : ¬ FullTwins hash leaf' n') (level : 2 ^ k < n) (level' : 2 ^ k < n')
    (widths : ∀ j, j * 2 ^ (k + 1) < n ↔ j * 2 ^ (k + 1) < n')
    (nodes : ∀ j, j * 2 ^ (k + 1) < n → node hash leaf n (k + 1) j = node hash leaf' n' (k + 1) j) :
    (∀ j, j * 2 ^ k < n ↔ j * 2 ^ k < n') ∧ ∀ j, j * 2 ^ k < n → node hash leaf n k j = node hash leaf' n' k j := by
  have twice : ∀ j, j * 2 ^ (k + 1) = 2 * j * 2 ^ k := fun j => by ring
  have children : ∀ j, 2 * j * 2 ^ k < n →
      node hash leaf n k (2 * j) = node hash leaf' n' k (2 * j) ∧ right hash leaf n k j = right hash leaf' n' k j := by
    intro j there
    rw [← twice] at there
    exact free.children first second level level' there ((widths j).mp there) (nodes j there)
  -- a right child that only one of the trees has is the twin of its sibling there
  have odd : ∀ j, (2 * j + 1) * 2 ^ k < n ↔ (2 * j + 1) * 2 ^ k < n' := by
    intro j
    constructor
    · intro there
      obtain ⟨left, right⟩ := children j (left_there there)
      by_contra absent
      rw [right_of_lt there, right_of_le (by omega), ← left] at right
      exact siblings_ne free first single there right.symm
    · intro there
      have below : 2 * j * 2 ^ k < n := by
        rw [← twice, widths, twice]
        exact left_there there
      obtain ⟨left, right⟩ := children j below
      by_contra absent
      rw [right_of_le (by omega), right_of_lt there, left] at right
      exact siblings_ne free second single' there right
  have widths' : ∀ j, j * 2 ^ k < n ↔ j * 2 ^ k < n' := by
    intro j
    rcases even_or_odd' j with ⟨i, rfl | rfl⟩
    · rw [← twice]
      exact widths i
    · exact odd i
  apply And.intro widths'
  intro j there
  rcases even_or_odd' j with ⟨i, rfl | rfl⟩
  · exact (children i there).1
  · have right := (children i (left_there there)).2
    rw [right_of_lt there, right_of_lt ((odd i).mp there)] at right
    exact right

lemma leaves_eq_of_root_eq (mem : leaf 0 ∈ leaves) (mem' : leaf' 0 ∈ leaves) (pos : 0 < n) (positive' : 0 < n')
    (single : ¬ FullTwins hash leaf n) (single' : ¬ FullTwins hash leaf' n') (same : root hash leaf n = root hash leaf' n') :
    n = n' ∧ ∀ j < n, leaf j = leaf' j := by
  have depth :=
    le_antisymm (depth_le free second first mem' same.symm) (depth_le free first second mem same)
  have top := le_pow_clog one_lt_two n
  have top' := depth ▸ le_pow_clog one_lt_two n'
  -- from the root down to the leaves
  have levels : ∀ i ≤ Nat.clog 2 n, (∀ j, j * 2 ^ (Nat.clog 2 n - i) < n ↔ j * 2 ^ (Nat.clog 2 n - i) < n') ∧
      ∀ j, j * 2 ^ (Nat.clog 2 n - i) < n → node hash leaf n (Nat.clog 2 n - i) j = node hash leaf' n' (Nat.clog 2 n - i) j := by
    intro i
    induction i with
    | zero =>
      intro _
      have only : ∀ j m, 0 < m → m ≤ 2 ^ Nat.clog 2 n → (j * 2 ^ Nat.clog 2 n < m ↔ j = 0) := by
        intro j m pos top
        cases j with
        | zero => simpa using pos
        | succ j => grind
      constructor
      · intro j
        rw [Nat.sub_zero, only j n pos top, only j n' positive' top']
      · intro j there
        rw [Nat.sub_zero, only j n pos top] at there
        cases there
        unfold root at same
        rw [← depth] at same
        exact same
    | succ i ih =>
      intro high
      obtain ⟨k, below⟩ : ∃ k, Nat.clog 2 n - i = k + 1 := ⟨Nat.clog 2 n - (i + 1), by omega⟩
      have here : Nat.clog 2 n - (i + 1) = k := by omega
      have level : 2 ^ k < n := (lt_clog_iff_pow_lt one_lt_two).mp (by omega)
      have level' : 2 ^ k < n' := (lt_clog_iff_pow_lt one_lt_two).mp (by omega)
      have above := ih (by omega)
      rw [below] at above
      rw [here]
      exact level_below free first second single single' level level' above.1 above.2
  have bottom := levels _ le_rfl
  simp only [Nat.sub_self, pow_zero, Nat.mul_one] at bottom
  apply And.intro _ bottom.2
  exact le_antisymm (Nat.le_of_not_lt fun shorter => lt_irrefl _ ((bottom.1 n').mp shorter))
    (Nat.le_of_not_lt fun shorter => lt_irrefl _ ((bottom.1 n).mpr shorter))
end

variable {α : Type} (hash : α → α → α) (leaf : Nat → α) (n : Nat)
def sibling (k j : Nat) : α := if j % 2 = 1 then node hash leaf n k (j - 1) else right hash leaf n k (j / 2)
def siblings (i k : Nat) : List α := (List.range k).map fun l => sibling hash leaf n l (i / 2 ^ l)

variable {hash leaf n}
lemma siblings_succ (i k) : siblings hash leaf n i (k + 1) = siblings hash leaf n i k ++ [sibling hash leaf n k (i / 2 ^ k)] := by
  rw [siblings, List.range_succ, List.map_append]
  rfl

lemma sibling_of_odd {i j} (here : i = 2 * j + 1) : sibling hash leaf n k i = node hash leaf n k (2 * j) := by
  rw [sibling, if_pos (by omega), here, Nat.add_sub_cancel]

lemma sibling_of_even {i j} (here : i = 2 * j) : sibling hash leaf n k i = right hash leaf n k j := by
  rw [sibling, if_neg (by omega), here, Nat.mul_div_cancel_left j two_pos]

lemma node_half {i} (there : i * 2 ^ k < n) : node hash leaf n (k + 1) (i / 2) =
    if i % 2 = 1 then hash (sibling hash leaf n k i) (node hash leaf n k i)
      else hash (node hash leaf n k i) (sibling hash leaf n k i) := by
  rw [node_succ]
  by_cases odd : i % 2 = 1
  · obtain ⟨j, rfl⟩ : ∃ j, i = 2 * j + 1 := ⟨i / 2, by omega⟩
    rw [if_pos odd, sibling_of_odd rfl, show (2 * j + 1) / 2 = j by omega, right_of_lt there]
  · obtain ⟨j, rfl⟩ : ∃ j, i = 2 * j := ⟨i / 2, by omega⟩
    rw [if_neg odd, sibling_of_even rfl, Nat.mul_div_cancel_left j two_pos]

end MerkleTree
