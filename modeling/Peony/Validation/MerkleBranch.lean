import Peony.Validation.Merkle

/-! Branches: the siblings on the way from a leaf to the root, collected by the computation of the root, and that a root
stands for one list of transactions. -/

namespace Peony
open MerkleTree List
open Nat (two_pow_pos clog)
variable (hash : UInt256 → UInt256 → UInt256)
def follow (inner : Nat → UInt256) (matchlevel : Option Nat) (level : Nat) (h : UInt256) (matchh : Bool) (pbranch : List UInt256) :
    Bool × List UInt256 :=
  if matchh then (true, pbranch ++ [inner level])
  else if matchlevel = some level then (true, pbranch ++ [h])
  else (false, pbranch)

/-- `matchlevel` is the position in `inner` over the leaf, or `none` for -1. -/
structure BranchState extends MerkleState where
  matchlevel : Option Nat
  pbranch : List UInt256

def addBranchLeaf (branchpos : Nat) (state : BranchState) (leaf : UInt256) : Option BranchState := do
  let matchh := state.count == branchpos
  let count := (state.count + 1) % 2 ^ 32
  let (level, (h, mutated), matchh, pbranch) ← ascend count
    (fun level ((h, mutated), matchh, pbranch) =>
      ((hash (state.inner level) h, mutated || state.inner level == h), follow state.inner state.matchlevel level h matchh pbranch))
    32 0 ((leaf, state.mutated), matchh, state.pbranch)
  return ⟨⟨count, Function.update state.inner level h, mutated⟩, if matchh then some level else state.matchlevel, pbranch⟩

def sweepBranch (inner : Nat → UInt256) (matchlevel : Option Nat) :
    (fuel count level : Nat) → UInt256 → Bool → List UInt256 → Option (UInt256 × List UInt256)
  | 0, _, _, _, _, _ => none
  | fuel + 1, count, level, h, matchh, pbranch =>
    if count = 2 ^ level then some (h, pbranch)
    else do
      let pbranch := if matchh then pbranch ++ [h] else pbranch
      let count := (count + 2 ^ level) % 2 ^ 32
      let (level, h, matchh, pbranch) ← ascend count
        (fun level (h, matchh, pbranch) => (hash (inner level) h, follow inner matchlevel level h matchh pbranch))
        (31 - level) (level + 1) (hash h h, matchh, pbranch)
      sweepBranch inner matchlevel fuel count level h matchh pbranch

def merkleComputation (leaves : List UInt256) (branchpos : Nat) : Option (UInt256 × Bool × List UInt256) :=
  if leaves.isEmpty then some (0, false, [])
  else do
    let state ← leaves.foldlM (addBranchLeaf hash branchpos) ⟨⟨0, fun _ => 0, false⟩, none, []⟩
    let (level, _) ← ascend state.count (fun _ s => s) 32 0 ()
    let (root, pbranch) ← sweepBranch hash state.inner state.matchlevel 32 state.count level (state.inner level)
      (state.matchlevel == some level) state.pbranch
    return (root, state.mutated, pbranch)

def computeMerkleBranch (leaves : List UInt256) (position : Nat) : Option (List UInt256) :=
  (merkleComputation hash leaves position).map fun result => result.2.2

def computeMerkleRootFromBranch (leaf : UInt256) (vMerkleBranch : List UInt256) (nIndex : Nat) : UInt256 :=
  (vMerkleBranch.foldl
    (fun (h, nIndex) it => (if nIndex % 2 = 1 then hash it h else hash h it, nIndex / 2)) (leaf, nIndex)).1

section
variable {hash : UInt256 → UInt256 → UInt256} {leaf : Nat → UInt256} {n : Nat}
/-- Leaf `i` when `c` leaves are counted and node `j` of level `l` is at hand: under it, under one in `inner` from
`low` on, or not read yet. -/
inductive Following (hash : UInt256 → UInt256 → UInt256) (leaf : Nat → UInt256) (n c i l j low : Nat) (matchlevel : Option Nat) :
    Bool → List UInt256 → Prop
  | above (under : i / 2 ^ l = j) : Following hash leaf n c i l j low matchlevel true (siblings hash leaf n i l)
  | waiting {level : Nat} (from_low : low ≤ level) (stored : matchlevel = some level) (under : i / 2 ^ level + 1 = c / 2 ^ level)
      (alone : c / 2 ^ level % 2 = 1) : Following hash leaf n c i l j low matchlevel false (siblings hash leaf n i level)
  | ahead (unread : c < i) (none_yet : matchlevel = none) : Following hash leaf n c i l j low matchlevel false []

variable {c i l j : Nat} {matchlevel : Option Nat} {matchh : Bool} {pbranch : List UInt256} {inner : Nat → UInt256} {h : UInt256}
lemma Following.up (following : Following hash leaf n c i l (2 * j + 1) l matchlevel matchh pbranch)
    (left : inner l = node hash leaf n l (2 * j)) (own : h = node hash leaf n l (2 * j + 1)) (there : (2 * j + 1) * 2 ^ l < n)
    (cnt : c / 2 ^ l = 2 * j + 1) :
    Following hash leaf n c i (l + 1) j (l + 1) matchlevel (follow inner matchlevel l h matchh pbranch).1
      (follow inner matchlevel l h matchh pbranch).2 := by
  have halved : ∀ x, i / 2 ^ l = x → i / 2 ^ (l + 1) = x / 2 := by
    rintro x rfl
    rw [pow_succ, Nat.div_div_eq_div_mul]
  cases following with
  | above under =>
    have grown : siblings hash leaf n i l ++ [inner l] = siblings hash leaf n i (l + 1) := by
      rw [siblings_succ, sibling_of_odd under, left]
    rw [follow, grown]
    exact Following.above ((halved _ under).trans (by omega))
  | @waiting level from_low stored under alone =>
    by_cases here : level = l
    · subst here
      have below : i / 2 ^ level = 2 * j := by omega
      have grown : siblings hash leaf n i level ++ [h] = siblings hash leaf n i (level + 1) := by
        rw [siblings_succ, sibling_of_even below, right_of_lt there, own]
      rw [follow, if_pos stored, grown]
      exact Following.above ((halved _ below).trans (by omega))
    · have other : matchlevel ≠ some l := by simpa [stored] using fun same => here (Option.some.inj same)
      rw [follow, if_neg other]
      exact Following.waiting (by omega) stored under alone
  | ahead unread none_yet =>
    rw [follow, if_neg Bool.false_ne_true, if_neg (by simp [none_yet])]
    exact Following.ahead unread none_yet
end

variable {state : BranchState} {hash : UInt256 → UInt256 → UInt256} {leaf : Nat → UInt256} {n : Nat}
/-- Leaf `i` is still to come, or under the node at `matchlevel`. -/
def Kept (hash : UInt256 → UInt256 → UInt256) (leaf : Nat → UInt256) (n c i : Nat) (state : BranchState) : Prop :=
  (c ≤ i ∧ state.matchlevel = none ∧ state.pbranch = []) ∨
    ∃ level, state.matchlevel = some level ∧ i / 2 ^ level + 1 = c / 2 ^ level ∧ c / 2 ^ level % 2 = 1 ∧
      state.pbranch = siblings hash leaf n i level

lemma ascend_map {σ τ : Type} {count fuel level step step'} {f : σ → τ}
    (commutes : ∀ l s, f (step l s) = step' l (f s)) (s : σ) :
    (ascend count step fuel level s).map (fun r => (r.1, f r.2)) = ascend count step' fuel level (f s) := by
  induction fuel generalizing level s with
  | zero => rfl
  | succ fuel ih =>
    unfold ascend
    split
    · rfl
    · rw [ih, commutes]

lemma addBranchLeaf_map (branchpos state leaf) :
    (addBranchLeaf hash branchpos state leaf).map BranchState.toMerkleState = addLeaf hash state.toMerkleState leaf := by
  have same := @ascend_map _ _ ((state.count + 1) % 2 ^ 32) 32 0
    (fun level ((h, mutated), matchh, pbranch) =>
      ((hash (state.inner level) h, mutated || state.inner level == h), follow state.inner state.matchlevel level h matchh pbranch))
    (fun level s => (hash (state.inner level) s.1, s.2 || state.inner level == s.1)) Prod.fst (fun _ _ => rfl)
    ((leaf, state.mutated), state.count == branchpos, state.pbranch)
  unfold addBranchLeaf addLeaf
  dsimp only at same ⊢
  rw [← same]
  cases ascend _ _ 32 0 _ <;> rfl

lemma Kept.following {c i} (kept : Kept hash leaf n c i state) :
    Following hash leaf n c i 0 c 0 state.matchlevel (c == i) state.pbranch := by
  rcases kept with ⟨ahead, none_yet, empty⟩ | ⟨level, stored, under, alone, collected⟩
  · rw [empty]
    by_cases now : c = i
    · rw [beq_iff_eq.mpr now]
      exact Following.above (by rw [pow_zero, Nat.div_one, now])
    · rw [beq_eq_false_iff_ne.mpr now]
      exact Following.ahead (by omega) none_yet
  · have pre : c ≠ i := by
      rintro rfl
      omega
    rw [beq_eq_false_iff_ne.mpr pre, collected]
    exact Following.waiting (Nat.zero_le _) stored under alone

lemma Following.kept {c i t j matchh pbranch rest}
    (following : Following hash leaf n c i t (2 * j) t state.matchlevel matchh pbranch) (mult : c + 1 = 2 ^ t * (2 * j + 1)) :
    Kept hash leaf n (c + 1) i ⟨rest, if matchh then some t else state.matchlevel, pbranch⟩ := by
  have power := two_pow_pos t
  have quot : (c + 1) / 2 ^ t = 2 * j + 1 := by rw [mult, Nat.mul_div_cancel_left _ power]
  cases following with
  | above under =>
    right
    exact ⟨t, rfl, by rw [quot, under], by omega, rfl⟩
  | @waiting level from_low stored under alone =>
    have pre : c / 2 ^ t = 2 * j := by
      have next := Nat.succ_div_of_dvd ⟨_, mult⟩
      omega
    have higher : t < level := by grind
    have whole : (c + 1) / 2 ^ level = c / 2 ^ level := by
      apply Nat.succ_div_of_not_dvd
      intro divides
      have low := (pow_dvd_iff mult (by omega)).mp divides
      omega
    right
    exact ⟨_, stored, by rw [whole, under], by rw [whole, alone], rfl⟩
  | ahead unread none_yet =>
    left
    exact ⟨unread, none_yet, rfl⟩

def BranchClimbing (hash : UInt256 → UInt256 → UInt256) (leaf : Nat → UInt256) (n c i : Nat) (state : BranchState) (l : Nat)
    (s : (UInt256 × Bool) × Bool × List UInt256) : Prop :=
  Climbing hash leaf n c state.mutated l s.1 ∧
    ∀ j, c + 1 = 2 ^ l * (j + 1) → Following hash leaf n c i l j l state.matchlevel s.2.1 s.2.2

lemma BranchClimbing.up {c i l s}
    (streamed : Streamed hash leaf n c state.toMerkleState) (more : c < n) (bit : (c + 1).testBit l = false)
    (climbing : BranchClimbing hash leaf n c i state l s) :
    BranchClimbing hash leaf n c i state (l + 1)
      ((hash (state.inner l) s.1.1, s.1.2 || state.inner l == s.1.1), follow state.inner state.matchlevel l s.1.1 s.2.1 s.2.2) := by
  obtain ⟨climbing, following⟩ := climbing
  apply And.intro (climbing.up streamed more bit)
  intro j above
  have power := two_pow_pos l
  have mult : c + 1 = 2 ^ l * (2 * j + 1 + 1) := by
    rw [above]
    ring
  have cnt : c / 2 ^ l = 2 * j + 1 := by
    have next := Nat.succ_div_of_dvd ⟨_, mult⟩
    rw [mult, Nat.mul_div_cancel_left _ power] at next
    omega
  obtain ⟨k, index, own, -⟩ := climbing
  have same : k = 2 * j + 1 := by
    have := Nat.eq_of_mul_eq_mul_left power (index.symm.trans mult)
    omega
  rw [same] at own
  have there : (2 * j + 1) * 2 ^ l < n := by linarith
  exact (following _ mult).up (streamed.inner l j cnt) own there cnt

lemma addBranchLeaf_kept {c i} (streamed : Streamed hash leaf n c state.toMerkleState)
    (kept : Kept hash leaf n c i state) (more : c < n) (small : n < 2 ^ 32) :
    ∃ next, addBranchLeaf hash i state (leaf c) = some next ∧ Streamed hash leaf n (c + 1) next.toMerkleState ∧
      Kept hash leaf n (c + 1) i next := by
  have count : (state.count + 1) % 2 ^ 32 = c + 1 := by rw [streamed.count, Nat.mod_eq_of_lt (by omega)]
  have top : ∃ t, 0 ≤ t ∧ t < 0 + 32 ∧ (c + 1).testBit t = true := exists_bit (Nat.one_mul _).symm (by omega) le_rfl
  have start : BranchClimbing hash leaf n c i state 0 ((leaf c, state.mutated), state.count == i, state.pbranch) := by
    apply And.intro ⟨c, by omega, rfl, by simp⟩
    intro j mult
    rw [show j = c by omega, streamed.count]
    exact kept.following
  obtain ⟨t, ⟨⟨h, mutated⟩, matchh, pbranch⟩, done, -, bit, ⟨k, mult, -⟩, following⟩ := ascend_spec top start
    fun l s _ bit climbing => climbing.up streamed more bit
  have odd := (testBit_false_iff mult).not.mp (by rw [bit]; exact Bool.noConfusion)
  obtain ⟨j, rfl⟩ : ∃ j, k = 2 * j := ⟨k / 2, by omega⟩
  have added : addBranchLeaf hash i state (leaf c) =
      some ⟨⟨c + 1, Function.update state.inner t h, mutated⟩, if matchh then some t else state.matchlevel, pbranch⟩ := by
    unfold addBranchLeaf
    dsimp only
    rw [count, done]
    rfl
  obtain ⟨next, plain, streamed'⟩ := addLeaf_streamed streamed more small
  rw [← addBranchLeaf_map, added] at plain
  obtain rfl := Option.some.inj plain
  exact ⟨_, added, streamed', (following _ mult).kept mult⟩

lemma foldlM_kept {leaves pre rest i} (split : leaves = pre ++ rest)
    (streamed : Streamed hash (leafOf leaves) leaves.length pre.length state.toMerkleState)
    (kept : Kept hash (leafOf leaves) leaves.length pre.length i state) (small : leaves.length < 2 ^ 32) :
    ∃ final, rest.foldlM (addBranchLeaf hash i) state = some final ∧
      Streamed hash (leafOf leaves) leaves.length leaves.length final.toMerkleState ∧
      Kept hash (leafOf leaves) leaves.length leaves.length i final := by
  induction rest generalizing pre state with
  | nil =>
    rw [append_nil] at split
    rw [← split] at streamed kept
    exact ⟨_, rfl, streamed, kept⟩
  | cons leaf rest ih =>
    have more : pre.length < leaves.length := by simp [split]
    have here : leafOf leaves pre.length = leaf := by simp [split]
    obtain ⟨next, added, streamed', kept'⟩ := addBranchLeaf_kept streamed kept more small
    rw [here] at added
    have length : (pre ++ [leaf]).length = pre.length + 1 := by simp
    rw [← length] at streamed' kept'
    obtain ⟨final, done, complete⟩ := ih (by simp [split]) streamed' kept'
    rw [foldlM_cons, added]
    exact ⟨_, done, complete⟩

section
variable {hash : UInt256 → UInt256 → UInt256} {leaf : Nat → UInt256} {n i : Nat} {inner : Nat → UInt256}
  {matchlevel : Option Nat} {pbranch : List UInt256}
lemma Following.strict {l j low matchh}
    (following : Following hash leaf n n i l (2 * j) l matchlevel matchh pbranch) (even : n / 2 ^ l % 2 = 0) (high : low = l + 1) :
    Following hash leaf n n i l (2 * j) low matchlevel matchh pbranch := by
  cases following with
  | above under => exact Following.above under
  | @waiting level from_low stored under alone =>
    have other : level ≠ l := by
      rintro rfl
      omega
    exact Following.waiting (by omega) stored under alone
  | ahead unread none_yet => exact Following.ahead unread none_yet

lemma Following.double {level v matchh}
    (following : Following hash leaf n n i level (2 * v) (level + 1) matchlevel matchh pbranch) (last : n ≤ (2 * v + 1) * 2 ^ level) :
    Following hash leaf n n i (level + 1) v (level + 1) matchlevel matchh
      (if matchh then pbranch ++ [node hash leaf n level (2 * v)] else pbranch) := by
  cases following with
  | above under =>
    have grown : siblings hash leaf n i level ++ [node hash leaf n level (2 * v)] = siblings hash leaf n i (level + 1) := by
      rw [siblings_succ, sibling_of_even under, right_of_le last]
    rw [grown]
    apply Following.above
    rw [pow_succ, ← Nat.div_div_eq_div_mul, under, Nat.mul_div_cancel_left v two_pos]
  | waiting from_low stored under alone => exact Following.waiting from_low stored under alone
  | ahead unread none_yet => exact Following.ahead unread none_yet

lemma Following.collected {level j matchh}
    (following : Following hash leaf n n i level j (level + 1) matchlevel matchh pbranch) (ins : i < n) (top : n ≤ 2 ^ level) :
    pbranch = siblings hash leaf n i level := by
  cases following with
  | above => rfl
  | @waiting higher from_low stored under alone =>
    have wide : 2 ^ level < 2 ^ higher := Nat.pow_lt_pow_right one_lt_two (by omega)
    rw [Nat.div_eq_of_lt (by omega)] at alone
    cases alone
  | ahead unread none_yet => omega

def BranchRagged (hash : UInt256 → UInt256 → UInt256) (leaf : Nat → UInt256) (n i count : Nat) (matchlevel : Option Nat) (l : Nat)
    (s : UInt256 × Bool × List UInt256) : Prop :=
  Ragged hash leaf n count l s.1 ∧ ∀ j, count = 2 ^ l * (j + 1) → Following hash leaf n n i l j l matchlevel s.2.1 s.2.2

section
variable (alone : ∀ k i, n / 2 ^ k = 2 * i + 1 → inner k = node hash leaf n k (2 * i))
include alone

lemma BranchRagged.up {count l s} (bit : count.testBit l = false)
    (ragged : BranchRagged hash leaf n i count matchlevel l s) :
    BranchRagged hash leaf n i count matchlevel (l + 1) (hash (inner l) s.1, follow inner matchlevel l s.1 s.2.1 s.2.2) := by
  obtain ⟨ragged, following⟩ := ragged
  apply And.intro (ragged.up alone bit)
  intro j above
  have mult : count = 2 ^ l * (2 * j + 1 + 1) := by
    rw [above]
    ring
  obtain ⟨k, index, there, lacks, own, -⟩ := ragged
  obtain rfl : k = 2 * j + 1 := by
    have := Nat.eq_of_mul_eq_mul_left (two_pow_pos l) (index.symm.trans mult)
    omega
  have cnt : n / 2 ^ l = 2 * j + 1 := Nat.div_eq_of_lt_le there.le lacks
  exact (following _ mult).up (alone l j cnt) own there cnt

lemma sweepBranch_eq (small : n ≤ 2 ^ 31) (ins : i < n)
    {fuel level v matchh pbranch} (enough : 32 ≤ fuel + level) (there : 2 * v * 2 ^ level < n)
    (last : n ≤ (2 * v + 1) * 2 ^ level) (low : level ≤ clog 2 n)
    (following : Following hash leaf n n i level (2 * v) (level + 1) matchlevel matchh pbranch) :
    sweepBranch hash inner matchlevel fuel ((2 * v + 1) * 2 ^ level) level (node hash leaf n level (2 * v)) matchh pbranch =
      some (root hash leaf n, siblings hash leaf n i (clog 2 n)) := by
  have height : clog 2 n ≤ 31 := (Nat.clog_le_iff_le_pow one_lt_two).mpr small
  induction fuel generalizing level v matchh pbranch with
  | zero => omega
  | succ fuel ih =>
    unfold sweepBranch
    cases v with
    | zero =>
      have top : clog 2 n ≤ level := (Nat.clog_le_iff_le_pow one_lt_two).mpr (by simpa using last)
      obtain rfl : level = clog 2 n := by omega
      rw [if_pos (by simp), following.collected ins (by simpa using last)]
      rfl
    | succ v =>
      have rounded : (2 * (v + 1) + 1) * 2 ^ level + 2 ^ level = 2 ^ (level + 1) * (v + 1 + 1) := by ring
      have noOverflow := rounded_small there (Nat.succ_pos v) small
      have top := exists_bit rfl noOverflow (show 32 ≤ level + 1 + (31 - level) by omega)
      have start : BranchRagged hash leaf n i (2 ^ (level + 1) * (v + 1 + 1)) matchlevel (level + 1)
          (hash (node hash leaf n level (2 * (v + 1))) (node hash leaf n level (2 * (v + 1))), matchh,
            if matchh then pbranch ++ [node hash leaf n level (2 * (v + 1))] else pbranch) := by
        apply And.intro (Ragged.start there last (Nat.succ_pos v))
        intro j mult
        obtain rfl : v + 1 = j := by
          have := Nat.eq_of_mul_eq_mul_left (two_pow_pos _) mult
          omega
        exact following.double last
      obtain ⟨t, ⟨h, matchh', pbranch'⟩, done, above, bit, ⟨k, mult, there', lacks, own, low'⟩, following'⟩ := ascend_spec top start
        fun l s _ bit ragged => ragged.up alone bit
      obtain ⟨w, rfl⟩ : ∃ w, k = 2 * w := by
        have odd := (testBit_false_iff mult).not.mp (by simp [bit])
        exact ⟨k / 2, by omega⟩
      have wide : 2 ^ level ≤ (2 * (v + 1)) * 2 ^ level := Nat.le_mul_of_pos_left _ (by omega)
      have even : n / 2 ^ t = 2 * w := Nat.div_eq_of_lt_le there'.le lacks
      rw [if_neg (by linarith), rounded, Nat.mod_eq_of_lt noOverflow]
      dsimp only
      rw [done]
      rw [mult, Nat.mul_comm, show h = node _ _ n t _ from own]
      exact ih (by omega) there' lacks.le low' ((following' _ mult).strict (by omega) rfl)
end

lemma Kept.lowest {t v} (kept : Kept hash leaf n n i state) (ins : i < n) (mult : n = (2 * v + 1) * 2 ^ t) :
    Following hash leaf n n i t (2 * v) (t + 1) state.matchlevel (state.matchlevel == some t) state.pbranch := by
  have quot : n / 2 ^ t = 2 * v + 1 := by simp [mult]
  rcases kept with ⟨ahead, -⟩ | ⟨level, stored, under, alone, collected⟩
  · omega
  rw [collected, stored]
  by_cases here : level = t
  · subst here
    rw [beq_self_eq_true]
    exact Following.above (by omega)
  · have other : (some level == some t) = false := by simpa using here
    have higher : t < level := by
      by_contra lower
      -- below level `t` every node has its sibling
      obtain ⟨d, rfl⟩ : ∃ d, t = level + (d + 1) := ⟨t - level - 1, by omega⟩
      have even : n = 2 ^ level * (2 * (2 ^ d * (2 * v + 1))) := by
        rw [mult]
        ring
      rw [even, Nat.mul_div_cancel_left _ (two_pow_pos _)] at alone
      omega
    rw [other]
    exact Following.waiting higher rfl under alone
end

variable (hash : UInt256 → UInt256 → UInt256) {leaves : List UInt256} {i : Nat}
lemma merkleComputation_spec (small : leaves.length ≤ 2 ^ 31) (ins : i < leaves.length) : ∃ mutated, merkleComputation hash leaves i =
        some (root hash (leafOf leaves) leaves.length, mutated, siblings hash (leafOf leaves) leaves.length i (clog 2 leaves.length)) ∧
      (mutated = true ↔ FullTwins hash (leafOf leaves) leaves.length) := by
  have ne : leaves ≠ [] := ne_nil_of_length_pos (by omega)
  have start : Streamed hash (leafOf leaves) leaves.length ([] : List UInt256).length ⟨0, fun _ => 0, false⟩ := streamed_start
  have kept : Kept hash (leafOf leaves) leaves.length ([] : List UInt256).length i ⟨⟨0, fun _ => 0, false⟩, none, []⟩ :=
    Or.inl ⟨Nat.zero_le i, rfl, rfl⟩
  obtain ⟨state, folded, streamed, kept⟩ := foldlM_kept (nil_append _).symm start kept (by omega)
  obtain ⟨t, v, lowest, count, alone, low⟩ := streamed.lowest (by omega) (by omega)
  have power := two_pow_pos t
  have swept : sweepBranch hash state.inner state.matchlevel 32 ((2 * v + 1) * 2 ^ t) t (node hash (leafOf leaves) leaves.length t (2 * v))
      (state.matchlevel == some t) state.pbranch = _ :=
    sweepBranch_eq streamed.inner small ins (by omega) (by linarith) (by linarith) low (kept.lowest ins count.symm)
  rw [count, ← alone] at swept
  refine ⟨_, ?_, streamed.mutated⟩
  unfold merkleComputation
  rw [if_neg (by simpa using ne), folded]
  change (ascend _ _ 32 0 ()).bind _ = _
  rw [lowest, streamed.count]
  change (sweepBranch _ _ _ 32 _ t _ _ _).bind _ = _
  rw [swept]
  rfl

variable {hash}
lemma foldl_siblings {leaf n i} (ins : i < n) (k) :
    (siblings hash leaf n i k).foldl (fun (h, nIndex) it => (if nIndex % 2 = 1 then hash it h else hash h it, nIndex / 2))
      (leaf i, i) =
      (node hash leaf n k (i / 2 ^ k), i / 2 ^ k) := by
  induction k with
  | zero =>
    rw [pow_zero, Nat.div_one]
    rfl
  | succ k ih =>
    have there : i / 2 ^ k * 2 ^ k < n := (Nat.div_mul_le_self i _).trans_lt ins
    rw [siblings_succ, foldl_append, ih, pow_succ, ← Nat.div_div_eq_div_mul, node_half there]
    rfl

lemma computeMerkleRootFromBranch_eq (small : leaves.length ≤ 2 ^ 31) (ins : i < leaves.length) :
    ∃ branch, computeMerkleBranch hash leaves i = some branch ∧
      computeMerkleRootFromBranch hash (leafOf leaves i) branch i = root hash (leafOf leaves) leaves.length := by
  obtain ⟨mutated, comp, -⟩ := merkleComputation_spec _ small ins
  have top : i / 2 ^ clog 2 leaves.length = 0 := Nat.div_eq_of_lt (ins.trans_le (Nat.le_pow_clog one_lt_two _))
  refine ⟨siblings hash (leafOf leaves) leaves.length i (clog 2 leaves.length), ?_, ?_⟩
  · rw [computeMerkleBranch, comp]
    rfl
  · rw [computeMerkleRootFromBranch, foldl_siblings ins, top]
    rfl

variable (hash)
lemma foldlM_map (branchpos) (leaves : List UInt256) (state) :
    (leaves.foldlM (addBranchLeaf hash branchpos) state).map BranchState.toMerkleState =
      leaves.foldlM (addLeaf hash) state.toMerkleState := by
  induction leaves generalizing state with
  | nil => rfl
  | cons leaf leaves ih =>
    rw [foldlM_cons, foldlM_cons, ← addBranchLeaf_map branchpos]
    cases addBranchLeaf hash branchpos state leaf with
    | none => rfl
    | some next => exact ih next

lemma sweepBranch_map (inner matchlevel fuel count level h matchh pbranch) :
    (sweepBranch hash inner matchlevel fuel count level h matchh pbranch).map Prod.fst = sweep hash inner fuel count level h := by
  induction fuel generalizing count level h matchh pbranch with
  | zero => rfl
  | succ fuel ih =>
    unfold sweepBranch sweep
    split
    · rfl
    · have same := @ascend_map _ _ ((count + 2 ^ level) % 2 ^ 32) (31 - level) (level + 1)
        (fun level (h, matchh, pbranch) => (hash (inner level) h, follow inner matchlevel level h matchh pbranch))
        (fun level h => hash (inner level) h) Prod.fst (fun _ _ => rfl) (hash h h, matchh, if matchh then pbranch ++ [h] else pbranch)
      dsimp only at same ⊢
      rw [← same]
      cases ascend _ _ _ _ (hash h h, _) with
      | none => rfl
      | some risen => exact ih ..

/-- The root alone is computed as it is with a branch. -/
lemma merkleComputation_map (leaves) (branchpos : Nat) :
    (merkleComputation hash leaves branchpos).map (fun res => (res.1, res.2.1)) = computeMerkleRoot hash leaves := by
  unfold merkleComputation computeMerkleRoot
  split
  · rfl
  · have folded := foldlM_map hash branchpos leaves ⟨⟨0, fun _ => 0, false⟩, none, []⟩
    rw [← folded]
    cases leaves.foldlM (addBranchLeaf hash branchpos) _ with
    | none => rfl
    | some state =>
      change Option.map _ ((ascend state.count _ 32 0 ()).bind _) = (ascend state.count _ 32 0 ()).bind _
      cases ascend state.count _ 32 0 () with
      | none => rfl
      | some lowest =>
        have swept := sweepBranch_map hash state.inner state.matchlevel 32 state.count lowest.1 (state.inner lowest.1)
          (state.matchlevel == some lowest.1) state.pbranch
        change Option.map _ ((sweepBranch _ _ _ _ _ _ _ _ _).bind _) = (sweep _ _ _ _ _ _).bind _
        rw [← swept]
        cases sweepBranch _ _ _ _ _ _ _ _ _ <;> rfl

/-- The root of the tree, and whether two full siblings are equal. -/
lemma computeMerkleRoot_spec (ne : leaves ≠ []) (small : leaves.length ≤ 2 ^ 31) :
    ∃ mutated, computeMerkleRoot hash leaves = some (root hash (leafOf leaves) leaves.length, mutated) ∧
      (mutated = true ↔ FullTwins hash (leafOf leaves) leaves.length) := by
  obtain ⟨mutated, comp, twins⟩ := merkleComputation_spec hash small (length_pos_iff.mpr ne)
  refine ⟨mutated, ?_, twins⟩
  rw [← merkleComputation_map hash leaves 0, comp]
  rfl

abbrev merklePairs (leaves : List UInt256) : List (UInt256 × UInt256) := pairs hash (leafOf leaves) leaves.length

variable {hash}
lemma eq_of_computeMerkleRoot_eq {first snd top} (ne : first ≠ []) (nonempty' : snd ≠ [])
    (short : first.length < 2 ^ 31) (short' : snd.length < 2 ^ 31)
    (free : CollisionFree hash (merklePairs hash first ++ merklePairs hash snd) (first ++ snd))
    (computes : computeMerkleRoot hash first = some (top, false)) (computes' : computeMerkleRoot hash snd = some (top, false)) :
    first = snd := by
  have pos : 0 < first.length := length_pos_iff.mpr ne
  have positive' : 0 < snd.length := length_pos_iff.mpr nonempty'
  have mem : leafOf first 0 ∈ first ++ snd := by
    rw [leafOf_eq pos]
    exact mem_append_left _ (getElem_mem _)
  have mem' : leafOf snd 0 ∈ first ++ snd := by
    rw [leafOf_eq positive']
    exact mem_append_right _ (getElem_mem _)
  obtain ⟨mutated, comp, twins⟩ := computeMerkleRoot_spec _ ne short.le
  obtain ⟨mutated', computed', twins'⟩ := computeMerkleRoot_spec _ nonempty' short'.le
  obtain ⟨rfl, rfl⟩ := Prod.mk.inj (Option.some.inj (computes.symm.trans comp))
  obtain ⟨same, rfl⟩ := Prod.mk.inj (Option.some.inj (computes'.symm.trans computed'))
  have single : ¬ FullTwins hash (leafOf first) first.length := by simpa using twins
  have single' : ¬ FullTwins hash (leafOf snd) snd.length := by simpa using twins'
  obtain ⟨length, equal⟩ := leaves_eq_of_root_eq free (subset_append_left _ _) (subset_append_right _ _) mem mem'
    pos positive' single single' same
  apply ext_getElem length
  intro j ins ins'
  rw [← leafOf_eq, ← leafOf_eq]
  exact equal j ins

variable (hash) in
/-- Without collisions, and ids among the inner hashes, an unmutated root stands for one list of ids. -/
theorem merkleRoot_determines_leaves (first second : List UInt256) (nonempty : first ≠ []) (nonempty' : second ≠ [])
    (short : first.length < 2 ^ 31) (short' : second.length < 2 ^ 31)
    (free : CollisionFree hash (merklePairs hash first ++ merklePairs hash second) (first ++ second)) :
    ∃ root mutated root' mutated', computeMerkleRoot hash first = some (root, mutated) ∧
      computeMerkleRoot hash second = some (root', mutated') ∧
      (root = root' → mutated = false → mutated' = false → first = second) := by
  obtain ⟨mutated, computed, -⟩ := computeMerkleRoot_spec hash nonempty short.le
  obtain ⟨mutated', computed', -⟩ := computeMerkleRoot_spec hash nonempty' short'.le
  refine ⟨_, mutated, _, mutated', computed, computed', ?_⟩
  intro same unmutated unmutated'
  rw [unmutated] at computed
  rw [unmutated', ← same] at computed'
  exact eq_of_computeMerkleRoot_eq nonempty nonempty' short short' free computed computed'

def sampleHash (left right : UInt256) : UInt256 := 16 * left + right + 16

/-- The list that repeats the last transaction has the same root, and is reported. -/
theorem merkleRoot_of_repeated :
    computeMerkleRoot sampleHash [1, 2, 3] = some (627, false) ∧ computeMerkleRoot sampleHash [1, 2, 3, 3] = some (627, true) ∧
    ∃ root mutated root' mutated', computeMerkleRoot sampleHash [1, 2, 3] = some (root, mutated) ∧
      computeMerkleRoot sampleHash [1, 2, 3, 3] = some (root', mutated') ∧
      (root = root' → mutated = false → mutated' = false → ([1, 2, 3] : List UInt256) = [1, 2, 3, 3]) := by
  refine ⟨by decide +kernel, by decide +kernel, ?_⟩
  apply merkleRoot_determines_leaves sampleHash [1, 2, 3] [1, 2, 3, 3] (by simp) (by simp) (by decide) (by decide)
  decide +kernel

end Peony
