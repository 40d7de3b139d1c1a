import Peony.Library.MerkleTree
import Peony.Validation.CheckBlock

namespace Peony
open MerkleTree
open Nat (two_pow_pos clog)
variable (hash : UInt256 → UInt256 → UInt256)
def ascend {σ : Type} (count : Nat) (step : Nat → σ → σ) : (fuel level : Nat) → σ → Option (Nat × σ)
  | 0, _, _ => none
  | fuel + 1, level, s => if count.testBit level then some (level, s) else ascend count step fuel (level + 1) (step level s)

/-- The number of leaves, the hashes of the subtrees they fill, and whether equal hashes were combined. -/
structure MerkleState where
  count : Nat
  inner : Nat → UInt256
  mutated : Bool

def addLeaf (state : MerkleState) (leaf : UInt256) : Option MerkleState := do
  let count := (state.count + 1) % 2 ^ 32
  let (level, h, mutated) ← ascend count
    (fun level (h, mutated) => (hash (state.inner level) h, mutated || state.inner level == h)) 32 0 (leaf, state.mutated)
  return ⟨count, Function.update state.inner level h, mutated⟩

def sweep (inner : Nat → UInt256) : (fuel count level : Nat) → UInt256 → Option UInt256
  | 0, _, _, _ => none
  | fuel + 1, count, level, h =>
    if count = 2 ^ level then some h
    else do
      let count := (count + 2 ^ level) % 2 ^ 32
      let (level, h) ← ascend count (fun level h => hash (inner level) h) (31 - level) (level + 1) (hash h h)
      sweep inner fuel count level h

def computeMerkleRoot (leaves : List UInt256) : Option (UInt256 × Bool) :=
  if leaves.isEmpty then some (0, false)
  else do
    let state ← leaves.foldlM (addLeaf hash) ⟨0, fun _ => 0, false⟩
    let (level, _) ← ascend state.count (fun _ s => s) 32 0 ()
    let root ← sweep hash state.inner 32 state.count level (state.inner level)
    return (root, state.mutated)

section
variable {σ : Type} {count : Nat} {step : Nat → σ → σ}
lemma testBit_false_iff {i l} (mult : count = 2 ^ l * (i + 1)) : count.testBit l = false ↔ (i + 1) % 2 = 0 := by grind
lemma pow_dvd_iff {i t k} (mult : count = 2 ^ t * (i + 1)) (odd : (i + 1) % 2 = 1) : 2 ^ k ∣ count ↔ k ≤ t := by
  constructor
  · intro divides
    by_contra high
    have next : 2 ^ (t + 1) ∣ count := (Nat.pow_dvd_pow 2 (Nat.lt_of_not_le high)).trans divides
    rw [mult] at next
    have even := Nat.dvd_of_mul_dvd_mul_left (two_pow_pos t) next
    omega
  · intro low
    exact (Nat.pow_dvd_pow 2 low).trans ⟨_, mult⟩

lemma exists_bit {i level fuel} (mult : count = 2 ^ level * (i + 1)) (small : count < 2 ^ 32) (enough : 32 ≤ level + fuel) :
    ∃ t, level ≤ t ∧ t < level + fuel ∧ count.testBit t = true := by
  obtain ⟨t, bit⟩ := Nat.exists_testBit_of_ne_zero (Nat.succ_ne_zero i)
  have here : count.testBit (level + t) = true := by
    rw [mult, Nat.testBit_two_pow_mul]
    simp [bit]
  apply Exists.intro _
  refine ⟨Nat.le_add_right _ _, lt_of_lt_of_le ?_ enough, here⟩
  by_contra high
  rw [Nat.testBit_lt_two_pow (small.trans_le (Nat.pow_le_pow_right (by decide) (Nat.le_of_not_lt high)))] at here
  cases here

lemma ascend_spec {holds : Nat → σ → Prop} {fuel level} {s : σ} (top : ∃ t, level ≤ t ∧ t < level + fuel ∧ count.testBit t = true)
    (start : holds level s) (up : ∀ l s, level ≤ l → count.testBit l = false → holds l s → holds (l + 1) (step l s)) :
    ∃ t s', ascend count step fuel level s = some (t, s') ∧ level ≤ t ∧ count.testBit t = true ∧ holds t s' := by
  induction fuel generalizing level s with
  | zero =>
    omega
  | succ fuel ih =>
    unfold ascend
    cases bit : count.testBit _ with
    | true => exact ⟨_, s, rfl, le_rfl, bit, start⟩
    | false =>
      obtain ⟨t, low, high, set⟩ := top
      have above : level ≠ t := by
        rintro rfl
        rw [bit] at set
        cases set
      obtain ⟨t', s', done, low', set', held⟩ := ih ⟨t, by omega, by omega, set⟩ (up _ s le_rfl bit start)
        fun l s low => up l s (by omega)
      exact ⟨t', s', done, by omega, set', held⟩
end

variable {hash : UInt256 → UInt256 → UInt256} {leaf : Nat → UInt256} {n : Nat}
/-- After `c` leaves: the nodes without a right sibling yet are in `inner`. -/
structure Streamed (hash : UInt256 → UInt256 → UInt256) (leaf : Nat → UInt256) (n c : Nat) (state : MerkleState) : Prop where
  count : state.count = c
  inner : ∀ k i, c / 2 ^ k = 2 * i + 1 → state.inner k = node hash leaf n k (2 * i)
  mutated : state.mutated = true ↔ ∃ k j, (2 * j + 2) * 2 ^ k ≤ c ∧ node hash leaf n k (2 * j) = node hash leaf n k (2 * j + 1)

lemma streamed_start : Streamed hash leaf n 0 ⟨0, fun _ => 0, false⟩ := by
  constructor
  · rfl
  · intro k i odd
    rw [Nat.zero_div] at odd
    cases odd
  · simp

lemma node_of_full {k i} (full : (2 * i + 2) * 2 ^ k ≤ n) :
    node hash leaf n (k + 1) i = hash (node hash leaf n k (2 * i)) (node hash leaf n k (2 * i + 1)) := by
  rw [node_succ, right_of_lt]
  have pos := two_pow_pos k
  linarith

def Climbing (hash : UInt256 → UInt256 → UInt256) (leaf : Nat → UInt256) (n c : Nat) (mutated : Bool) (l : Nat)
    (s : UInt256 × Bool) : Prop :=
  ∃ i, c + 1 = 2 ^ l * (i + 1) ∧ s.1 = node hash leaf n l i ∧ (s.2 = true ↔ mutated = true ∨
    ∃ k < l, ∃ j, (2 * j + 2) * 2 ^ k = c + 1 ∧ node hash leaf n k (2 * j) = node hash leaf n k (2 * j + 1))

variable {state : MerkleState}
lemma Climbing.up {c l s} (streamed : Streamed hash leaf n c state) (more : c < n)
    (bit : (c + 1).testBit l = false) (climbing : Climbing hash leaf n c state.mutated l s) :
    Climbing hash leaf n c state.mutated (l + 1) (hash (state.inner l) s.1, s.2 || state.inner l == s.1) := by
  obtain ⟨i, mult, own, twins⟩ := climbing
  obtain ⟨j, rfl⟩ : ∃ j, i = 2 * j + 1 := ⟨i / 2, by have := (testBit_false_iff mult).mp bit; omega⟩
  have divided := Nat.succ_div_of_dvd ⟨_, mult⟩
  rw [mult, Nat.mul_div_cancel_left _ (two_pow_pos l)] at divided
  have sibling := streamed.inner l j (by omega)
  have complete : (2 * j + 2) * 2 ^ l = c + 1 := by
    rw [mult]
    ring
  refine ⟨j, ?_, ?_, ?_⟩
  · rw [mult]
    ring
  · rw [node_of_full (by omega), sibling, own]
  · rw [Bool.or_eq_true, twins, or_assoc, beq_iff_eq, sibling, own]
    apply or_congr_right
    constructor
    · grind
    · intro seen
      obtain ⟨k, low, j', here, same⟩ := seen
      by_cases last : k = l
      · subst last
        have index : j' = j := by
          have := Nat.eq_of_mul_eq_mul_right (two_pow_pos k) (here.trans complete.symm)
          omega
        exact .inr (index ▸ same)
      · exact .inl ⟨k, by omega, j', here, same⟩

lemma addLeaf_streamed {c : Nat} (streamed : Streamed hash leaf n c state) (more : c < n) (small : n < 2 ^ 32) :
    ∃ next, addLeaf hash state (leaf c) = some next ∧ Streamed hash leaf n (c + 1) next := by
  have count : (state.count + 1) % 2 ^ 32 = c + 1 := by rw [streamed.count, Nat.mod_eq_of_lt (by omega)]
  have top : ∃ t, 0 ≤ t ∧ t < 0 + 32 ∧ (c + 1).testBit t = true := exists_bit (Nat.one_mul _).symm (by omega) le_rfl
  have start : Climbing hash leaf n c state.mutated 0 (leaf c, state.mutated) := ⟨c, by omega, rfl, by simp⟩
  obtain ⟨t, ⟨h, mutated⟩, done, -, bit, i, mult, own, twins⟩ := ascend_spec top start
    fun l s _ bit climbing => climbing.up streamed more bit
  have odd : (i + 1) % 2 = 1 := by
    have set := (testBit_false_iff mult).not.mp (by rw [bit]; exact Bool.noConfusion)
    omega
  refine ⟨⟨_, Function.update state.inner t h, mutated⟩, ?_, rfl, ?_, ?_⟩
  · unfold addLeaf
    dsimp only
    rw [count, done]
    rfl
  · intro k j here
    dsimp only
    by_cases same : k = t
    · rw [same, mult, Nat.mul_div_cancel_left _ (two_pow_pos t)] at here
      rw [same, Function.update_self]
      have index : i = 2 * j := by omega
      rw [← index]
      exact own
    · rw [Function.update_of_ne same]
      apply streamed.inner
      by_cases divides : 2 ^ k ∣ c + 1
      · -- below level `t` every node has its sibling
        have low := (pow_dvd_iff mult odd).mp divides
        obtain ⟨m, even⟩ := (pow_dvd_iff (k := k + 1) mult odd).mpr (by omega)
        rw [even, Nat.pow_succ, Nat.mul_assoc, Nat.mul_div_cancel_left _ (two_pow_pos k)] at here
        omega
      · rw [← here]
        exact (Nat.succ_div_of_not_dvd divides).symm
  · rw [twins, streamed.mutated]
    constructor
    · intro seen
      rcases seen with ⟨k, j, pre, equal⟩ | ⟨k, -, j, now, equal⟩
      · exact ⟨k, j, by omega, equal⟩
      · exact ⟨k, j, now.le, equal⟩
    · intro seen
      obtain ⟨k, j, full, equal⟩ := seen
      by_cases pre : (2 * j + 2) * 2 ^ k ≤ c
      · exact .inl ⟨k, j, pre, equal⟩
      · have now : (2 * j + 2) * 2 ^ k = c + 1 := by omega
        have low : k + 1 ≤ t := by
          apply (pow_dvd_iff mult odd).mp
          apply Exists.intro (j + 1)
          rw [← now]
          ring
        exact .inr ⟨k, low, j, now, equal⟩

variable {hash : UInt256 → UInt256 → UInt256} {leaf : Nat → UInt256} {n : Nat} {inner : Nat → UInt256}
def Ragged (hash : UInt256 → UInt256 → UInt256) (leaf : Nat → UInt256) (n count l : Nat) (h : UInt256) : Prop :=
  ∃ i, count = 2 ^ l * (i + 1) ∧ i * 2 ^ l < n ∧ n < (i + 1) * 2 ^ l ∧ h = node hash leaf n l i ∧ l ≤ clog 2 n

lemma Ragged.up {count l h} (alone : ∀ k i, n / 2 ^ k = 2 * i + 1 → inner k = node hash leaf n k (2 * i))
    (bit : count.testBit l = false) (ragged : Ragged hash leaf n count l h) :
    Ragged hash leaf n count (l + 1) (hash (inner l) h) := by
  obtain ⟨i, mult, there, lacks, own, -⟩ := ragged
  obtain ⟨j, rfl⟩ : ∃ j, i = 2 * j + 1 := ⟨i / 2, by have := (testBit_false_iff mult).mp bit; omega⟩
  have sibling : inner l = node hash leaf n l (2 * j) := by
    apply alone
    exact Nat.div_eq_of_lt_le there.le lacks
  refine ⟨j, ?_, ?_, ?_, ?_, ?_⟩
  · rw [mult]
    ring
  · rw [Nat.pow_succ]
    linarith
  · rw [Nat.pow_succ]
    linarith
  · rw [node_succ, right_of_lt there, sibling, own]
  · have below : 2 ^ l < n := by linarith [Nat.zero_le (j * 2 ^ l)]
    exact (Nat.lt_clog_iff_pow_lt one_lt_two).mpr below

section
variable {level w : Nat} (there : 2 * w * 2 ^ level < n)
include there

lemma Ragged.start (last : n ≤ (2 * w + 1) * 2 ^ level) (ins : 0 < w) : Ragged hash leaf n (2 ^ (level + 1) * (w + 1)) (level + 1)
      (hash (node hash leaf n level (2 * w)) (node hash leaf n level (2 * w))) := by
  have wide : 2 ^ level ≤ w * 2 ^ level := Nat.le_mul_of_pos_left _ ins
  refine ⟨w, rfl, ?_, ?_, ?_, ?_⟩
  · grind
  · rw [Nat.pow_succ]
    linarith
  · rw [node_succ, right_of_le last]
  · have below : 2 ^ level < n := by linarith
    exact (Nat.lt_clog_iff_pow_lt one_lt_two).mpr below

lemma rounded_small (ins : 0 < w) (small : n ≤ 2 ^ 31) : 2 ^ (level + 1) * (w + 1) < 2 ^ 32 := by
  have wide : 2 ^ level ≤ w * 2 ^ level := Nat.le_mul_of_pos_left _ ins
  have short : 2 ^ (level + 1) < 2 ^ 31 := by grind
  have low : level + 1 < 31 := (Nat.pow_lt_pow_iff_right one_lt_two).mp short
  obtain ⟨e, split⟩ := Nat.exists_eq_add_of_lt low
  have power : 2 ^ 31 = 2 ^ (level + 1) * 2 ^ (e + 1) := by rw [← Nat.pow_add, split, Nat.add_assoc]
  have bound : 2 ^ (level + 1) * w < 2 ^ (level + 1) * 2 ^ (e + 1) := by grind
  have next : w + 1 ≤ 2 ^ (e + 1) := Nat.lt_of_mul_lt_mul_left bound
  calc 2 ^ (level + 1) * (w + 1) ≤ 2 ^ (level + 1) * 2 ^ (e + 1) := Nat.mul_le_mul_left _ next
    _ = 2 ^ 31 := power.symm
    _ < 2 ^ 32 := by decide
end

lemma ascend_lowest (pos : 0 < n) (small : n < 2 ^ 32) :
    ∃ t v, ascend n (fun _ s => s) 32 0 () = some (t, ()) ∧ n = 2 ^ t * (2 * v + 1) := by
  have first : ∃ i, n = 2 ^ 0 * (i + 1) := ⟨n - 1, by omega⟩
  have top : ∃ t, 0 ≤ t ∧ t < 0 + 32 ∧ n.testBit t = true := by
    obtain ⟨i, mult⟩ := first
    exact exists_bit mult small le_rfl
  have up : ∀ (l : Nat) (_ : Unit), 0 ≤ l → n.testBit l = false → (∃ i, n = 2 ^ l * (i + 1)) → ∃ i, n = 2 ^ (l + 1) * (i + 1) := by
    rintro l - - bit ⟨i, mult⟩
    have even := (testBit_false_iff mult).mp bit
    obtain ⟨j, rfl⟩ : ∃ j, i = 2 * j + 1 := ⟨i / 2, by omega⟩
    apply Exists.intro j
    rw [mult]
    ring
  obtain ⟨t, _, done, -, bit, i, mult⟩ := @ascend_spec _ n _ _ 32 0 () top first up
  have odd := (testBit_false_iff mult).not.mp (by simp [bit])
  obtain ⟨v, rfl⟩ : ∃ v, i = 2 * v := ⟨i / 2, by omega⟩
  exact ⟨t, v, done, mult⟩

lemma Streamed.lowest {state} (streamed : Streamed hash leaf n n state) (pos : 0 < n) (small : n < 2 ^ 32) :
    ∃ t v, ascend state.count (fun _ s => s) 32 0 () = some (t, ()) ∧ (2 * v + 1) * 2 ^ t = n ∧
      state.inner t = node hash leaf n t (2 * v) ∧ t ≤ clog 2 n := by
  obtain ⟨t, v, lowest, mult⟩ := ascend_lowest pos small
  rw [← streamed.count] at lowest
  refine ⟨t, v, lowest, by rw [mult, Nat.mul_comm], ?_, ?_⟩
  · apply streamed.inner
    conv_lhs => rw [mult]
    exact Nat.mul_div_cancel_left _ (two_pow_pos t)
  · rw [← Nat.clog_pow 2 t one_lt_two]
    apply Nat.clog_mono_right
    rw [mult]
    exact Nat.le_mul_of_pos_right _ (Nat.succ_pos _)

abbrev leafOf (leaves : List UInt256) (j : Nat) : UInt256 := leaves.getD j 0

lemma leafOf_eq {leaves j} (ins : j < leaves.length) : leafOf leaves j = leaves[j] := by
  simp [leafOf, ins]

end Peony
