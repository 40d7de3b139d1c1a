import Peony.Library.Limbs
import Peony.Primitives.Transaction

namespace Peony

namespace BaseUint
open List Nat
open BitVec (ofNat eq_of_toNat_eq toNat_mul toNat_inj)
variable {WIDTH : Nat} (x : BitVec (32 * WIDTH))
/-- The array `pn` of a number, and the number of an array. -/
def limbs : List Nat := Nat.digitsAppend (2 ^ 32) WIDTH x.toNat

def ofLimbs (WIDTH : Nat) (pn : List Nat) : BitVec (32 * WIDTH) := ofNat (32 * WIDTH) (Nat.ofDigits (2 ^ 32) pn)

def shiftLeft (shift : Nat) : BitVec (32 * WIDTH) :=
  let k := shift / 32
  ofLimbs WIDTH (replicate (min k WIDTH) 0 ++ Limbs.shiftLeft 32 (shift % 32) (limbs x) (replicate (WIDTH - k) 0))

def shiftRight (shift : Nat) : BitVec (32 * WIDTH) :=
  let k := shift / 32
  ofLimbs WIDTH (match (limbs x).drop k with
    | [] => replicate WIDTH 0
    | word :: words => Limbs.shiftRight 32 (shift % 32) (word >>> (shift % 32)) words ++ replicate k 0)

def mulUInt32 (b32 : BitVec 32) : BitVec (32 * WIDTH) :=
  ofLimbs WIDTH (Limbs.mulWord (2 ^ 32) b32.toNat 0 (limbs x))

variable (a b : BitVec (32 * WIDTH))
def mul : BitVec (32 * WIDTH) :=
  ofLimbs WIDTH (Limbs.mulRows (2 ^ 32) (limbs b) (limbs a) (replicate WIDTH 0))

/-- The inner loop of `operator*=` for `b` the object itself: `b.pn[i]` is read from the array that the loop writes. -/
def mulRowThis (word j : Nat) (pn : List Nat) : List Nat :=
  ((range (pn.length - j)).foldl (fun state i =>
    let n := (state.2 + state.1.getD (i + j) 0 + word * state.1.getD i 0) % 2 ^ 64
    (state.1.set (i + j) (n % 2 ^ 32), n / 2 ^ 32)) (pn, 0)).1

def mulThis : BitVec (32 * WIDTH) :=
  ofLimbs WIDTH ((limbs a).zipIdx.foldl (fun pn entry => mulRowThis entry.1 entry.2 pn) (replicate WIDTH 0))

/-- What the parameter `const base_uint& b` refers to. -/
inductive Operand (WIDTH : Nat) where
  | object (b : BitVec (32 * WIDTH))
  | this

def Operand.value : Operand WIDTH → BitVec (32 * WIDTH)
  | .object b => b
  | .this => a

/-- The operator sets `*this` to zero before it reads `b`. -/
def mulAssign : Operand WIDTH → BitVec (32 * WIDTH)
  | .object b => mul a b
  | .this => mulThis a

def add : BitVec (32 * WIDTH) := ofLimbs WIDTH (Limbs.addRow (2 ^ 32) 1 0 (limbs a) (limbs b))
def neg (b : BitVec (32 * WIDTH)) : BitVec (32 * WIDTH) := ofLimbs WIDTH (Limbs.increment (2 ^ 32) ((limbs b).map (2 ^ 32 - 1 - ·)))

def compareTo : Ordering := Limbs.compareTo (limbs a) (limbs b)

def setBit (shift : Nat) : BitVec (32 * WIDTH) :=
  ofLimbs WIDTH ((limbs x).modify (shift / 32) (· ||| 1 <<< (shift % 32)))

/-- The loop of `operator/=`; `rounds` is `shift + 1`. -/
def divideLoop : (rounds : Nat) → (num div quotient : BitVec (32 * WIDTH)) → BitVec (32 * WIDTH)
  | 0, _, _, quotient => quotient
  | shift + 1, num, div, quotient =>
    if compareTo num div ≠ .lt then
      divideLoop shift (add num (neg div)) (shiftRight div 1) (setBit quotient shift)
    else divideLoop shift num (shiftRight div 1) quotient

section
variable (num div : BitVec (32 * WIDTH))
def divide : Except Failure (BitVec (32 * WIDTH)) :=
  let num_bits := Limbs.bits 32 (limbs num)
  let div_bits := Limbs.bits 32 (limbs div)
  if div_bits = 0 then .error (.runtimeError "Division by zero")
  else if num_bits < div_bits then .ok 0
  else .ok (divideLoop (num_bits - div_bits + 1) num (shiftLeft div (num_bits - div_bits)) 0)

lemma power_eq (n) : (2 ^ 32) ^ n = 2 ^ (32 * n) := (pow_mul ..).symm

lemma length_limbs : (limbs x).length = WIDTH :=
  length_digitsAppend (by decide) _ (by rw [power_eq]; exact x.isLt)

lemma limbs_lt : ∀ limb ∈ limbs x, limb < 2 ^ 32 :=
  fun _ mem => lt_of_mem_digitsAppend (by decide) _ _ mem

lemma ofDigits_limbs : Nat.ofDigits (2 ^ 32) (limbs x) = x.toNat := by
  unfold limbs Nat.digitsAppend
  rw [ofDigits_append_replicate_zero, ofDigits_digits]

lemma toNat_ofLimbs (pn) : (ofLimbs WIDTH pn).toNat = Nat.ofDigits (2 ^ 32) pn % 2 ^ (32 * WIDTH) := BitVec.toNat_ofNat ..
lemma shiftLeft_eq (shift) : shiftLeft x shift = x <<< shift := by
  have whole := Nat.div_add_mod shift 32
  apply eq_of_toNat_eq
  rw [shiftLeft, toNat_ofLimbs, BitVec.toNat_shiftLeft, Nat.shiftLeft_eq, Nat.ofDigits_append, Nat.ofDigits_replicate_zero,
    Nat.zero_add,
    length_replicate, power_eq]
  rcases Nat.lt_or_ge (shift / 32) WIDTH with ins | outside
  · obtain ⟨n, rest⟩ : ∃ n, WIDTH - shift / 32 = n + 1 := ⟨WIDTH - shift / 32 - 1, by omega⟩
    have room : n < (limbs x).length := by rw [length_limbs]; omega
    have power : 2 ^ (32 * WIDTH) = 2 ^ (32 * (shift / 32)) * 2 ^ (32 * (n + 1)) := by rw [← Nat.pow_add]; congr 1; omega
    have unit : 2 ^ (shift % 32) < 2 ^ 32 := Nat.pow_lt_pow_right (by decide) (Nat.mod_lt _ (by decide))
    have shifted : x.toNat * 2 ^ shift = 2 ^ (32 * (shift / 32)) * (2 ^ (shift % 32) * x.toNat) := by
      rw [← Nat.mul_assoc, ← Nat.pow_add, whole, Nat.mul_comm]
    rw [rest, replicate_succ, Limbs.shiftLeft_eq (Nat.mod_lt _ (by decide)) (Nat.two_pow_pos _) room (limbs_lt x),
      Limbs.ofDigits_mulWord unit (by decide) fun word mem => limbs_lt x word (mem_of_mem_take mem), Nat.zero_add,
      length_take, Nat.min_eq_left room, Nat.min_eq_left ins.le,
      ← Nat.ofDigits_mod_pow_eq_ofDigits_take _ (by decide) _ (limbs_lt x), ofDigits_limbs, power_eq, power, shifted,
      Nat.mul_mod_mul_left, Nat.mul_mod_mul_left, Nat.mod_mod, Nat.mul_mod_mod]
  · have none : WIDTH - shift / 32 = 0 := by omega
    have nothing : Limbs.shiftLeft 32 (shift % 32) (limbs x) [] = [] := by cases limbs x <;> rfl
    have mult : 2 ^ (32 * WIDTH) ∣ 2 ^ shift := Nat.pow_dvd_pow 2 (by omega)
    rw [none, replicate_zero, nothing, Nat.ofDigits_nil, Nat.mul_zero, Nat.zero_mod,
      Nat.mod_eq_zero_of_dvd (Nat.dvd_mul_left_of_dvd mult _)]

lemma shiftRight_eq (shift) : shiftRight x shift = x >>> shift := by
  have whole := Nat.div_add_mod shift 32
  have high : Nat.ofDigits (2 ^ 32) ((limbs x).drop (shift / 32)) = x.toNat / 2 ^ (32 * (shift / 32)) := by
    rw [← Nat.ofDigits_div_pow_eq_ofDigits_drop _ (by decide) _ (limbs_lt x), ofDigits_limbs, power_eq]
  have shifted : x.toNat / 2 ^ shift = x.toNat / 2 ^ (32 * (shift / 32)) / 2 ^ (shift % 32) := by
    rw [Nat.div_div_eq_div_mul, ← Nat.pow_add, whole]
  apply eq_of_toNat_eq
  rw [shiftRight, toNat_ofLimbs, BitVec.toNat_ushiftRight, Nat.shiftRight_eq_div_pow, shifted, ← high]
  have small : Nat.ofDigits (2 ^ 32) ((limbs x).drop (shift / 32)) / 2 ^ (shift % 32) < 2 ^ (32 * WIDTH) := by
    rw [high]
    exact lt_of_le_of_lt ((div_le_self ..).trans (div_le_self ..)) x.isLt
  have words : ∀ word ∈ (limbs x).drop (shift / 32), word < 2 ^ 32 := fun word mem => limbs_lt x word (mem_of_mem_drop mem)
  cases found : (limbs x).drop (shift / 32) with
  | nil => simp [ofDigits_replicate_zero]
  | cons word rest =>
    rw [found] at small words
    have low : shift % 32 < 32 := Nat.mod_lt _ (by decide)
    have power : 2 ^ 32 = 2 ^ (shift % 32) * 2 ^ (32 - shift % 32) := by rw [← Nat.pow_add, Nat.add_sub_cancel' low.le]
    have value : Nat.ofDigits (2 ^ 32) (Limbs.shiftRight 32 (shift % 32) (word >>> (shift % 32)) rest) =
        Nat.ofDigits (2 ^ 32) (word :: rest) / 2 ^ (shift % 32) := by
      rw [Limbs.ofDigits_shiftRight low _ fun other mem => words other (mem_cons_of_mem _ mem), Nat.ofDigits_cons,
        Nat.shiftRight_eq_div_pow]
      · generalize Nat.ofDigits (2 ^ 32) rest = above
        rw [power, Nat.mul_assoc, Nat.add_mul_div_left _ _ (Nat.two_pow_pos _)]
      · rw [Nat.shiftRight_eq_div_pow, Nat.div_lt_iff_lt_mul (Nat.two_pow_pos _), Nat.mul_comm, ← power]
        exact words word mem_cons_self
    dsimp only
    rw [Nat.ofDigits_append_replicate_zero, value, Nat.mod_eq_of_lt small]

lemma mulUInt32_toNat (b32) : (mulUInt32 x b32).toNat = x.toNat * b32.toNat % 2 ^ (32 * WIDTH) := by
  rw [mulUInt32, toNat_ofLimbs, Limbs.ofDigits_mulWord b32.isLt (by decide) (limbs_lt x), ofDigits_limbs, length_limbs,
    power_eq, zero_add,
    mod_mod, mul_comm]

lemma mul_eq : mul a b = a * b := by
  apply eq_of_toNat_eq
  rw [mul, toNat_ofLimbs, Limbs.ofDigits_mulRows, ofDigits_limbs, ofDigits_limbs, length_replicate,
    ofDigits_replicate_zero, zero_add, power_eq, mod_mod, toNat_mul]
  · rw [length_replicate, length_limbs]
  · rw [length_replicate, length_limbs]
  · exact limbs_lt a
  · intro word mem
    rw [eq_of_mem_replicate mem]
    decide
  · exact limbs_lt b

lemma mulRowThis_zeros (word j : Nat) : mulRowThis word j (replicate WIDTH 0) = replicate WIDTH 0 := by
  have zeros : ∀ i, (replicate WIDTH 0).getD i 0 = 0 := by
    intro i
    rw [getD_eq_getElem?_getD, getElem?_replicate]
    split <;> rfl
  -- a round that reads zeros and has no carry writes a zero and carries nothing
  have loop : ∀ rounds : List Nat, rounds.foldl (fun (state : List Nat × Nat) i =>
      let n := (state.2 + state.1.getD (i + j) 0 + word * state.1.getD i 0) % 2 ^ 64
      (state.1.set (i + j) (n % 2 ^ 32), n / 2 ^ 32)) (replicate WIDTH 0, 0) = (replicate WIDTH 0, 0) := by
    intro rounds
    induction rounds with
    | nil => rfl
    | cons i rounds ih =>
      rw [foldl_cons]
      simp only [zeros, Nat.mul_zero, Nat.add_zero, Nat.zero_mod, Nat.zero_div, set_replicate_self]
      exact ih
  unfold mulRowThis
  rw [loop]

lemma mulThis_eq : mulThis a = 0 := by
  have rows : ∀ entries : List (Nat × Nat),
      entries.foldl (fun pn entry => mulRowThis entry.1 entry.2 pn) (replicate WIDTH 0) = replicate WIDTH 0 := by
    intro entries
    induction entries with
    | nil => rfl
    | cons entry entries ih => rw [foldl_cons, mulRowThis_zeros, ih]
  rw [mulThis, rows, ofLimbs, ofDigits_replicate_zero]
  rfl

lemma mulAssign_iff (operand : Operand WIDTH) :
    (mulAssign a operand).toNat = a.toNat * (operand.value a).toNat % 2 ^ (32 * WIDTH) ↔
      (operand = .this → a.toNat * a.toNat % 2 ^ (32 * WIDTH) = 0) := by
  cases operand with
  | object b => simp [mulAssign, Operand.value, mul_eq, toNat_mul]
  | this => simp [mulAssign, Operand.value, mulThis_eq, eq_comm]

lemma add_eq : add a b = a + b := by
  apply eq_of_toNat_eq
  rw [add, toNat_ofLimbs, Limbs.ofDigits_addRow (by decide) (by decide) (by rw [length_limbs, length_limbs])
    (limbs_lt a) (limbs_lt b), ofDigits_limbs, ofDigits_limbs, length_limbs, power_eq, mod_mod, BitVec.toNat_add, zero_add, one_mul]

lemma neg_eq (b : BitVec (32 * WIDTH)) : neg b = -b := by
  have complement := Limbs.ofDigits_complement (limbs_lt b)
  rw [ofDigits_limbs, length_limbs, power_eq] at complement
  apply eq_of_toNat_eq
  rw [neg, toNat_ofLimbs, Limbs.ofDigits_increment, length_map, length_limbs, power_eq, mod_mod, BitVec.toNat_neg]
  · congr 1
    omega
  · intro word mem
    obtain ⟨limb, _, rfl⟩ := mem_map.mp mem
    omega

lemma setBit_eq {shift} (ins : shift < 32 * WIDTH) : setBit x shift = x ||| BitVec.twoPow (32 * WIDTH) shift := by
  have bit : 1 <<< (shift % 32) < 2 ^ 32 := by
    rw [Nat.one_shiftLeft]
    exact Nat.pow_lt_pow_right (by decide) (Nat.mod_lt _ (by decide))
  have words : ∀ word ∈ (limbs x).modify (shift / 32) (· ||| 1 <<< (shift % 32)), word < 2 ^ 32 := by
    intro word mem
    obtain ⟨j, found⟩ := mem_iff_getElem?.mp mem
    rw [getElem?_modify] at found
    obtain ⟨limb, own, rfl⟩ := Option.map_eq_some_iff.mp found
    have small := limbs_lt x _ (mem_of_getElem? own)
    split
    · exact or_lt_two_pow small bit
    · exact small
  have fits := ofDigits_lt_base_pow_length (by decide) words
  rw [length_modify, length_limbs, power_eq] at fits
  apply eq_of_toNat_eq
  rw [setBit, toNat_ofLimbs, mod_eq_of_lt fits, BitVec.toNat_or, BitVec.toNat_twoPow_of_lt ins, ← ofDigits_limbs x]
  apply eq_of_testBit_eq
  intro j
  rw [Limbs.testBit_ofDigits (by decide) words, testBit_or, Limbs.testBit_ofDigits (by decide) (limbs_lt x), getElem?_modify,
    testBit_two_pow]
  obtain ⟨limb, own⟩ : ∃ limb, (limbs x)[shift / 32]? = some limb := ⟨_, getElem?_eq_getElem (by rw [length_limbs]; omega)⟩
  by_cases same : shift / 32 = j / 32
  · have exactly : shift = j ↔ shift % 32 = j % 32 := by omega
    simp [← same, own, testBit_or, one_shiftLeft, testBit_two_pow, exactly, -testBit_shiftLeft]
  · have apart : shift ≠ j := fun equal => same (by rw [equal])
    simp [same, apart]

lemma bits_eq : Limbs.bits 32 (limbs x) = Limbs.bitLength x := by
  rw [Limbs.bits_eq (by decide) (limbs_lt x), ofDigits_limbs, Limbs.bitLength]
  simp [← toNat_inj]

lemma not_lt_iff (a b : BitVec (32 * WIDTH)) : compareTo a b ≠ .lt ↔ b ≤ a := by
  rw [compareTo, Limbs.compareTo_eq (by rw [length_limbs, length_limbs]) (limbs_lt a) (limbs_lt b), ofDigits_limbs,
    ofDigits_limbs, Ne,
    Nat.compare_eq_lt, Nat.not_lt]
  rfl

lemma divideLoop_eq {rounds} (ins : rounds ≤ 32 * WIDTH) (num div quot : BitVec (32 * WIDTH)) :
    divideLoop rounds num div quot = Limbs.divideBits rounds num div quot := by
  induction rounds generalizing num div quot with
  | zero => rfl
  | succ shift ih =>
    have rest := ih (le_of_succ_le ins)
    simp only [divideLoop, Limbs.divideBits, not_lt_iff, rest, shiftRight_eq, add_eq, neg_eq, setBit_eq _ ins,
      ← BitVec.sub_eq_add_neg]

lemma divide_eq : divide num div = if div = 0 then .error (.runtimeError "Division by zero") else .ok (num / div) := by
  have exact := @Limbs.divide_eq _ num div
  have long := Limbs.bitLength_le num
  unfold Limbs.divide at exact
  simp only [divide, bits_eq, shiftLeft_eq]
  by_cases zero : div = 0
  · simp [zero, Limbs.bitLength]
  · have leads := Limbs.bitLength_pos zero
    have value := exact zero
    rw [if_neg leads.ne'] at value ⊢
    rw [if_neg zero]
    split at value
    · next short => simpa [short] using value
    · next long =>
      rw [if_neg long, divideLoop_eq (by omega)]
      simpa using value
end

/-- The operations are those of numbers below `2 ^ BITS`, for every width; only `x *= x` is zero. -/
theorem baseUint_arithmetic (a b : BitVec (32 * WIDTH)) (operand : Operand WIDTH) (b32 : BitVec 32) (shift : Nat) :
    (divide a b).map BitVec.toNat =
        (if b.toNat = 0 then .error (.runtimeError "Division by zero") else .ok (a.toNat / b.toNat)) ∧
      ((mulAssign a operand).toNat = a.toNat * (operand.value a).toNat % 2 ^ (32 * WIDTH) ↔
        (operand = .this → a.toNat * a.toNat % 2 ^ (32 * WIDTH) = 0)) ∧
      (mulUInt32 a b32).toNat = a.toNat * b32.toNat % 2 ^ (32 * WIDTH) ∧
      (shiftLeft a shift).toNat = a.toNat * 2 ^ shift % 2 ^ (32 * WIDTH) ∧
      (shiftRight a shift).toNat = a.toNat / 2 ^ shift := by
  refine ⟨?_, mulAssign_iff a operand, mulUInt32_toNat a b32, ?_, ?_⟩
  · rw [divide_eq]
    by_cases zero : b = 0
    · simp [zero, Except.map]
    · simp [← toNat_inj, Except.map] at zero ⊢
      simp [zero]
  · rw [shiftLeft_eq, BitVec.toNat_shiftLeft, Nat.shiftLeft_eq]
  · rw [shiftRight_eq, BitVec.toNat_ushiftRight, Nat.shiftRight_eq_div_pow]

/-- Three, multiplied by itself, is zero. -/
theorem square_is_zero : (@mulAssign 8 3 .this).toNat = 0 ∧ ((3 : BitVec 256).toNat * (3 : BitVec 256).toNat) % 2 ^ 256 = 9 := by
  decide +kernel

end BaseUint

end Peony
