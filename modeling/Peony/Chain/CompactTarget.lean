import Mathlib.Data.Nat.Bitwise
import Peony.Primitives.ArithUint256

/-! The compact form of a target, `256 ^ (nSize - 3)` times a mantissa of 23 bits, and the work of a block. -/

namespace Peony
open Nat ArithUint256
open BitVec (toNat_ofNat eq_of_toNat_eq le_def ofNat toNat_add)

/-- `nWord` after the shift of `SetCompact`. -/
def compactWord (nCompact : Nat) : Nat :=
  if nCompact / 2 ^ 24 ≤ 3 then nCompact % 2 ^ 23 / 2 ^ (8 * (3 - nCompact / 2 ^ 24)) else nCompact % 2 ^ 23

def fNegative (nCompact : Nat) : Bool := compactWord nCompact != 0 && nCompact.testBit 23

def fOverflow (nCompact : Nat) : Bool :=
  let nSize := nCompact / 2 ^ 24
  let nWord := compactWord nCompact
  nWord != 0 && (decide (nSize > 34) || (decide (nWord > 0xff) && decide (nSize > 33)) || (decide (nWord > 0xffff) && decide (nSize > 32)))

/-- `GetCompact` on the words of the number, with its assertions. -/
def getCompactAsserted (n : UInt256) (fNegative : Bool) : Except Failure Nat :=
  let nSize := (Limbs.bits 32 (limbs n) + 7) / 8
  let nCompact :=
    if nSize ≤ 3 then (n.toNat % 2 ^ 64) <<< (8 * (3 - nSize)) % 2 ^ 64 % 2 ^ 32
    else (@BaseUint.shiftRight 8 n (8 * (nSize - 3))).toNat % 2 ^ 64 % 2 ^ 32
  let (nCompact, nSize) := if nCompact &&& 0x00800000 ≠ 0 then (nCompact >>> 8, nSize + 1) else (nCompact, nSize)
  if 2 ^ 23 ≤ nCompact then .error (.assertion "(nCompact & ~0x007fffff) == 0")
  else if 256 ≤ nSize then .error (.assertion "nSize < 256")
  else
    let nCompact := nCompact ||| (nSize <<< 24)
    .ok (if fNegative = true ∧ nCompact % 2 ^ 23 ≠ 0 then nCompact ||| 0x00800000 else nCompact)

variable (nCompact : Nat)
/-- The number that a compact form stands for, over the integers. -/
def compactValue : Nat := nCompact % 2 ^ 23 * 2 ^ (8 * (nCompact / 2 ^ 24)) / 2 ^ 24

lemma pow_small {size} (small : size ≤ 3) : 2 ^ 24 = 2 ^ (8 * (3 - size)) * 2 ^ (8 * size) := by
  rw [← pow_add]
  congr 1
  omega

lemma pow_large {size} (large : 3 ≤ size) : 2 ^ (8 * size) = 2 ^ (8 * (size - 3)) * 2 ^ 24 := by
  rw [← pow_add]
  congr 1
  omega

lemma compactValue_eq : compactValue nCompact =
    if nCompact / 2 ^ 24 ≤ 3 then compactWord nCompact else compactWord nCompact * 2 ^ (8 * (nCompact / 2 ^ 24 - 3)) := by
  unfold compactValue compactWord
  generalize nCompact % 2 ^ 23 = word, nCompact / 2 ^ 24 = size
  split
  · next small => rw [pow_small small, Nat.mul_div_mul_right _ _ (Nat.two_pow_pos _)]
  · next large => rw [pow_large (Nat.lt_of_not_le large).le, ← Nat.mul_assoc, Nat.mul_div_cancel _ (Nat.two_pow_pos _)]

lemma setCompact_toNat : (setCompact nCompact).toNat = compactValue nCompact % 2 ^ 256 := by
  rw [compactValue_eq, setCompact, compactWord]
  split
  · rw [toNat_ofNat]
  · rw [BitVec.toNat_shiftLeft, toNat_ofNat, shiftLeft_eq, mod_mul_mod]

lemma fOverflow_iff : fOverflow nCompact = true ↔ 2 ^ 256 ≤ compactValue nCompact := by
  have small : compactWord nCompact < 2 ^ 23 := by
    have low := Nat.mod_lt nCompact (Nat.two_pow_pos 23)
    unfold compactWord
    split
    · exact (Nat.div_le_self ..).trans_lt low
    · exact low
  rw [compactValue_eq]
  simp only [fOverflow, Bool.and_eq_true, bne_iff_ne, Bool.or_eq_true, decide_eq_true_eq]
  generalize compactWord nCompact = word at small
  generalize nCompact / 2 ^ 24 = size
  have bound : ∀ k, 2 ^ 256 ≤ word * 2 ^ (8 * (size - 3)) → 8 * (size - 3) ≤ k → 2 ^ 256 ≤ word * 2 ^ k :=
    fun k large le => large.trans (Nat.mul_le_mul_left _ (Nat.pow_le_pow_right (by decide) le))
  split
  · omega
  · rcases Nat.lt_or_ge size 33 with low | high
    · have below := fun large => bound 232 large (by omega)
      omega
    · rcases Nat.lt_or_ge size 35 with low | high
      · have cases : size = 33 ∨ size = 34 := by omega
        rcases cases with rfl | rfl <;> omega
      · rcases Nat.eq_zero_or_pos word with rfl | pos
        · simp
        · have above : 2 ^ 256 ≤ word * 2 ^ (8 * (size - 3)) :=
            (Nat.pow_le_pow_right (by decide) (by omega)).trans (Nat.le_mul_of_pos_left _ pos)
          omega

/-- The size that `GetCompact` ends with. -/
def compactExponent (x : UInt256) : Nat := if x = 0 then 0 else (x.toNat.log2 + 1) / 8 + 1

def compactMantissa (x : UInt256) : Nat := x.toNat * 2 ^ 24 / 2 ^ (8 * compactExponent x)

variable {x y : UInt256}
lemma le_compactExponent (nz : x ≠ 0) : 2 ^ (8 * compactExponent x) ≤ x.toNat * 2 ^ 9 := by
  have pos : x.toNat ≠ 0 := fun zero => nz (eq_of_toNat_eq zero)
  rw [compactExponent, if_neg nz]
  calc 2 ^ (8 * ((x.toNat.log2 + 1) / 8 + 1)) ≤ 2 ^ (x.toNat.log2 + 9) := Nat.pow_le_pow_right (by decide) (by omega)
    _ = 2 ^ x.toNat.log2 * 2 ^ 9 := Nat.pow_add ..
    _ ≤ x.toNat * 2 ^ 9 := Nat.mul_le_mul_right _ (Nat.log2_self_le pos)

lemma lt_compactExponent (nz : x ≠ 0) : x.toNat * 2 < 2 ^ (8 * compactExponent x) := by
  rw [compactExponent, if_neg nz]
  calc x.toNat * 2 < 2 ^ (x.toNat.log2 + 1) * 2 := Nat.mul_lt_mul_of_pos_right Nat.lt_log2_self (by decide)
    _ = 2 ^ (x.toNat.log2 + 2) := (Nat.pow_succ ..).symm
    _ ≤ _ := Nat.pow_le_pow_right (by decide) (by omega)

lemma exponent_le {e e'} (low : 2 ^ (8 * e) ≤ x.toNat * 2 ^ 9) (le : x.toNat ≤ y.toNat) (high : y.toNat * 2 < 2 ^ (8 * e')) :
    e ≤ e' := by
  have power : 2 ^ (8 * e) < 2 ^ (8 * e' + 8) := by
    rw [Nat.pow_add]
    omega
  have := (Nat.pow_lt_pow_iff_right (by decide)).mp power
  omega

lemma compactMantissa_lt (x) : compactMantissa x < 2 ^ 23 := by
  by_cases nz : x = 0
  · subst nz
    decide
  · have high := lt_compactExponent nz
    rw [compactMantissa, Nat.div_lt_iff_lt_mul (Nat.two_pow_pos _)]
    omega

lemma compactExponent_le (x) : compactExponent x ≤ 33 := by
  by_cases nz : x = 0
  · simp [compactExponent, nz]
  · have power : 2 ^ (8 * compactExponent x) < 2 ^ 265 := by
      have := le_compactExponent nz
      have := x.isLt
      omega
    have := (Nat.pow_lt_pow_iff_right (by decide)).mp power
    omega

lemma and_sign_ne_zero {n} (small : n < 2 ^ 24) : n &&& 0x00800000 ≠ 0 ↔ 2 ^ 23 ≤ n := by
  rw [show 0x00800000 = 2 ^ 23 by rfl, and_two_pow, testBit_eq_decide_div_mod_eq]
  simp
  omega

lemma shift_scaled (x size) :
    (if size ≤ 3 then x <<< (8 * (3 - size)) else x >>> (8 * (size - 3))) = x * 2 ^ 24 / 2 ^ (8 * size) := by
  split
  · next small => rw [pow_small small, ← Nat.mul_assoc, Nat.mul_div_cancel _ (Nat.two_pow_pos _), Nat.shiftLeft_eq]
  · next large => rw [pow_large (Nat.lt_of_not_le large).le, Nat.mul_div_mul_right _ _ (Nat.two_pow_pos _), Nat.shiftRight_eq_div_pow]

def byteSize (x : UInt256) : Nat := (Limbs.bitLength x + 7) / 8
def leadingBytes (x : UInt256) : Nat := x.toNat * 2 ^ 24 / 2 ^ (8 * byteSize x)

variable (x : UInt256)
lemma leadingBytes_lt : leadingBytes x < 2 ^ 24 := by
  rw [leadingBytes, Nat.div_lt_iff_lt_mul (Nat.two_pow_pos _), Nat.mul_comm, Nat.mul_lt_mul_left (by decide), byteSize,
    Limbs.bitLength]
  split
  · next zero => simp [zero]
  · exact Nat.lt_log2_self.trans_le (Nat.pow_le_pow_right (by decide) (by omega))

lemma normalize : (if leadingBytes x &&& 0x00800000 ≠ 0 then (leadingBytes x >>> 8, byteSize x + 1) else (leadingBytes x, byteSize x)) =
      (compactMantissa x, compactExponent x) := by
  by_cases nz : x = 0
  · subst nz
    decide
  have pos : x.toNat ≠ 0 := fun zero => nz (eq_of_toNat_eq zero)
  have bits : byteSize x = (x.toNat.log2 + 8) / 8 := by rw [byteSize, Limbs.bitLength, if_neg nz]
  have exponent : compactExponent x = (x.toNat.log2 + 1) / 8 + 1 := if_neg nz
  have sign := and_sign_ne_zero (leadingBytes_lt x)
  rw [leadingBytes, Nat.le_div_iff_mul_le (Nat.two_pow_pos _), ← leadingBytes] at sign
  rw [compactMantissa]
  by_cases full : (x.toNat.log2 + 1) % 8 = 0
  · have size : compactExponent x = byteSize x + 1 := by omega
    have top : 2 ^ (8 * byteSize x) = 2 ^ x.toNat.log2 * 2 := by rw [← Nat.pow_succ]; congr 1; omega
    have low := Nat.log2_self_le pos
    rw [if_pos (sign.mpr (by rw [top]; omega)), size, Nat.shiftRight_eq_div_pow, leadingBytes, Nat.div_div_eq_div_mul,
      ← Nat.pow_add, Nat.mul_succ]
  · have size : compactExponent x = byteSize x := by omega
    have high := lt_compactExponent nz
    rw [size] at high ⊢
    rw [if_neg (mt sign.mp (by omega)), leadingBytes]

lemma or_size {mantissa size} (small : mantissa < 2 ^ 23) : mantissa ||| (size <<< 24) = size * 2 ^ 24 + mantissa := by
  rw [Nat.or_comm, ← Nat.shiftLeft_add_eq_or_of_lt (by omega), Nat.shiftLeft_eq]

lemma getCompact_eq : getCompact x = compactExponent x * 2 ^ 24 + compactMantissa x := by
  have pair := congrArg (fun p : Nat × Nat => p.1 ||| (p.2 <<< 24)) (normalize x)
  rw [apply_ite (fun p : Nat × Nat => p.1 ||| (p.2 <<< 24))] at pair
  rw [← or_size (compactMantissa_lt x), ← pair]
  simp only [getCompact, shift_scaled, leadingBytes, byteSize, Limbs.bitLength]
  exact if_congr Iff.rfl rfl rfl

lemma getCompactAsserted_eq (fNegative) : getCompactAsserted x fNegative =
    .ok (if fNegative = true ∧ getCompact x % 2 ^ 23 ≠ 0 then getCompact x ||| 0x00800000 else getCompact x) := by
  have bits : (Limbs.bits 32 (limbs x) + 7) / 8 = byteSize x := congrArg (fun n => (n + 7) / 8) (@BaseUint.bits_eq 8 x)
  have word : (if byteSize x ≤ 3 then (x.toNat % 2 ^ 64) <<< (8 * (3 - byteSize x)) % 2 ^ 64 % 2 ^ 32
      else (@BaseUint.shiftRight 8 x (8 * (byteSize x - 3))).toNat % 2 ^ 64 % 2 ^ 32) = leadingBytes x := by
    -- no word is cut, since the leading bytes are at most three
    have small := leadingBytes_lt x
    rw [leadingBytes, ← shift_scaled] at small ⊢
    split at small
    · next le =>
      have grows := Nat.le_mul_of_pos_right x.toNat (Nat.two_pow_pos (8 * (3 - byteSize x)))
      rw [← Nat.shiftLeft_eq] at grows
      rw [if_pos le, if_pos le, Nat.mod_eq_of_lt (show x.toNat < 2 ^ 64 by omega), Nat.mod_mod_of_dvd _ (by decide),
        Nat.mod_eq_of_lt (by omega)]
    · next gt =>
      rw [if_neg gt, if_neg gt, BaseUint.shiftRight_eq, BitVec.toNat_ushiftRight, mod_mod_of_dvd _ (by decide),
        mod_eq_of_lt (by omega)]
  have mantissa := compactMantissa_lt x
  have exponent := compactExponent_le x
  simp only [getCompactAsserted, bits, word, normalize]
  rw [if_neg (by omega), if_neg (by omega), or_size mantissa, ← getCompact_eq]

/-- A mantissa with its first bytes in use, and none that the size cuts off. -/
def CanonicalCompact (c : Nat) : Prop :=
  c = 0 ∨ (c.testBit 23 = false ∧ 2 ^ 15 ≤ c % 2 ^ 24 ∧ (c / 2 ^ 24 < 3 → 2 ^ (8 * (3 - c / 2 ^ 24)) ∣ c % 2 ^ 24))

variable (x : UInt256)
lemma getCompact_size : getCompact x / 2 ^ 24 = compactExponent x := by
  have := compactMantissa_lt x
  rw [getCompact_eq]
  omega

lemma getCompact_mantissa : getCompact x % 2 ^ 23 = compactMantissa x := by
  have := compactMantissa_lt x
  rw [getCompact_eq]
  omega

lemma mantissa_scaled_le : compactMantissa x * 2 ^ (8 * compactExponent x) / 2 ^ 24 ≤ x.toNat :=
  Nat.div_le_of_le_mul (Nat.mul_comm (2 ^ 24) _ ▸ Nat.div_mul_le_self ..)

lemma setCompact_getCompact_toNat : (setCompact (getCompact x)).toNat = compactMantissa x * 2 ^ (8 * compactExponent x) / 2 ^ 24 := by
  rw [setCompact_toNat, compactValue, getCompact_size, getCompact_mantissa, Nat.mod_eq_of_lt ((mantissa_scaled_le x).trans_lt x.isLt)]

lemma setCompact_le_getCompact {c} (size : c / 2 ^ 24 = getCompact x / 2 ^ 24) (le : setCompact c ≤ x) :
    setCompact c ≤ setCompact (getCompact x) := by
  rw [getCompact_size] at size
  have exponent := compactExponent_le x
  rw [le_def] at le ⊢
  rw [setCompact_getCompact_toNat, compactMantissa]
  rcases lt_or_ge 3 (compactExponent x) with large | small
  · -- both are multiples of the same power, which divides the range of the words
    have power := pow_large large.le
    have unit : 2 ^ (8 * (compactExponent x - 3)) ∣ (setCompact c).toNat := by
      rw [setCompact_toNat, compactValue, size, power, ← Nat.mul_assoc, Nat.mul_div_cancel _ (Nat.two_pow_pos _)]
      exact (Nat.dvd_mod_iff (Nat.pow_dvd_pow 2 (by omega))).mpr (Nat.dvd_mul_left ..)
    obtain ⟨k, eq⟩ := unit
    rw [power, Nat.mul_div_mul_right _ _ (Nat.two_pow_pos _), ← Nat.mul_assoc, Nat.mul_div_cancel _ (Nat.two_pow_pos _), eq,
      Nat.mul_comm]
    rw [eq, Nat.mul_comm] at le
    exact Nat.mul_le_mul_right _ ((Nat.le_div_iff_mul_le (Nat.two_pow_pos _)).mpr le)
  · have unit : 2 ^ (8 * compactExponent x) ∣ x.toNat * 2 ^ 24 := pow_small small ▸ (Nat.dvd_mul_left ..).mul_left _
    rwa [Nat.div_mul_cancel unit, Nat.mul_div_cancel _ (Nat.two_pow_pos _)]

lemma getCompact_mono {x y} (le : x ≤ y) : getCompact x ≤ getCompact y := by
  by_cases nz : x = 0
  · subst nz
    exact zero_le _
  have nat : x.toNat ≤ y.toNat := le
  have pos : y ≠ 0 := by
    rintro rfl
    exact nz (eq_of_toNat_eq (le_zero.mp nat))
  have mantissa := compactMantissa_lt x
  rw [getCompact_eq, getCompact_eq]
  rcases Nat.lt_or_eq_of_le (exponent_le (le_compactExponent nz) nat (lt_compactExponent pos)) with lt | eq
  · omega
  · rw [compactMantissa, compactMantissa, eq]
    exact Nat.add_le_add_left (Nat.div_le_div_right (Nat.mul_le_mul_right _ nat)) _

lemma getCompact_setCompact {c} (canonical : CanonicalCompact c) (overflow : fOverflow c = false) :
    getCompact (setCompact c) = c := by
  obtain rfl | ⟨sign, top, cut⟩ := canonical
  · decide
  have ins : compactValue c < 2 ^ 256 := by
    rw [← not_le, ← fOverflow_iff, overflow]
    decide
  have low : c % 2 ^ 23 = c % 2 ^ 24 := by
    rw [testBit_eq_decide_div_mod_eq, decide_eq_false_iff_not] at sign
    omega
  -- the value is exact, so that it determines the mantissa
  have exact : (setCompact c).toNat * 2 ^ 24 = c % 2 ^ 23 * 2 ^ (8 * (c / 2 ^ 24)) := by
    rw [setCompact_toNat, Nat.mod_eq_of_lt ins, compactValue]
    refine Nat.div_mul_cancel ?_
    rcases Nat.lt_or_ge (c / 2 ^ 24) 3 with small | large
    · exact (dvd_of_eq (pow_small small.le)).trans (low ▸ Nat.mul_dvd_mul_right (cut small) _)
    · exact (Nat.pow_dvd_pow 2 (by omega)).mul_left _
  have word := Nat.mod_lt c (Nat.two_pow_pos 23)
  have range := Nat.mul_lt_mul_of_pos_right word (Nat.two_pow_pos (8 * (c / 2 ^ 24)))
  have above := Nat.mul_le_mul_right (2 ^ (8 * (c / 2 ^ 24))) (low ▸ top)
  have nz : setCompact c ≠ 0 := by
    intro zero
    rw [zero] at exact
    have := Nat.two_pow_pos (8 * (c / 2 ^ 24))
    have zero : (0 : UInt256).toNat = 0 := rfl
    omega
  have size : compactExponent (setCompact c) = c / 2 ^ 24 :=
    Nat.le_antisymm (exponent_le (le_compactExponent nz) (Nat.le_refl _) (by omega))
      (exponent_le (by omega) (Nat.le_refl _) (lt_compactExponent nz))
  rw [getCompact_eq, compactMantissa, size, exact, Nat.mul_div_cancel _ (Nat.two_pow_pos _), low]
  exact Nat.div_add_mod' ..

theorem compact_targets (x y : UInt256) (c : Nat) : setCompact (getCompact x) ≤ x ∧
    (∀ c', c' / 2 ^ 24 = getCompact x / 2 ^ 24 → setCompact c' ≤ x → setCompact c' ≤ setCompact (getCompact x)) ∧
    getCompact x % 2 ^ 23 = x.toNat * 2 ^ 24 / 2 ^ (8 * (getCompact x / 2 ^ 24)) ∧
    (x ≤ y → getCompact x ≤ getCompact y) ∧
    (CanonicalCompact c → fNegative c = false → fOverflow c = false → getCompact (setCompact c) = c) ∧
    (fOverflow c = true ↔ 2 ^ 256 ≤ compactValue c) ∧
    getCompactAsserted x false = .ok (getCompact x) ∧ ∀ fNegative, ∃ nCompact, getCompactAsserted x fNegative = .ok nCompact :=
  ⟨((setCompact_getCompact_toNat x).trans_le (mantissa_scaled_le x)), fun _ => setCompact_le_getCompact x,
    by rw [getCompact_mantissa, getCompact_size, compactMantissa],
    getCompact_mono, fun canonical _ => getCompact_setCompact canonical, fOverflow_iff c, by rw [getCompactAsserted_eq]; rfl,
    fun fNegative => ⟨_, getCompactAsserted_eq x fNegative⟩⟩

def getBlockProof (nBits : Nat) : Except Failure UInt256 :=
  let bnTarget := setCompact nBits
  if fNegative nBits || fOverflow nBits || bnTarget == 0 then .ok 0
  else (divide (~~~bnTarget) (bnTarget + 1)).map (· + 1)

def nChainWork (pprev : UInt256) (nBits : Nat) : Except Failure UInt256 := (getBlockProof nBits).map (pprev + ·)

/-- A positive target that does not overflow, as `SetCompact` reports it. -/
def ValidTarget (nBits : Nat) : Prop := fNegative nBits = false ∧ fOverflow nBits = false ∧ setCompact nBits ≠ 0

instance (nBits : Nat) : Decidable (ValidTarget nBits) := inferInstanceAs (Decidable (_ ∧ _ ∧ _))

def blockWork (nBits : Nat) : Nat := if ValidTarget nBits then 2 ^ 256 / (compactValue nBits + 1) else 0

variable {nBits : Nat}
section
variable (valid : ValidTarget nBits)
include valid

lemma ValidTarget.value : (setCompact nBits).toNat = compactValue nBits := by
  rw [setCompact_toNat, mod_eq_of_lt]
  rw [← not_le, ← fOverflow_iff, valid.2.1]
  decide

lemma ValidTarget.pos : 0 < compactValue nBits := by
  rw [← valid.value]
  exact Nat.pos_of_ne_zero fun zero => valid.2.2 (eq_of_toNat_eq zero)

lemma ValidTarget.succ_lt : compactValue nBits + 1 < 2 ^ 256 := by
  have ins := valid.value ▸ (setCompact nBits).isLt
  refine Nat.lt_of_le_of_ne ins fun full => ?_
  have word := Nat.mod_lt nBits (Nat.two_pow_pos 23)
  rcases Nat.lt_or_ge (nBits / 2 ^ 24) 4 with small | large
  · have : compactValue nBits ≤ nBits % 2 ^ 23 * 2 ^ (8 * 3) / 2 ^ 24 :=
      Nat.div_le_div_right (Nat.mul_le_mul_left _ (Nat.pow_le_pow_right (by decide) (by omega)))
    omega
  · have even : 2 ∣ compactValue nBits := by
      have power : 2 ^ (8 * (nBits / 2 ^ 24)) = 2 ^ (8 * (nBits / 2 ^ 24 - 4)) * (2 ^ 8 * 2 ^ 24) := by
        rw [← Nat.pow_add, ← Nat.pow_add]; congr 1; omega
      rw [compactValue, power, ← Nat.mul_assoc, ← Nat.mul_assoc, Nat.mul_div_cancel _ (Nat.two_pow_pos _)]
      exact (show 2 ∣ 2 ^ 8 by decide).mul_left _
    omega
end

lemma blockWork_lt (nBits) : blockWork nBits < 2 ^ 256 := by
  unfold blockWork
  split
  · next valid =>
    have := valid.pos
    exact div_lt_self (by decide) (by omega)
  · decide

lemma getBlockProof_eq (nBits) : getBlockProof nBits = .ok (ofNat 256 (blockWork nBits)) := by
  rw [getBlockProof, blockWork]
  by_cases valid : ValidTarget nBits
  · have small := valid.succ_lt
    have target := valid.value
    have succ : (setCompact nBits + 1).toNat = compactValue nBits + 1 := by
      rw [toNat_add, target]
      exact mod_eq_of_lt small
    have nz : setCompact nBits + 1 ≠ 0 := fun zero => succ_ne_zero _ (succ.symm.trans (congrArg BitVec.toNat zero))
    rw [if_neg (by rw [valid.1, valid.2.1, Bool.or_self, Bool.false_or, beq_iff_eq]; exact valid.2.2), if_pos valid, divide_eq nz]
    refine congrArg Except.ok (eq_of_toNat_eq ?_)
    have quot :=
      Nat.div_eq_sub_div (Nat.succ_pos _) small.le
    rw [toNat_add, BitVec.toNat_udiv, BitVec.toNat_not, target, succ, toNat_ofNat, quot, Nat.sub_sub, Nat.add_comm 1]
    rfl
  · rw [if_pos, if_neg valid]
    · rfl
    · simp only [ValidTarget, ne_eq, not_and_or, Bool.not_eq_false, not_not] at valid
      simp only [Bool.or_eq_true, beq_iff_eq, or_assoc]
      exact valid

theorem blockProof_exact (nBits : Nat) : (∃ proof, getBlockProof nBits = .ok proof ∧
      proof.toNat = if ValidTarget nBits then 2 ^ 256 / ((setCompact nBits).toNat + 1) else 0) ∧
    (∀ nBits' proof proof', ValidTarget nBits → ValidTarget nBits' → setCompact nBits ≤ setCompact nBits' →
      getBlockProof nBits = .ok proof → getBlockProof nBits' = .ok proof' → proof' ≤ proof) ∧
    ∀ pprev proof : UInt256, ValidTarget nBits → getBlockProof nBits = .ok proof → pprev.toNat + proof.toNat < 2 ^ 256 →
      ∃ work, nChainWork pprev nBits = .ok work ∧ work.toNat = pprev.toNat + proof.toNat ∧ pprev < work := by
  have toNat (n : Nat) : (ofNat 256 (blockWork n)).toNat = blockWork n := mod_eq_of_lt (blockWork_lt n)
  refine ⟨⟨_, getBlockProof_eq nBits, ?_⟩, ?_, ?_⟩
  · rw [toNat, blockWork]
    split
    · next valid => rw [valid.value]
    · rfl
  · intro nBits' proof proof' valid valid' le eq eq'
    rw [getBlockProof_eq, Except.ok.injEq] at eq eq'
    rw [← eq, ← eq', le_def, toNat, toNat]
    rw [le_def, valid.value, valid'.value] at le
    rw [blockWork, blockWork, if_pos valid, if_pos valid']
    exact div_le_div_left (succ_le_succ le) (succ_pos _)
  · intro pprev proof valid eq inside
    have sum : (pprev + proof).toNat = pprev.toNat + proof.toNat := by rw [toNat_add, mod_eq_of_lt inside]
    refine ⟨pprev + proof, by rw [nChainWork, eq]; rfl, sum, ?_⟩
    rw [getBlockProof_eq, Except.ok.injEq] at eq
    have positive : 0 < blockWork nBits := by
      rw [blockWork, if_pos valid]
      exact div_pos valid.succ_lt.le (succ_pos _)
    rw [BitVec.lt_def, sum, ← eq, toNat]
    omega

end Peony
