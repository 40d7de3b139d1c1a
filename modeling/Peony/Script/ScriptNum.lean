import Mathlib.Algebra.Order.Ring.Nat
import Peony.Script.Opcode

namespace Peony
open List

section
variable {k n : Nat}
lemma readLE_writeLE (small : n < 256 ^ k) : readLE (writeLE k n) = n := by
  induction k generalizing n with
  | zero =>
    simp [writeLE, readLE]
    omega
  | succ k ih =>
    rw [writeLE, readLE, ih (Nat.div_lt_of_lt_mul (by rwa [← pow_succ'])), UInt8.toNat_ofNat']
    omega
end

lemma readLE_append (low high) : readLE (low ++ high) = readLE low + 256 ^ low.length * readLE high := by
  induction low with
  | nil => simp [readLE]
  | cons byte low ih =>
    rw [cons_append, readLE, ih, readLE, length_cons, pow_succ]
    ring

lemma getOp2_pushData {b} (small : b.length < 2 ^ 32) (rest) :
    ∃ opcode, getOp2 (pushData b ++ rest) = ⟨true, opcode, b, rest⟩ := by
  have operand : ∀ opcode, readOperand opcode b.length (b ++ rest) = ⟨true, opcode, b, rest⟩ := by simp [readOperand]
  have sized : ∀ opcode k, b.length < 256 ^ k → (∀ pc, getOp2 (opcode :: pc) = readSizedOperand opcode k pc) →
      getOp2 (opcode :: writeLE k b.length ++ b ++ rest) = ⟨true, opcode, b, rest⟩ := by
    intro opcode k fits reads
    have lengths := length_writeLE (k := k) (n := b.length)
    rw [cons_append, cons_append, reads, readSizedOperand, if_neg (by simp [lengths]), append_assoc, take_left' lengths,
      drop_left' lengths, readLE_writeLE fits, operand]
  unfold pushData
  split_ifs with direct one two
  · have toNat : (UInt8.ofNat b.length).toNat = b.length := by
      rw [UInt8.toNat_ofNat']
      have : OP_PUSHDATA1.toNat = 76 := rfl
      omega
    have low : UInt8.ofNat b.length < OP_PUSHDATA1 := by rwa [UInt8.lt_iff_toNat_lt, toNat]
    refine ⟨UInt8.ofNat b.length, ?_⟩
    rw [cons_append, getOp2, if_pos (UInt8.le_of_lt (UInt8.lt_trans low (by decide))), if_pos low, toNat, operand]
  · exact ⟨_, sized OP_PUSHDATA1 1 (by omega) fun _ => rfl⟩
  · exact ⟨_, sized OP_PUSHDATA2 2 (by omega) fun _ => rfl⟩
  · exact ⟨_, sized OP_PUSHDATA4 4 (by omega) fun _ => rfl⟩

/-- `GetOp` on a script of any 32-bit size: `end() - pc` is an `int32_t`, and negative from `2 ^ 31` bytes on. -/
def getOpAt (pc : CScript) : GetOpResult :=
  if (BitVec.ofNat 32 pc.length).toInt < 1 then ⟨false, OP_INVALIDOPCODE, [], pc⟩ else getOp2 pc

/-- As many calls of `GetOp`, all of which succeed: the vectors and where the last one ends. -/
def getOps : Nat → CScript → Option (List valtype × CScript)
  | 0, pc => some ([], pc)
  | n + 1, pc =>
    let read := getOpAt pc
    if read.fRet then (getOps n read.pc).map fun (vchs, pc) => (read.vchRet :: vchs, pc) else none

lemma toInt_ofNat_length {n : Nat} (short : n < 2 ^ 31) : (BitVec.ofNat 32 n).toInt = n := by
  rw [BitVec.toInt_eq_toNat_of_lt] <;> rw [BitVec.toNat_ofNat, Nat.mod_eq_of_lt (by omega)]
  omega

lemma getOpAt_eq {pc : CScript} (short : pc.length < 2 ^ 31) : getOpAt pc = getOp2 pc := by
  unfold getOpAt
  rw [toInt_ofNat_length short]
  cases pc with
  | nil => rfl
  | cons opcode pc => exact if_neg (by simp)

lemma length_le_pushData (b : valtype) : b.length ≤ (pushData b).length := by
  unfold pushData
  split_ifs <;> simp only [length_cons, length_append] <;> omega

lemma getOps_pushData {vchs} (short : (vchs.flatMap pushData).length < 2 ^ 31) :
    getOps vchs.length (vchs.flatMap pushData) = some (vchs, []) := by
  induction vchs with
  | nil => rfl
  | cons b vchs ih =>
    have all : (pushData b ++ vchs.flatMap pushData).length < 2 ^ 31 := short
    have whole := all
    rw [length_append] at whole
    have own := length_le_pushData b
    obtain ⟨opcode, read⟩ := getOp2_pushData (by omega : b.length < 2 ^ 32) (vchs.flatMap pushData)
    simp [getOps, getOpAt_eq all, read, ih (by omega)]

/-! Numbers: the magnitude in bytes, the low one first, and the sign in the highest bit. -/

section
variable {k : Nat} {bytes : List UInt8}
lemma absBytes_readLE (fits : bytes.length ≤ k) (canonical : bytes.getLast? ≠ some 0) : absBytes k (readLE bytes) = bytes := by
  induction bytes generalizing k with
  | nil => cases k <;> rfl
  | cons byte bytes ih =>
    obtain ⟨k, rfl⟩ : ∃ j, k = j + 1 := ⟨k - 1, by simp at fits; omega⟩
    have tail : absBytes k (readLE bytes) = bytes := by
      cases bytes with
      | nil => cases k <;> rfl
      | cons => exact ih (by simpa using fits) (by simpa using canonical)
    have nonzero : byte.toNat + 256 * readLE bytes ≠ 0 := by
      intro zero
      obtain rfl : bytes = [] := by
        rw [show readLE bytes = 0 by omega] at tail
        rw [← tail]
        cases k <;> rfl
      exact canonical (congrArg some (UInt8.toNat_inj.mp (show byte.toNat = 0 by omega)))
    have low : UInt8.ofNat (byte.toNat + 256 * readLE bytes) = byte := by
      rw [← UInt8.toNat_inj, UInt8.toNat_ofNat']
      have := byte.toNat_lt
      omega
    have high : (byte.toNat + 256 * readLE bytes) / 256 = readLE bytes := by
      have := byte.toNat_lt
      omega
    rw [readLE, absBytes, if_neg nonzero, low, high, tail]

lemma exists_bytes {n} (fits : n < 256 ^ k) : ∃ bytes, bytes.length ≤ k ∧ bytes.getLast? ≠ some 0 ∧ readLE bytes = n := by
  induction k generalizing n with
  | zero => exact ⟨[], le_rfl, by simp, by simp [readLE]; omega⟩
  | succ k ih =>
    by_cases zero : n = 0
    · exact ⟨[], by simp, by simp, zero.symm⟩
    · obtain ⟨bytes, short, canonical, value⟩ := ih (Nat.div_lt_of_lt_mul (by rwa [← pow_succ']))
      refine ⟨UInt8.ofNat n :: bytes, by simpa using short, ?_, ?_⟩
      · cases bytes with
        | nil =>
          have small : n / 256 = 0 := value.symm
          simp [← UInt8.toNat_inj]
          omega
        | cons => simpa using canonical
      · rw [readLE, value, UInt8.toNat_ofNat']
        omega
end

lemma unmarked (b : UInt8) (low : b &&& 0x80 = 0) : (b ||| 0x80) &&& 0x7f = b ∧ (b ||| 0x80) &&& 0x80 ≠ 0 ∧
    (b ||| 0x80).toNat = b.toNat + 128 ∧ b &&& 0x7f = b := by
  obtain ⟨⟨b⟩⟩ := b
  revert b
  decide +kernel

lemma marked (b : UInt8) (high : b &&& 0x80 ≠ 0) : (b &&& 0x7f) ||| 0x80 = b ∧ (b &&& 0x7f) &&& 0x80 = 0 ∧
    (b &&& 0x7f = 0 → b = 0x80) ∧ 128 ≤ b.toNat := by
  obtain ⟨⟨b⟩⟩ := b
  revert b
  decide +kernel

/-- The bytes of a number whose magnitude is `init ++ [b]`. -/
def signedBytes (init : List UInt8) (b : UInt8) (neg : Bool) : valtype :=
  if b &&& 0x80 ≠ 0 then init ++ [b, if neg then 0x80 else 0] else if neg then init ++ [b ||| 0x80] else init ++ [b]

def signedValue (m : Nat) (neg : Bool) : Int := if neg then -m else m

section
variable {init : List UInt8} {b : UInt8} (neg : Bool) (nonzero : b ≠ 0)
include nonzero

lemma serializeNum_signed (fits : init.length < 8) :
    serializeNum (signedValue (readLE (init ++ [b])) neg) = signedBytes init b neg := by
  have bytes : absBytes 8 (readLE (init ++ [b])) = init ++ [b] := absBytes_readLE (by simp; omega) (by simpa using nonzero)
  have pos : 0 < readLE (init ++ [b]) := by
    apply Nat.pos_of_ne_zero
    intro zero
    rw [zero] at bytes
    simp [absBytes] at bytes
  cases neg <;> simp [serializeNum, signedValue, signedBytes, bytes, pos, Nat.pos_iff_ne_zero.mp pos, Int.not_lt.mpr (Int.natCast_nonneg _)]

lemma scriptNumOf_signed (fits : (signedBytes init b neg).length ≤ 8) :
    scriptNumOf (signedBytes init b neg) true 8 = some (signedValue (readLE (init ++ [b])) neg) := by
  have unmark : ∀ a p x c : Nat, a + p * (x + c) - c * p = a + p * x := by
    intro a p x c
    rw [mul_add, ← add_assoc, mul_comm c, Nat.add_sub_cancel]
  rw [scriptNumOf, if_neg (by omega)]
  clear fits
  unfold signedBytes signedValue setVch
  by_cases low : b &&& 0x80 = 0
  · obtain ⟨kept, mark, value, own⟩ := unmarked b low
    cases neg with
    | false => simp [low, own, nonzero]
    | true => simp [low, kept, mark, value, nonzero, readLE_append, readLE, unmark]
  · cases neg with
    | false => simp [low, readLE_append, readLE]
    | true =>
      have power : 128 * 256 ^ (init.length + 1) = 32768 * 256 ^ init.length := by ring
      simp [low, readLE_append, readLE, power, unmark]
end

lemma exists_signedBytes {vch n} (acc : scriptNumOf vch true 8 = some n) (ne : vch ≠ []) :
    ∃ init b neg, b ≠ 0 ∧ vch = signedBytes init b neg := by
  obtain ⟨init, last, rfl⟩ := (eq_nil_or_concat' vch).resolve_left ne
  rw [scriptNumOf] at acc
  split_ifs at acc with long padded
  have pre : last &&& 0x7f = 0 → ∃ init' b, init = init' ++ [b] ∧ b &&& 0x80 ≠ 0 := by
    intro zero
    rcases eq_nil_or_concat' init with rfl | ⟨init', b, rfl⟩
    · simp [zero] at padded
    · exact ⟨init', b, rfl, by simpa [zero] using padded⟩
  by_cases mark : last &&& 0x80 = 0
  · by_cases zero : last = 0
    · obtain ⟨init', b, rfl, high⟩ := pre (by simp [zero])
      exact ⟨init', b, false, by grind, by simp [signedBytes, high, zero]⟩
    · exact ⟨init, last, false, zero, by simp [signedBytes, mark]⟩
  · obtain ⟨kept, low, whole, -⟩ := marked last mark
    by_cases zero : last &&& 0x7f = 0
    · obtain ⟨init', b, rfl, high⟩ := pre zero
      exact ⟨init', b, true, by grind, by simp [signedBytes, high, whole zero]⟩
    · exact ⟨init, _, true, zero, by simp [signedBytes, low, kept]⟩

/-- The pushes are read back as long as they are together below `2 ^ 31` bytes. -/
theorem scriptNum_round_trips :
    (∀ n : Int, n.natAbs < 2 ^ 63 → scriptNumOf (serializeNum n) true 8 = some n) ∧
    (∀ vch n, scriptNumOf vch true 8 = some n → serializeNum n = vch) ∧
    ∀ vchs : List valtype, (vchs.flatMap pushData).length < 2 ^ 31 →
      getOps vchs.length (vchs.flatMap pushData) = some (vchs, []) := by
  refine ⟨?_, ?_, fun vchs => getOps_pushData⟩
  · intro n small
    obtain ⟨bytes, short, canonical, value⟩ := exists_bytes (k := 8) (n := n.natAbs) (by omega)
    have sign : n = signedValue n.natAbs (decide (n < 0)) := by
      unfold signedValue
      split <;> grind
    rcases eq_nil_or_concat' bytes with rfl | ⟨init, b, rfl⟩
    · obtain rfl : n = 0 := Int.natAbs_eq_zero.mp value.symm
      rfl
    · rw [sign, ← value]
      have nonzero : b ≠ 0 := by simpa using canonical
      have length : init.length < 8 := by
        simp at short
        omega
      rw [serializeNum_signed _ nonzero length]
      apply scriptNumOf_signed _ nonzero
      -- a marked byte at the end of eight would make the magnitude too large
      have room : b &&& 0x80 ≠ 0 → init.length ≠ 7 := by
        intro high seven
        have large := (marked b high).2.2.2
        rw [readLE_append, seven] at value
        simp only [readLE] at value
        omega
      unfold signedBytes
      grind
  · intro vch n accepted
    by_cases nonempty : vch = []
    · subst nonempty
      cases accepted
      rfl
    · obtain ⟨init, b, neg, nonzero, rfl⟩ := exists_signedBytes accepted nonempty
      have fits : (signedBytes init b neg).length ≤ 8 := by
        by_contra long
        simp [scriptNumOf, Nat.lt_of_not_le long] at accepted
      rw [scriptNumOf_signed _ nonzero fits] at accepted
      rw [← Option.some.inj accepted]
      apply serializeNum_signed _ nonzero
      unfold signedBytes at fits
      grind

/-- One vector of `2 ^ 31` bytes is pushed, and the first call of `GetOp` fails. -/
theorem wide_push_unread : ∃ b : valtype, b.length < 2 ^ 32 ∧ getOps [b].length ([b].flatMap pushData) = none := by
  obtain ⟨b, size⟩ : ∃ b : valtype, b.length = 2 ^ 31 := ⟨List.replicate (2 ^ 31) 0, List.length_replicate⟩
  have pushed : ([b].flatMap pushData).length = 2 ^ 31 + 5 := by
    rw [flatMap_singleton, pushData, if_neg (by rw [size]; decide), if_neg (by omega), if_neg (by omega)]
    simp [length_writeLE, size]
  have negative : (BitVec.ofNat 32 ([b].flatMap pushData).length).toInt < 1 := by
    rw [pushed]
    decide
  refine ⟨b, by omega, ?_⟩
  rw [length_singleton, getOps, getOpAt, if_pos negative]
  rfl

end Peony
