import Mathlib.Data.Nat.Bitwise
import Mathlib.Tactic.IntervalCases
import Peony.Library.Canonical
import Peony.Primitives.Transaction

/-! The integers of the wire and disk formats, on machine words (serialize.h). -/

namespace Peony.Serialize
open Codec List Nat
open BitVec (ofNat le_def toNat_ofNat toNat_setWidth ofNat_toNat setWidth_eq lt_def)

def getSizeOfCompactSize (nSize : BitVec 64) : Nat :=
  if nSize < 253#64 then 1
  else if nSize ≤ 0xffff#64 then 1 + 2
  else if nSize ≤ 0xffffffff#64 then 1 + 4
  else 1 + 8

def writeCompactSize (nSize : BitVec 64) : List UInt8 :=
  if nSize < 253#64 then word (nSize.setWidth 8)
  else if nSize ≤ 0xffff#64 then word 253#8 ++ word (nSize.setWidth 16)
  else if nSize ≤ 0xffffffff#64 then word 254#8 ++ word (nSize.setWidth 32)
  else word 255#8 ++ word nSize

/-- A word of `w` bits; a number below `least` has a shorter form. -/
def readLongSize (w : Nat) (least : BitVec 64) : Reader (BitVec 64) := do
  let size ← readWord w
  let nSizeRet := size.setWidth 64
  if nSizeRet < least then failure else return nSizeRet

def readSizeAfter (chSize : BitVec 8) : Reader (BitVec 64) :=
  if chSize < 253#8 then pure (chSize.setWidth 64)
  else if chSize = 253#8 then readLongSize 16 253#64
  else if chSize = 254#8 then readLongSize 32 0x10000#64
  else readLongSize 64 0x100000000#64

def readCompactSize : Reader (BitVec 64) := do
  let chSize ← readWord 8
  let nSizeRet ← readSizeAfter chSize
  if nSizeRet > ofNat 64 MAX_SIZE then failure else return nSizeRet

section
variable {w : Nat} {n : BitVec w}
lemma lt_toNat_of_more (more : ¬n ≤ 0x7F#w) : 127 < n.toNat := by
  rw [le_def, toNat_ofNat] at more
  by_cases wide : 7 ≤ w
  · have width : 2 ^ 7 ≤ 2 ^ w := Nat.pow_le_pow_right (by decide) wide
    rw [Nat.mod_eq_of_lt (by omega)] at more
    omega
  · interval_cases w <;> omega

lemma toNat_continue (more : ¬n ≤ 0x7F#w) : ((n >>> 7) - 1#w).toNat = n.toNat / 128 - 1 := by
  have large := lt_toNat_of_more more
  have shifted : (n >>> 7).toNat = n.toNat / 128 := by rw [BitVec.toNat_ushiftRight, shiftRight_eq_div_pow]
  have one : (1#w).toNat = 1 := by rw [toNat_ofNat, mod_eq_of_lt (by omega)]
  rw [BitVec.toNat_sub_of_le (by rw [le_def]; omega), shifted, one]

def getSizeOfVarInt (n : BitVec w) : Nat :=
  if n ≤ 0x7F#w then 1 else 1 + getSizeOfVarInt ((n >>> 7) - 1#w)
termination_by n.toNat
decreasing_by
  next more =>
    have large := lt_toNat_of_more more
    rw [toNat_continue more]
    omega

/-- The digits go to `tmp` from the last one on. With no `room` left the source writes past it. -/
def writeVarIntFrom : Nat → List UInt8 → BitVec w → Option (List UInt8)
  | 0, _, _ => none
  | room + 1, tmp, n =>
    let digit := UInt8.ofBitVec ((n &&& 0x7F#w).setWidth 8) ||| if tmp.isEmpty then 0x00 else 0x80
    if n ≤ 0x7F#w then some (digit :: tmp) else writeVarIntFrom room (digit :: tmp) ((n >>> 7) - 1#w)

def writeVarInt (n : BitVec w) : Option (List UInt8) := writeVarIntFrom ((w / 8 * 8 + 6) / 7) [] n

def readVarIntFrom : BitVec w → Reader (BitVec w)
  | _, [] => none
  | n, chData :: rest =>
    let n := (n <<< 7) ||| (chData &&& 0x7F).toBitVec.setWidth w
    if chData &&& 0x80 ≠ 0 then readVarIntFrom (n + 1#w) rest else some (n, rest)

def readVarInt : Reader (BitVec w) := readVarIntFrom 0#w

lemma toNat_mask (wide : 7 ≤ w) : (0x7F#w).toNat = 127 := by
  have width : 2 ^ 7 ≤ 2 ^ w := Nat.pow_le_pow_right (by decide) wide
  rw [toNat_ofNat, Nat.mod_eq_of_lt (by omega)]

lemma digit_eq (wide : 7 ≤ w) (n : BitVec w) (more : Bool) :
    (UInt8.ofBitVec ((n &&& 0x7F#w).setWidth 8) ||| if more then 0x80 else 0x00) =
      UInt8.ofNat (n.toNat % 128 + if more then 128 else 0) := by
  have low : (n.toNat &&& 127) = n.toNat % 128 := and_two_pow_sub_one_eq_mod _ 7
  apply UInt8.toNat_inj.mp
  rw [toNat_group, UInt8.toNat_or, UInt8.toNat_ofBitVec, toNat_setWidth, BitVec.toNat_and, toNat_mask wide, low,
    mod_eq_of_lt (by omega)]
  cases more with
  | false => exact Nat.or_zero _
  | true =>
    have joined := Nat.two_pow_add_eq_or_of_lt (i := 7) (b := n.toNat % 128) (by omega) 1
    rw [Nat.add_comm, Nat.or_comm] at joined
    exact joined.symm

lemma digit_of_tmp (wide : 7 ≤ w) (n : BitVec w) (tmp : List UInt8) :
    (UInt8.ofBitVec ((n &&& 0x7F#w).setWidth 8) ||| if tmp.isEmpty then 0x00 else 0x80) =
      UInt8.ofNat (n.toNat % 128 + if !tmp.isEmpty then 128 else 0) := by
  cases tmp with
  | nil => exact digit_eq wide n false
  | cons => exact digit_eq wide n true

lemma toNat_continue_lt {room} (more : ¬n ≤ 0x7F#w) (fits : n.toNat < 128 ^ (room + 1)) : ((n >>> 7) - 1#w).toNat < 128 ^ room := by
  rw [toNat_continue more]
  omega

lemma toNat_le_iff (wide : 7 ≤ w) (n : BitVec w) : n ≤ 0x7F#w ↔ n.toNat ≤ 127 := by rw [le_def, toNat_mask wide]

section
variable (wide : 7 ≤ w) {room : Nat} (fits : n.toNat < 128 ^ (room + 1))
include wide fits

lemma writeVarIntFrom_eq (tmp : List UInt8) :
    writeVarIntFrom (room + 1) tmp n = some (varIntGroups (room + 1) (!tmp.isEmpty) n.toNat ++ tmp) := by
  induction room generalizing n tmp with
  | zero =>
    have few : n.toNat ≤ 127 := by omega
    unfold writeVarIntFrom varIntGroups
    rw [digit_of_tmp wide, if_pos ((toNat_le_iff wide n).mpr few), if_pos few, singleton_append]
  | succ room ih =>
    unfold writeVarIntFrom varIntGroups
    rw [digit_of_tmp wide]
    by_cases few : n.toNat ≤ 127
    · simp [((toNat_le_iff wide n).mpr _), few]
    · have more : ¬n ≤ 0x7F#w := fun short => few ((toNat_le_iff wide n).mp short)
      rw [if_neg more, if_neg few, ih (toNat_continue_lt more fits), toNat_continue more, append_assoc]
      rfl

lemma length_varIntGroups {more : Bool} : (varIntGroups (room + 1) more n.toNat).length = getSizeOfVarInt n := by
  induction room generalizing n more with
  | zero =>
    have few : n.toNat ≤ 127 := by omega
    unfold varIntGroups getSizeOfVarInt
    rw [if_pos few, if_pos ((toNat_le_iff wide n).mpr few), length_singleton]
  | succ room ih =>
    unfold varIntGroups getSizeOfVarInt
    by_cases few : n.toNat ≤ 127
    · simp [few, ((toNat_le_iff wide n).mpr _)]
    · have continued : ¬n ≤ 0x7F#w := fun short => few ((toNat_le_iff wide n).mp short)
      rw [if_neg few, if_neg continued, length_append, length_singleton, ← toNat_continue continued,
        ih (toNat_continue_lt continued fits), add_comm]
end

lemma toNat_shift_or (wide : 7 ≤ w) (n : BitVec w) (chData : UInt8) :
    ((n <<< 7) ||| (chData &&& 0x7F).toBitVec.setWidth w).toNat = (n.toNat * 128 + chData.toNat % 128) % 2 ^ w := by
  have low : (chData &&& 0x7F).toBitVec.toNat = chData.toNat % 128 := Nat.and_two_pow_sub_one_eq_mod _ 7
  obtain ⟨k, rfl⟩ : ∃ k, w = 7 + k := ⟨w - 7, by omega⟩
  have digit : chData.toNat % 128 < 2 ^ 7 := by omega
  have high : n.toNat % 2 ^ k < 2 ^ k := Nat.mod_lt _ (Nat.two_pow_pos k)
  have digit_fits : chData.toNat % 128 < 2 ^ 7 * 2 ^ k := by omega
  have fits : 2 ^ 7 * (n.toNat % 2 ^ k) + chData.toNat % 128 < 2 ^ 7 * 2 ^ k := by omega
  have value : n.toNat * 128 + chData.toNat % 128 = 2 ^ 7 * (n.toNat % 2 ^ k) + chData.toNat % 128 + 2 ^ 7 * 2 ^ k * (n.toNat / 2 ^ k) := by
    have parts := mod_add_div n.toNat (2 ^ k)
    rw [mul_assoc]
    omega
  rw [value, pow_add, add_mul_mod_self_left, mod_eq_of_lt fits, BitVec.toNat_or, BitVec.toNat_shiftLeft, toNat_setWidth, low,
    shiftLeft_eq, pow_add, mul_comm, mul_mod_mul_left, mod_eq_of_lt digit_fits,
    two_pow_add_eq_or_of_lt digit]

lemma and_mark_iff {chData : UInt8} : chData &&& 0x80 ≠ 0 ↔ 128 ≤ chData.toNat := by
  have small := chData.toNat_lt
  have bit : (chData &&& 0x80).toNat = (chData.toNat.testBit 7).toNat * 2 ^ 7 := and_two_pow _ 7
  have top : chData.toNat.testBit 7 = decide (128 ≤ chData.toNat) := by
    rw [testBit_eq_decide_div_mod_eq]
    congr 1
    rw [eq_iff_iff]
    omega
  rw [Ne, ← UInt8.toNat_inj, bit, top]
  by_cases marked : 128 ≤ chData.toNat <;> simp [marked]

variable (wide : 7 ≤ w)
include wide

lemma readVarIntFrom_eq (n : BitVec w) (input) :
    readVarIntFrom n input = (Codec.readVarIntFrom w n.toNat input).map fun read => (ofNat w read.1, read.2) := by
  induction input generalizing n with
  | nil => rfl
  | cons chData rest ih =>
    unfold readVarIntFrom Codec.readVarIntFrom
    by_cases more : 128 ≤ chData.toNat
    · rw [if_pos ((and_mark_iff).mpr more), if_pos more, ih, BitVec.toNat_add, toNat_shift_or wide, toNat_ofNat,
        add_mod_mod]
    · rw [if_neg (fun mark => more ((and_mark_iff).mp mark)), if_neg more, ← toNat_shift_or wide, Option.map_some,
        ofNat_toNat, setWidth_eq]

lemma writeVarInt_eq (whole : 8 * (w / 8) = w) (n : BitVec w) :
    writeVarInt n = some (varInt w n.toNat) ∧ (varInt w n.toNat).length = getSizeOfVarInt n := by
  obtain ⟨room, groups⟩ : ∃ room, (w + 6) / 7 = room + 1 := ⟨(w + 6) / 7 - 1, by omega⟩
  have fits : n.toNat < 128 ^ (room + 1) := by
    apply n.isLt.trans_le
    rw [show 128 = 2 ^ 7 from rfl, ← pow_mul]
    exact Nat.pow_le_pow_right (by decide) (by omega)
  rw [writeVarInt, varInt, Nat.mul_comm, whole, groups, writeVarIntFrom_eq wide fits, append_nil]
  exact ⟨rfl, length_varIntGroups wide fits⟩

lemma reads_writeVarInt (n : BitVec w) : Reads readVarInt (varInt w n.toNat) n := by
  intro rest
  have read := reads_varInt (by omega) n.isLt rest
  rw [Codec.readVarInt, StateT.run] at read
  rw [readVarInt, StateT.run, readVarIntFrom_eq wide, toNat_ofNat, zero_mod, read, Option.map_some, ofNat_toNat,
    setWidth_eq]

lemma writeVarInt_iff_of_read (whole : 8 * (w / 8) = w) {bytes}
    (read : readVarInt.run bytes = some (n, [])) : writeVarInt n = some bytes ↔ varIntNumber bytes < 2 ^ w := by
  rw [readVarInt, StateT.run, readVarIntFrom_eq wide, toNat_ofNat, Option.map_eq_some_iff] at read
  obtain ⟨⟨m, rest⟩, done, same⟩ := read
  obtain ⟨rfl, rfl⟩ : ofNat w m = n ∧ rest = [] := Prod.mk.inj same
  obtain ⟨init, last, -, -, -, value⟩ := readVarIntFrom_eq_some done
  have small : m < 2 ^ w := value ▸ Nat.mod_lt _ (Nat.two_pow_pos w)
  rw [(writeVarInt_eq wide whole _).1, toNat_ofNat, Nat.mod_eq_of_lt small, Option.some_inj, eq_comm]
  exact eq_varInt_iff (by omega) done
end
section
lemma length_writeCompactSize (nSize : BitVec 64) : (writeCompactSize nSize).length = getSizeOfCompactSize nSize := by
  have long : ∀ {w : Nat} (mark : BitVec 8) (size : BitVec w), (word mark ++ word size).length = 1 + w / 8 := by
    simp [length_append, word, length_fixed]
  unfold writeCompactSize getSizeOfCompactSize
  split
  · exact length_fixed _ _
  split
  · exact long _ _
  split
  · exact long _ _
  · exact long _ _

lemma reads_longSize {w : Nat} {least nSize : BitVec 64} {size : BitVec w} (whole : 8 * (w / 8) = w) (wide : size.setWidth 64 = nSize)
    (large : least ≤ nSize) : Reads (readLongSize w least) (word size) nSize := by
  apply (reads_word whole _).bind_nil
  rw [wide, if_neg (BitVec.not_lt.mpr large)]
  exact Reads.pure _

lemma reads_compactSize_of_after {nSize chSize bytes} (may : nSize.toNat ≤ MAX_SIZE)
    (after : Reads (readSizeAfter chSize) bytes nSize) : Reads readCompactSize (word chSize ++ bytes) nSize := by
  apply (reads_word (by decide) _).bind
  apply after.bind_nil
  rw [if_neg]
  · exact Reads.pure _
  · exact may.not_gt

lemma reads_writeCompactSize {nSize} (may : nSize.toNat ≤ MAX_SIZE) : Reads readCompactSize (writeCompactSize nSize) nSize := by
  have back : ∀ w, nSize.toNat < 2 ^ w → (nSize.setWidth w).setWidth 64 = nSize := by
    intro w small
    apply BitVec.eq_of_toNat_eq
    rw [toNat_setWidth, toNat_setWidth, mod_eq_of_lt small, mod_eq_of_lt nSize.isLt]
  unfold writeCompactSize
  split
  · next short =>
    rw [lt_def, toNat_ofNat] at short
    have byte : nSize.setWidth 8 < 253#8 := by
      rw [lt_def, toNat_setWidth, mod_eq_of_lt (by omega)]
      exact short
    apply reads_compactSize_of_after may
    rw [readSizeAfter, if_pos byte, back 8 (by omega)]
    exact Reads.pure _
  split
  · next long short =>
    rw [le_def, toNat_ofNat] at short
    apply reads_compactSize_of_after may
    exact reads_longSize (by decide) (back 16 (by omega)) (BitVec.not_lt.mp long)
  split
  · next long short =>
    rw [le_def, toNat_ofNat] at long short
    apply reads_compactSize_of_after may
    apply reads_longSize (by decide) (back 32 (by omega))
    rw [le_def, toNat_ofNat]
    omega
  · next long =>
    rw [le_def, toNat_ofNat] at long
    apply reads_compactSize_of_after may
    apply reads_longSize (by decide) (setWidth_eq _)
    rw [le_def, toNat_ofNat]
    omega

lemma run_readLongSize_eq_some {w least nSize input rest} (whole : 8 * (w / 8) = w)
    (done : (readLongSize w least).run input = some (nSize, rest)) :
    ∃ size : BitVec w, size.setWidth 64 = nSize ∧ input = word size ++ rest ∧ least ≤ nSize := by
  obtain ⟨size, middle, first, done⟩ := run_bind_eq_some done
  dsimp only at done
  split at done
  · cases done
  · next large =>
    obtain ⟨rfl, rfl⟩ := run_pure_eq_some done
    exact ⟨_, rfl, canonical_word whole _ _ _ first, BitVec.not_lt.mp large⟩

lemma canonical_readCompactSize : Canonical readCompactSize writeCompactSize := by
  intro input nSize rest done
  obtain ⟨chSize, middle, first, done⟩ := run_bind_eq_some done
  obtain ⟨size, final, snd, done⟩ := run_bind_eq_some done
  split at done
  · cases done
  obtain ⟨rfl, rfl⟩ := run_pure_eq_some done
  rw [canonical_word (by decide) _ _ _ first]
  have back : ∀ {w : Nat} (read : BitVec w), w ≤ 64 → (read.setWidth 64).setWidth w = read := by
    intro w read narrow
    rw [BitVec.setWidth_setWidth_of_le _ narrow, setWidth_eq]
  unfold readSizeAfter at snd
  unfold writeCompactSize
  split at snd
  · next short =>
    obtain ⟨rfl, rfl⟩ := run_pure_eq_some snd
    rw [if_pos, back _ (by decide)]
    rw [lt_def, toNat_ofNat] at short ⊢
    rw [toNat_setWidth]
    omega
  split at snd
  · next mark =>
    obtain ⟨read, rfl, rfl, least⟩ := run_readLongSize_eq_some (by decide) snd
    rw [if_neg (BitVec.not_lt.mpr least), if_pos, back _ (by decide), mark, append_assoc]
    rw [le_def, toNat_setWidth, toNat_ofNat]
    omega
  split at snd
  · next mark =>
    obtain ⟨read, rfl, rfl, least⟩ := run_readLongSize_eq_some (by decide) snd
    rw [le_def, toNat_ofNat] at least
    rw [if_neg, if_neg, if_pos, back _ (by decide), mark, append_assoc]
    · rw [le_def, toNat_setWidth, toNat_ofNat]
      omega
    · rw [le_def, toNat_ofNat]
      omega
    · rw [lt_def, toNat_ofNat]
      omega
  · next long not_two not_four =>
    have mark : chSize = 255#8 := by
      apply BitVec.eq_of_toNat_eq
      rw [← BitVec.toNat_inj, toNat_ofNat] at not_two not_four
      rw [lt_def, toNat_ofNat] at long
      rw [toNat_ofNat]
      omega
    obtain ⟨read, rfl, rfl, least⟩ := run_readLongSize_eq_some (by decide) snd
    rw [le_def, toNat_ofNat] at least
    rw [if_neg, if_neg, if_neg, setWidth_eq, mark, append_assoc]
    · rw [le_def, toNat_ofNat]
      omega
    · rw [le_def, toNat_ofNat]
      omega
    · rw [lt_def, toNat_ofNat]
      omega
end

theorem wire_integers_one_to_one_iff {w : Nat} (unsigned : w = 32 ∨ w = 64) :
    (∀ n : BitVec w, ∃ bytes, writeVarInt n = some bytes ∧ Reads readVarInt bytes n ∧ bytes.length = getSizeOfVarInt n) ∧
      (∀ bytes (n : BitVec w), readVarInt.run bytes = some (n, []) → (writeVarInt n = some bytes ↔ varIntNumber bytes < 2 ^ w)) ∧
      (∀ n : BitVec 64, n.toNat ≤ MAX_SIZE →
        Reads readCompactSize (writeCompactSize n) n ∧ (writeCompactSize n).length = getSizeOfCompactSize n) ∧
      ∀ bytes n, readCompactSize.run bytes = some (n, []) → bytes = writeCompactSize n := by
  have wide : 7 ≤ w := by omega
  have whole : 8 * (w / 8) = w := by omega
  refine ⟨?_, ?_, ?_, ?_⟩
  · intro n
    obtain ⟨written, size⟩ := writeVarInt_eq wide whole n
    exact ⟨_, written, reads_writeVarInt wide n, size⟩
  · intro bytes n read
    exact writeVarInt_iff_of_read wide whole read
  · intro n allowed
    exact ⟨reads_writeCompactSize allowed, length_writeCompactSize n⟩
  · intro bytes n read
    rw [canonical_readCompactSize _ n [] read, append_nil]

theorem varint_two_bytes :
    (readVarInt : Reader (BitVec 32)).run [0x80, 0x00] = some (128#32, []) ∧ writeVarInt 128#32 = some [0x80, 0x00] :=
  have read : (readVarInt : Reader (BitVec 32)).run [0x80, 0x00] = some (128#32, []) := by decide
  ⟨read, ((wire_integers_one_to_one_iff (Or.inl rfl)).2.1 _ _ read).mpr (by decide)⟩

/-- The five bytes that stand for `2 ^ 32` are accepted as a second encoding of zero. -/
theorem varint_overlong_zero : (readVarInt : Reader (BitVec 32)).run [0x8E, 0xFE, 0xFE, 0xFF, 0x00] = some (0#32, []) ∧
      writeVarInt 0#32 = some [0x00] ∧ varIntNumber [0x8E, 0xFE, 0xFE, 0xFF, 0x00] = 2 ^ 32 := by decide

end Peony.Serialize
