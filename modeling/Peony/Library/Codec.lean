import Mathlib.Algebra.Order.Ring.Nat
import Mathlib.Data.List.Basic
import Mathlib.Tactic.Ring

/-! Byte streams: readers that take a value off the front of the input, and the number formats they read. -/

namespace Codec
open List UInt8

abbrev Reader (α : Type) := StateT (List UInt8) Option α

/-- The reader takes exactly these bytes off the input, whatever follows, and returns `a`. -/
def Reads {α : Type} (reader : Reader α) (bytes : List UInt8) (a : α) : Prop :=
  ∀ rest, reader.run (bytes ++ rest) = some (a, rest)

variable {α β : Type} {reader : Reader α} {bytes bytes' : List UInt8} {a : α} {b : β}
lemma Reads.pure (a : α) : Reads (pure a) [] a := fun _ => rfl

variable {next : α → Reader β}
lemma Reads.bind (first : Reads reader bytes a) (snd : Reads (next a) bytes' b) : Reads (reader >>= next) (bytes ++ bytes') b := by
  intro rest
  rw [StateT.run_bind, append_assoc, first]
  exact snd _

lemma Reads.bind_nil (first : Reads reader bytes a) (snd : Reads (next a) [] b) : Reads (reader >>= next) bytes b := by
  rw [← append_nil bytes]
  exact first.bind snd

lemma Reads.map (f : α → β) (first : Reads reader bytes a) : Reads (f <$> reader) bytes (f a) := by
  intro rest
  rw [StateT.run_map, first]
  rfl

def readWhen (c : Prop) [Decidable c] (reader : Reader α) (absent : α) : Reader α := if c then reader else Pure.pure absent

lemma Reads.when {c} [Decidable c] {absent} (first : c → Reads reader bytes a) :
    Reads (readWhen c reader absent) (if c then bytes else []) (if c then a else absent) := by
  unfold readWhen
  split
  · grind
  · exact Reads.pure _

def Refuses (reader : Reader α) (bytes : List UInt8) : Prop := ∀ rest, reader.run (bytes ++ rest) = none

lemma Refuses.bind (next : α → Reader β) (first : Refuses reader bytes) (bytes') :
    Refuses (reader >>= next) (bytes ++ bytes') := by
  intro rest
  rw [StateT.run_bind, append_assoc, first]
  rfl

lemma Reads.bind_refuses (first : Reads reader bytes a) (snd : Refuses (next a) bytes') :
    Refuses (reader >>= next) (bytes ++ bytes') := by
  intro rest
  rw [StateT.run_bind, append_assoc, first]
  exact snd _

lemma refuses_failure (bytes) : Refuses (failure : Reader α) bytes := fun _ => rfl

def readByte : Reader UInt8
  | [] => none
  | byte :: rest => some (byte, rest)

lemma reads_byte (byte) : Reads readByte [byte] byte := fun _ => rfl

def readBytes (n : Nat) : Reader (List UInt8) := fun input =>
  if n ≤ input.length then some (input.take n, input.drop n) else none

lemma reads_bytes (bytes) : Reads (readBytes bytes.length) bytes bytes := by
  intro rest
  change (if _ then _ else _) = _
  rw [length_append, if_pos (Nat.le_add_right _ _), take_left, drop_left]

def fixed : Nat → Nat → List UInt8
  | 0, _ => []
  | k + 1, n => ofNat (n % 256) :: fixed k (n / 256)

def readFixed : Nat → Reader Nat
  | 0 => pure 0
  | k + 1 => do
    let low ← readByte
    let high ← readFixed k
    return low.toNat + 256 * high

lemma length_fixed (k n) : (fixed k n).length = k := by
  induction k generalizing n with
  | zero => rfl
  | succ k ih => rw [fixed, length_cons, ih]

lemma reads_fixed (k n) : Reads (readFixed k) (fixed k n) (n % 256 ^ k) := by
  induction k generalizing n with
  | zero =>
    rw [pow_zero, Nat.mod_one]
    exact Reads.pure 0
  | succ k ih =>
    have value : n % 256 ^ (k + 1) = (ofNat (n % 256)).toNat + 256 * (n / 256 % 256 ^ k) := by
      rw [toNat_ofNat', pow_succ', Nat.mod_mul]
      omega
    rw [value]
    apply (reads_byte _).bind
    apply (ih _).bind_nil
    exact Reads.pure _

lemma reads_fixed_of_lt {k n} (small : n < 256 ^ k) : Reads (readFixed k) (fixed k n) n := by
  have exact_value := reads_fixed k n
  rwa [Nat.mod_eq_of_lt small] at exact_value

def word {w : Nat} (x : BitVec w) : List UInt8 := fixed (w / 8) x.toNat
def readWord (w : Nat) : Reader (BitVec w) := BitVec.ofNat w <$> readFixed (w / 8)

lemma reads_word {w} (whole : 8 * (w / 8) = w) (x) : Reads (readWord w) (word x) x := by
  have size : 256 ^ (w / 8) = 2 ^ w := by rw [show 256 = 2 ^ 8 from rfl, ← pow_mul, whole]
  have read := (reads_fixed_of_lt (k := w / 8) (size ▸ x.isLt)).map (BitVec.ofNat w)
  rwa [BitVec.ofNat_toNat, BitVec.setWidth_eq] at read

/-! Numbers in groups of seven bits, the high group first; one is taken off all groups but the last. -/

/-- `more` marks a group that another one follows, and `size` is the room. -/
def varIntGroups : Nat → Bool → Nat → List UInt8
  | 0, _, _ => []
  | size + 1, more, n =>
    let group := ofNat (n % 128 + if more then 128 else 0)
    if n ≤ 127 then [group] else varIntGroups size true (n / 128 - 1) ++ [group]

def varInt (w n : Nat) : List UInt8 := varIntGroups ((w + 6) / 7) false n

def readVarIntFrom (w : Nat) : Nat → Reader Nat
  | _, [] => none
  | n, group :: rest =>
    let n := (n * 128 + group.toNat % 128) % 2 ^ w
    if group.toNat ≥ 128 then readVarIntFrom w ((n + 1) % 2 ^ w) rest else some (n, rest)

def readVarInt (w : Nat) : Reader Nat := readVarIntFrom w 0

lemma toNat_group (n) (more : Bool) : (ofNat (n % 128 + if more then 128 else 0)).toNat = n % 128 + if more then 128 else 0 := by
  grind [toNat_ofNat']

lemma readVarIntFrom_group {w n} (more : Bool) (small : n < 2 ^ w) (rest) :
    readVarIntFrom w (n / 128) (ofNat (n % 128 + if more then 128 else 0) :: rest) =
      if more then readVarIntFrom w ((n + 1) % 2 ^ w) rest else some (n, rest) := by
  rw [readVarIntFrom, toNat_group]
  have value : (n / 128 * 128 + (n % 128 + if more then 128 else 0) % 128) % 2 ^ w = n := by
    have whole : n / 128 * 128 + (n % 128 + if more then 128 else 0) % 128 = n := by grind
    rw [whole, Nat.mod_eq_of_lt small]
  rw [value]
  cases more with
  | true => rfl
  | false => grind

lemma readVarIntFrom_groups {w size n} (more : Bool) (small : n < 2 ^ w) (room : n < 128 ^ (size + 1)) (rest) :
    readVarIntFrom w 0 (varIntGroups (size + 1) more n ++ rest) =
      if more then readVarIntFrom w ((n + 1) % 2 ^ w) rest else some (n, rest) := by
  induction size generalizing more n rest with
  | zero =>
    have single : n / 128 = 0 := by omega
    have read := readVarIntFrom_group more small rest
    rw [single] at read
    rw [varIntGroups, if_pos (by omega)]
    exact read
  | succ size ih =>
    unfold varIntGroups
    dsimp only
    split
    · next few =>
      have single : n / 128 = 0 := by omega
      have read := readVarIntFrom_group more small rest
      rw [single] at read
      exact read
    · next many =>
      have above : n / 128 - 1 < 128 ^ (size + 1) := by omega
      rw [append_assoc, ih _ (by omega) above, Nat.sub_add_cancel (by omega), Nat.mod_eq_of_lt (by omega)]
      exact readVarIntFrom_group _ small _

lemma exists_groups {w n} (pos : 0 < w) (small : n < 2 ^ w) : ∃ size, (w + 6) / 7 = size + 1 ∧ n < 128 ^ (size + 1) := by
  refine ⟨(w + 6) / 7 - 1, by omega, small.trans_le ?_⟩
  rw [show 128 = 2 ^ 7 from rfl, ← pow_mul]
  exact Nat.pow_le_pow_right (by decide) (by omega)

lemma reads_varInt {w n} (pos : 0 < w) (small : n < 2 ^ w) : Reads (readVarInt w) (varInt w n) n := by
  intro rest
  obtain ⟨size, groups, room⟩ := exists_groups pos small
  have read := readVarIntFrom_groups false small room rest
  rw [← groups] at read
  exact read

lemma varInt_of_le {w n} (pos : 0 < w) (small : n ≤ 127) : varInt w n = [ofNat n] := by
  obtain ⟨size, groups⟩ : ∃ size, (w + 6) / 7 = size + 1 := ⟨(w + 6) / 7 - 1, by omega⟩
  rw [varInt, groups, varIntGroups, if_pos small, if_neg Bool.false_ne_true, Nat.mod_eq_of_lt (by omega), Nat.add_zero]

def compactSize (n : Nat) : List UInt8 :=
  if n < 253 then fixed 1 n
  else if n ≤ 0xffff then fixed 1 253 ++ fixed 2 n
  else if n ≤ 0xffffffff then fixed 1 254 ++ fixed 4 n
  else fixed 1 255 ++ fixed 8 n

def readSizeFrom (k least : Nat) : Reader Nat := do
  let n ← readFixed k
  if n < least then failure else return n

lemma reads_sizeFrom {k least n} (large : least ≤ n) (small : n < 256 ^ k) : Reads (readSizeFrom k least) (fixed k n) n := by
  apply (reads_fixed_of_lt small).bind_nil
  rw [if_neg (by omega)]
  exact Reads.pure n

def readMarked : Reader Nat := do
  let mark ← readFixed 1
  if mark < 253 then pure mark
  else if mark = 253 then readSizeFrom 2 253
  else if mark = 254 then readSizeFrom 4 0x10000
  else readSizeFrom 8 0x100000000

def readCompactSize (maxSize : Nat) : Reader Nat := do
  let n ← readMarked
  if n > maxSize then failure else return n

lemma reads_marked {n} (small : n < 2 ^ 64) : Reads readMarked (compactSize n) n := by
  unfold compactSize
  split
  · next short =>
    apply (reads_fixed_of_lt (by omega)).bind_nil
    rw [if_pos short]
    exact Reads.pure n
  split
  · apply (reads_fixed_of_lt (by decide)).bind
    exact reads_sizeFrom (by omega) (by omega)
  split
  · apply (reads_fixed_of_lt (by decide)).bind
    exact reads_sizeFrom (by omega) (by omega)
  · apply (reads_fixed_of_lt (by decide)).bind
    exact reads_sizeFrom (by omega) (by omega)

lemma reads_compactSize {maxSize n} (may : n ≤ maxSize) (small : n < 2 ^ 64) : Reads (readCompactSize maxSize) (compactSize n) n := by
  apply (reads_marked small).bind_nil
  rw [if_neg (by omega)]
  exact Reads.pure n

/-- A size over the limit is refused, also one that does not fit the type. -/
lemma refuses_compactSize {maxSize n} (large : maxSize < n) (limit : maxSize < 2 ^ 32) :
    Refuses (readCompactSize maxSize) (compactSize n) := by
  have bad : ∀ m, maxSize < m → Refuses (if m > maxSize then failure else (return m : Reader Nat)) [] := by
    intro m more
    rw [if_pos more]
    exact refuses_failure []
  rw [← append_nil (compactSize n)]
  by_cases fits : n < 2 ^ 64
  · exact (reads_marked fits).bind_refuses (bad n large)
  · have form : compactSize n = fixed 1 255 ++ fixed 8 n := by
      unfold compactSize
      rw [if_neg (by omega), if_neg (by omega), if_neg (by omega)]
    by_cases cut : n % 256 ^ 8 < 0x100000000
    · apply Refuses.bind
      rw [form]
      apply (reads_fixed_of_lt (by decide)).bind_refuses
      apply (reads_fixed 8 n).bind_refuses
      rw [if_pos cut]
      exact refuses_failure []
    · have read : Reads readMarked (compactSize n) (n % 256 ^ 8) := by
        rw [form]
        apply (reads_fixed_of_lt (by decide)).bind
        apply (reads_fixed 8 n).bind_nil
        rw [if_neg cut]
        exact Reads.pure _
      exact read.bind_refuses (bad _ (by omega))

def blob (bytes : List UInt8) : List UInt8 := compactSize bytes.length ++ bytes
def readBlob (maxSize : Nat) : Reader (List UInt8) := readCompactSize maxSize >>= readBytes

lemma reads_blob {maxSize} (may : bytes.length ≤ maxSize) (small : maxSize < 2 ^ 64) :
    Reads (readBlob maxSize) (blob bytes) bytes :=
  (reads_compactSize may (by omega)).bind (reads_bytes _)

lemma refuses_blob {maxSize} (large : maxSize < bytes.length) (limit : maxSize < 2 ^ 32) : Refuses (readBlob maxSize) (blob bytes) :=
  (refuses_compactSize large limit).bind _ _

def readMany (reader : Reader α) : Nat → Reader (List α)
  | 0 => pure []
  | n + 1 => do
    let a ← reader
    let rest ← readMany reader n
    return a :: rest

lemma reads_many {write} (values) (reads : ∀ a ∈ values, Reads reader (write a) a) :
    Reads (readMany reader values.length) (values.flatMap write) values := by
  induction values with
  | nil => exact Reads.pure []
  | cons a values ih =>
    apply (reads a mem_cons_self).bind
    apply (ih fun b mem => reads b (mem_cons_of_mem a mem)).bind_nil
    exact Reads.pure _

def optional (write : α → List UInt8) : Option α → List UInt8
  | none => [0]
  | some a => 1 :: write a

def readOptional (reader : Reader α) : Reader (Option α) := do
  let discriminant ← readByte
  if discriminant = 0 then return none else some <$> reader

lemma reads_optional {write} (reads : ∀ a, Reads reader (write a) a) (value) :
    Reads (readOptional reader) (optional write value) value := by
  cases value with
  | none => exact (reads_byte 0).bind_nil (Reads.pure _)
  | some a => exact (reads_byte 1).bind ((reads a).map _)

end Codec
