import Peony.Coins.View
import Peony.Consensus.MainNet
import Peony.Library.Codec
import Peony.Primitives.Script

/-! Coins and undo records on disk: the amount and the script of an output are compressed. -/

namespace Peony
open Codec Int64Arith List Nat

/-! Amounts. The operations on `uint64_t` are a parameter: they wrap around in the code, and `checkUInt64` stops at the first that does. -/

def wrapUInt64 (x : Int) : Int := x % 2 ^ 64
def checkUInt64 (x : Int) : Option Int := if 0 ≤ x ∧ x < 2 ^ 64 then some x else none

namespace CTxOutCompressor

section
variable {m : Type → Type} [Monad m] (u64 : Int → m Int)
def dropZeros (n : Int) (e : Nat) : Nat → Int × Nat
  | 0 => (n, e)
  | left + 1 => if n % 10 = 0 then dropZeros (n / 10) (e + 1) left else (n, e)

def compressAmountWith (n : Int) : m Int :=
  if n = 0 then pure 0
  else
    let (n, e) := dropZeros n 0 9
    if e < 9 then do
      let d := n % 10
      let n := n / 10
      let x ← u64 (n * 9)
      let x ← u64 (x + d)
      let x ← u64 (x - 1)
      let x ← u64 (x * 10)
      let x ← u64 (1 + x)
      u64 (x + e)
    else do
      let x ← u64 (n - 1)
      let x ← u64 (x * 10)
      let x ← u64 (1 + x)
      u64 (x + 9)

def putZeros (n : Int) : Nat → m Int
  | 0 => pure n
  | e + 1 => do
    let n ← u64 (n * 10)
    putZeros n e

def decompressAmountWith (x : Int) : m Int :=
  if x = 0 then pure 0
  else do
    let x ← u64 (x - 1)
    let e := (x % 10).toNat
    let x := x / 10
    if e < 9 then do
      let d := x % 9 + 1
      let x := x / 9
      let n ← u64 (x * 10)
      let n ← u64 (n + d)
      putZeros u64 n e
    else do
      let n ← u64 (x + 1)
      putZeros u64 n e
end

def compressAmount (n : Int) : Int := Id.run (compressAmountWith (fun x => pure (wrapUInt64 x)) n)
def decompressAmount (x : Int) : Int := Id.run (decompressAmountWith (fun x => pure (wrapUInt64 x)) x)

variable {n : Int}
section
variable {m : Type → Type} [Monad m] [LawfulMonad m] {u64 : Int → m Int} (exact_ops : ∀ x, 0 ≤ x → x < 2 ^ 64 → u64 x = pure x)
structure Stripped (n : Int) (e : Nat) : Prop where
  positive : 0 < n
  few : e ≤ 9
  all : e < 9 → n % 10 ≠ 0

def codeOf (n : Int) (e : Nat) : Int := if e < 9 then 1 + (n / 10 * 9 + n % 10 - 1) * 10 + e else 1 + (n - 1) * 10 + 9

lemma dropZeros_mul {k left} (few : k ≤ left) (all : k < left → n % 10 ≠ 0) (e : Nat) :
    dropZeros (n * 10 ^ k) e left = (n, e + k) := by
  induction k generalizing e left with
  | zero =>
    rw [pow_zero, mul_one]
    cases left with
    | zero => rfl
    | succ left => rw [dropZeros, if_neg (all (succ_pos _)), add_zero]
  | succ k ih =>
    obtain ⟨left, rfl⟩ : ∃ rest, left = rest + 1 := ⟨left - 1, by omega⟩
    have digit : n * 10 ^ (k + 1) = n * 10 ^ k * 10 := by ring
    rw [dropZeros, digit, if_pos (Int.mul_emod_left _ _), Int.mul_ediv_cancel _ (by decide),
      ih (by omega) (fun less => all (by omega)), add_right_comm, add_assoc]

lemma exists_stripped (pos : 0 < n) : ∃ n' e, Stripped n' e ∧ n = n' * 10 ^ e := by
  have strip : ∀ (left : Nat) (n : Int), 0 < n → ∃ (n' : Int) (k : Nat), 0 < n' ∧ k ≤ left ∧ (k < left → n' % 10 ≠ 0) ∧
      n = n' * 10 ^ k := by
    intro left
    induction left with
    | zero => exact fun n pos => ⟨n, 0, pos, le_rfl, fun less => absurd less (lt_irrefl 0), by ring⟩
    | succ left ih =>
      intro n pos
      by_cases zero : n % 10 = 0
      · obtain ⟨n', k, positive', few, all, value⟩ := ih (n / 10) (by omega)
        refine ⟨n', k + 1, positive', by omega, fun less => all (by omega), ?_⟩
        have whole : n = n / 10 * 10 := by omega
        rw [whole, value]
        ring
      · exact ⟨n, 0, pos, by omega, fun _ => zero, by ring⟩
  obtain ⟨n', k, positive', few, all, value⟩ := strip 9 n pos
  exact ⟨n', k, ⟨positive', few, all⟩, value⟩

variable {e : Nat}
section
variable (stripped : Stripped n e)
include stripped

lemma codeOf_pos : 0 < codeOf n e := by
  have positive := stripped.positive
  unfold codeOf
  split
  · next less =>
    omega
  · omega

lemma codeOf_le : codeOf n e ≤ 10 * n := by
  have positive := stripped.positive
  unfold codeOf
  split
  · omega
  · omega

lemma le_codeOf : n ≤ codeOf n e := by
  have positive := stripped.positive
  unfold codeOf
  split
  · next less =>
    omega
  · omega
end

lemma exists_codeOf {x} (pos : 0 < x) : ∃ n e, Stripped n e ∧ x = codeOf n e := by
  by_cases less : (x - 1) % 10 < 9
  · refine ⟨(x - 1) / 10 / 9 * 10 + ((x - 1) / 10 % 9 + 1), ((x - 1) % 10).toNat, ⟨by omega, by omega, fun _ => by omega⟩, ?_⟩
    rw [codeOf]
    omega
  · refine ⟨(x - 1) / 10 + 1, 9, ⟨by omega, le_rfl, fun less => absurd less (lt_irrefl 9)⟩, ?_⟩
    rw [codeOf]
    omega

include exact_ops

lemma compressAmountWith_mul (stripped : Stripped n e) (small : codeOf n e < 2 ^ 64) :
    compressAmountWith u64 (n * 10 ^ e) = pure (codeOf n e) := by
  have positive := stripped.positive
  have nz : n * 10 ^ e ≠ 0 := (mul_pos positive (pow_pos (by decide) e)).ne'
  rw [compressAmountWith, if_neg nz, dropZeros_mul stripped.few stripped.all, zero_add]
  unfold codeOf at small ⊢
  dsimp only
  split
  · next less =>
    rw [if_pos less] at small
    rw [exact_ops _ (by omega) (by omega), pure_bind, exact_ops _ (by omega) (by omega), pure_bind,
      exact_ops _ (by omega) (by omega), pure_bind, exact_ops _ (by omega) (by omega), pure_bind,
      exact_ops _ (by omega) (by omega), pure_bind, exact_ops _ (by omega) (by omega)]
  · grind

lemma putZeros_exact (pos : 0 < n) (small : n * 10 ^ e < 2 ^ 64) : putZeros u64 n e = pure (n * 10 ^ e) := by
  induction e generalizing n with
  | zero => rw [putZeros, pow_zero, mul_one]
  | succ e ih =>
    have regroup : n * 10 ^ (e + 1) = n * 10 * 10 ^ e := by ring
    rw [regroup] at small ⊢
    have least : n * 10 ≤ n * 10 * 10 ^ e := le_mul_of_one_le_right (by omega) (one_le_pow₀ (by decide))
    rw [putZeros, exact_ops _ (by omega) (by omega), pure_bind, ih (by omega) small]

lemma decompressAmountWith_codeOf (stripped : Stripped n e) (code : codeOf n e < 2 ^ 64) :
    decompressAmountWith u64 (codeOf n e) = putZeros u64 n e := by
  have positive := stripped.positive
  have code_pos := codeOf_pos stripped
  have least := le_codeOf stripped
  rw [decompressAmountWith, if_neg code_pos.ne', exact_ops _ (by omega) (by omega), pure_bind]
  unfold codeOf
  by_cases less : e < 9
  · have digit := stripped.all less
    rw [if_pos less]
    have exponent : ((1 + (n / 10 * 9 + n % 10 - 1) * 10 + e - 1) % 10).toNat = e := by omega
    have quot : (1 + (n / 10 * 9 + n % 10 - 1) * 10 + e - 1) / 10 = n / 10 * 9 + n % 10 - 1 := by omega
    have tens : (n / 10 * 9 + n % 10 - 1) / 9 = n / 10 := by omega
    have last : (n / 10 * 9 + n % 10 - 1) % 9 + 1 = n % 10 := by omega
    have whole : n / 10 * 10 + n % 10 = n := by omega
    dsimp only
    rw [exponent, quot, if_pos less, tens, last, exact_ops _ (by omega) (by omega), pure_bind,
      exact_ops _ (by omega) (by omega), pure_bind,
      whole]
  · obtain rfl : e = 9 := by
      have few := stripped.few
      omega
    rw [if_neg less]
    have exponent : ((1 + (n - 1) * 10 + 9 - 1) % 10).toNat = 9 := by omega
    have quot : (1 + (n - 1) * 10 + 9 - 1) / 10 = n - 1 := by omega
    rw [exponent, quot, if_neg less, exact_ops _ (by omega) (by omega), pure_bind, sub_add_cancel]
end

lemma wrapUInt64_exact (x : Int) (nonneg : 0 ≤ x) (small : x < 2 ^ 64) : (pure (wrapUInt64 x) : Id Int) = pure x :=
  congrArg _ (Int.emod_eq_of_lt nonneg small)

lemma checkUInt64_exact (x : Int) (nonneg : 0 ≤ x) (small : x < 2 ^ 64) : checkUInt64 x = pure x := if_pos ⟨nonneg, small⟩
lemma putZeros_check {v e} (fits : n < 2 ^ 64) (put : putZeros checkUInt64 n e = some v) : v = n * 10 ^ e ∧ v < 2 ^ 64 := by
  induction e generalizing n with
  | zero =>
    cases put
    exact ⟨by ring, fits⟩
  | succ e ih =>
    obtain ⟨next, chk, rest⟩ := Option.bind_eq_some_iff.mp put
    unfold checkUInt64 at chk
    split at chk
    · next range =>
      cases chk
      obtain ⟨value, small⟩ := ih range.2 rest
      exact ⟨by rw [value]; ring, small⟩
    · cases chk

lemma compressAmount_decompress (nonneg : 0 ≤ n) (small : n ≤ mainConsensus.nMaxMoneyOut) :
    ∃ x, 0 ≤ x ∧ x < 2 ^ 64 ∧ compressAmountWith checkUInt64 n = some x ∧ compressAmount n = x ∧
      decompressAmountWith checkUInt64 x = some n ∧ decompressAmount x = n := by
  change n ≤ 9999999999 * 100000000 at small
  rcases nonneg.eq_or_lt with rfl | pos
  · exact ⟨0, le_rfl, by decide, rfl, rfl, rfl, rfl⟩
  · obtain ⟨n', e, stripped, rfl⟩ := exists_stripped pos
    have least : n' ≤ n' * 10 ^ e := le_mul_of_one_le_right stripped.positive.le (one_le_pow₀ (by decide))
    have code := codeOf_le stripped
    have code_pos := codeOf_pos stripped
    have code_lt : codeOf n' e < 2 ^ 64 := by omega
    have whole : n' * 10 ^ e < 2 ^ 64 := by omega
    refine ⟨_, code_pos.le, code_lt, ?_, ?_, ?_, ?_⟩
    · exact compressAmountWith_mul checkUInt64_exact stripped code_lt
    · exact congrArg _ (compressAmountWith_mul wrapUInt64_exact stripped code_lt)
    · rw [decompressAmountWith_codeOf checkUInt64_exact stripped code_lt]
      exact putZeros_exact checkUInt64_exact stripped.positive whole
    · simp [decompressAmount, decompressAmountWith_codeOf wrapUInt64_exact stripped code_lt,
        putZeros_exact wrapUInt64_exact stripped.positive whole]

lemma decompressAmount_compress {x} (nonneg : 0 ≤ x) (small : x < 2 ^ 64) (amt : decompressAmountWith checkUInt64 x = some n) :
    decompressAmount x = n ∧ compressAmountWith checkUInt64 n = some x ∧ compressAmount n = x := by
  rcases nonneg.eq_or_lt with rfl | pos
  · cases amt
    exact ⟨rfl, rfl, rfl⟩
  · obtain ⟨n', e, stripped, rfl⟩ := exists_codeOf pos
    have least := le_codeOf stripped
    rw [decompressAmountWith_codeOf checkUInt64_exact stripped small] at amt
    obtain ⟨rfl, whole⟩ := putZeros_check (by omega) amt
    refine ⟨?_, ?_, ?_⟩
    · simp [decompressAmount, decompressAmountWith_codeOf wrapUInt64_exact stripped small,
        putZeros_exact wrapUInt64_exact stripped.positive whole]
    · exact compressAmountWith_mul checkUInt64_exact stripped small
    · exact congrArg _ (compressAmountWith_mul wrapUInt64_exact stripped small)

end CTxOutCompressor

/-- Of the public keys only this is known: a key comes back from a coordinate and a parity. -/
structure PubKeys where
  isFullyValid : List UInt8 → Bool
  decompress : List UInt8 → Option (List UInt8)
  decompress_compressed : ∀ x y : List UInt8, x.length = 32 → (h : y.length = 32) → isFullyValid (4 :: (x ++ y)) = true →
    decompress ((2 + y.get ⟨31, by omega⟩ % 2) :: x) = some (4 :: (x ++ y))

def CScript.between (head : List UInt8) (n : Nat) (tail : List UInt8) (script : CScript) : Option (List UInt8) :=
  if script.length = head.length + n + tail.length ∧ script.take head.length = head ∧ script.drop (head.length + n) = tail then
    some ((script.drop head.length).take n)
  else none

lemma CScript.between_eq_some {head tail n script middle}
    (found : CScript.between head n tail script = some middle) : middle.length = n ∧ script = head ++ middle ++ tail := by
  unfold CScript.between at found
  split at found
  · next matched =>
    obtain ⟨size, front, back⟩ := matched
    cases found
    constructor
    · rw [length_take, length_drop]
      omega
    · have rest : script.drop head.length = (script.drop head.length).take n ++ tail := by rw [← back, ← drop_drop, take_append_drop]
      rw [append_assoc, ← rest]
      exact (take_append_drop _ _).symm.trans (congrArg (· ++ _) front)
  · cases found

namespace CScriptCompressor

def nSpecialScripts : Nat := 6
def isToKeyID : CScript → Option (List UInt8) := CScript.between [OP_DUP, OP_HASH160, 20] 20 [OP_EQUALVERIFY, OP_CHECKSIG]
def isToScriptID : CScript → Option (List UInt8) := CScript.between [OP_HASH160, 20] 20 [OP_EQUAL]

variable (keys : PubKeys) (script : CScript)
def isToPubKey : Option (List UInt8) :=
  match (CScript.between [33] 33 [OP_CHECKSIG] script).filter fun pubkey => pubkey.head? == some 2 || pubkey.head? == some 3 with
  | some pubkey => some pubkey
  | none => (CScript.between [65] 65 [OP_CHECKSIG] script).filter fun pubkey => pubkey.head? == some 4 && keys.isFullyValid pubkey

def compress : Option (List UInt8) :=
  match isToKeyID script with
  | some keyID => some (0 :: keyID)
  | none =>
    match isToScriptID script with
    | some scriptID => some (1 :: scriptID)
    | none =>
      match isToPubKey keys script with
      | some pubkey =>
        let out := (pubkey.drop 1).take 32
        if pubkey.getD 0 0 = 2 ∨ pubkey.getD 0 0 = 3 then some (pubkey.getD 0 0 :: out)
        else if pubkey.getD 0 0 = 4 then some ((4 ||| (pubkey.getD 64 0 &&& 1)) :: out)
        else none
      | none => none

def getSpecialSize (nSize : Nat) : Nat :=
  if nSize = 0 ∨ nSize = 1 then 20
  else if nSize = 2 ∨ nSize = 3 ∨ nSize = 4 ∨ nSize = 5 then 32
  else 0

def decompress (keys : PubKeys) (nSize : Nat) (bytes : List UInt8) : Option CScript :=
  match nSize with
  | 0 => some ([OP_DUP, OP_HASH160, 20] ++ bytes ++ [OP_EQUALVERIFY, OP_CHECKSIG])
  | 1 => some ([OP_HASH160, 20] ++ bytes ++ [OP_EQUAL])
  | 2 => some ([33] ++ 2 :: bytes ++ [OP_CHECKSIG])
  | 3 => some ([33] ++ 3 :: bytes ++ [OP_CHECKSIG])
  | 4 => (keys.decompress (2 :: bytes)).map fun pubkey => [65] ++ pubkey ++ [OP_CHECKSIG]
  | 5 => (keys.decompress (3 :: bytes)).map fun pubkey => [65] ++ pubkey ++ [OP_CHECKSIG]
  | _ => none

def serialize : List UInt8 :=
  match compress keys script with
  | some compr => compr
  | none => varInt 32 ((script.length + nSpecialScripts) % 2 ^ 32) ++ script

def unserialize : Reader CScript := do
  let nSize ← readVarInt 32
  if nSize < nSpecialScripts then do
    let bytes ← readBytes (getSpecialSize nSize)
    return (decompress keys nSize bytes).getD script
  else
    let nSize := nSize - nSpecialScripts
    if nSize > MAX_SCRIPT_SIZE then do
      let _ ← readBytes nSize
      return script ++ [OP_RETURN]
    else readBytes nSize

/-- The first byte is a special size, and decompression gives the script back. -/
structure Special (keys : PubKeys) (script : CScript) (mark : UInt8) (bytes : List UInt8) : Prop where
  special : mark.toNat < nSpecialScripts
  size : bytes.length = getSpecialSize mark.toNat
  back : decompress keys mark.toNat bytes = some script

variable {keys : PubKeys} {script : CScript}
lemma isToPubKey_cases {pubkey} (found : isToPubKey keys script = some pubkey) :
    (∃ mark x, (mark = 2 ∨ mark = 3) ∧ x.length = 32 ∧ pubkey = mark :: x ∧ script = [33] ++ pubkey ++ [OP_CHECKSIG]) ∨
      ∃ x y, x.length = 32 ∧ y.length = 32 ∧ keys.isFullyValid pubkey = true ∧ pubkey = 4 :: (x ++ y) ∧
        script = [65] ++ pubkey ++ [OP_CHECKSIG] := by
  unfold isToPubKey at found
  split at found
  · next compressed =>
    cases found
    obtain ⟨whole, first⟩ := Option.filter_eq_some_iff.mp compressed
    obtain ⟨size, form⟩ := CScript.between_eq_some whole
    cases pubkey with
    | nil => cases size
    | cons mark x =>
      refine .inl ⟨_, x, ?_, Nat.succ.inj size, rfl, form⟩
      simpa using first
  · obtain ⟨whole, first⟩ := Option.filter_eq_some_iff.mp found
    obtain ⟨size, form⟩ := CScript.between_eq_some whole
    cases pubkey with
    | nil => cases size
    | cons mark xy =>
      obtain ⟨own, valid⟩ := Bool.and_eq_true_iff.mp first
      obtain rfl : mark = 4 := by simpa using own
      have length : xy.length = 64 := Nat.succ.inj size
      refine .inr ⟨xy.take 32, xy.drop 32, ?_, ?_, valid, ?_, form⟩
      · rw [length_take, length]
        rfl
      · rw [length_drop, length]
      · rw [take_append_drop]

lemma parity_cases {last : UInt8} : last % 2 = 0 ∧ 4 ||| (last &&& 1) = 4 ∨ last % 2 = 1 ∧ 4 ||| (last &&& 1) = 5 := by
  have bit : last &&& 1 = last % 2 := by
    apply UInt8.toNat_inj.mp
    exact and_one_is_mod _
  have cases : last % 2 = 0 ∨ last % 2 = 1 := by
    have less := mod_two_eq_zero_or_one last.toNat
    rw [← UInt8.toNat_inj, ← UInt8.toNat_inj]
    exact less
  rw [bit]
  rcases cases with even | odd
  · exact .inl ⟨even, by rw [even]; rfl⟩
  · exact .inr ⟨odd, by rw [odd]; rfl⟩

lemma compress_special {compr} (compressed : compress keys script = some compr) :
    ∃ mark bytes, compr = mark :: bytes ∧ Special keys script mark bytes := by
  unfold compress at compressed
  split at compressed
  · next keyID found =>
    cases compressed
    obtain ⟨size, form⟩ := CScript.between_eq_some found
    exact ⟨0, _, rfl, by decide, size, congrArg _ form.symm⟩
  split at compressed
  · next scriptID found =>
    cases compressed
    obtain ⟨size, form⟩ := CScript.between_eq_some found
    exact ⟨1, _, rfl, by decide, size, congrArg _ form.symm⟩
  split at compressed
  · next pubkey found =>
    rcases isToPubKey_cases found with ⟨mark, x, kind, size, rfl, form⟩ | ⟨x, y, sizeX, sizeY, valid, rfl, form⟩
    · have out : ((mark :: x).drop 1).take 32 = x := by rw [drop_one, tail_cons, ← size, take_length]
      rw [out] at compressed
      change (if mark = 2 ∨ mark = 3 then some _ else _) = some _ at compressed
      rw [if_pos kind] at compressed
      cases compressed
      rcases kind with rfl | rfl
      · exact ⟨2, x, rfl, by decide, size, congrArg _ form.symm⟩
      · exact ⟨3, x, rfl, by decide, size, congrArg _ form.symm⟩
    · have out : ((4 :: (x ++ y)).drop 1).take 32 = x := by rw [drop_one, tail_cons, ← sizeX, take_left]
      have last : (4 :: (x ++ y)).getD 64 0 = y.get ⟨31, by omega⟩ := by
        rw [getD_cons_succ, getD_eq_getElem?_getD, getElem?_append_right (by omega), sizeX]
        rw [getElem?_eq_getElem]
        rfl
      have inverse := keys.decompress_compressed x y sizeX sizeY valid
      rw [out, last] at compressed
      cases compressed
      refine ⟨_, x, rfl, ?_⟩
      rcases parity_cases with ⟨even, mark⟩ | ⟨odd, mark⟩
      · rw [even] at inverse
        rw [mark]
        refine ⟨by decide, sizeX, ?_⟩
        change (keys.decompress _).map _ = some _
        rw [show (2 : UInt8) = 2 + 0 from rfl, inverse, form]
        rfl
      · rw [odd] at inverse
        rw [mark]
        refine ⟨by decide, sizeX, ?_⟩
        change (keys.decompress _).map _ = some _
        rw [show (3 : UInt8) = 2 + 1 from rfl, inverse, form]
        rfl
  · cases compressed

lemma reads_serialize (keys present script) (short : script.length ≤ MAX_SCRIPT_SIZE) :
    Reads (unserialize keys present) (serialize keys script) script := by
  unfold MAX_SCRIPT_SIZE at short
  unfold serialize
  cases compressed : compress _ _ with
  | some compr =>
    obtain ⟨mark, bytes, rfl, special⟩ := compress_special compressed
    have less : mark.toNat < 6 := special.special
    have read : Reads (readVarInt 32) [mark] mark.toNat := by
      have read := reads_varInt (w := 32) (n := mark.toNat) (by decide) (by omega)
      rwa [varInt_of_le (by decide) (by omega), UInt8.ofNat_toNat] at read
    apply read.bind
    rw [if_pos special.special, ← special.size]
    apply (reads_bytes _).bind_nil
    rw [special.back]
    exact Reads.pure _
  | none =>
    have size : (script.length + nSpecialScripts) % 2 ^ 32 = script.length + 6 := mod_eq_of_lt (by unfold nSpecialScripts; omega)
    rw [size]
    apply (reads_varInt (by decide) (by omega)).bind
    rw [if_neg (by unfold nSpecialScripts; omega)]
    have rest : script.length + 6 - nSpecialScripts = script.length := Nat.add_sub_cancel _ _
    rw [if_neg (by unfold MAX_SCRIPT_SIZE; omega)]
    exact reads_bytes _

end CScriptCompressor

namespace CTxOutCompressor
variable (keys : PubKeys) (txout : CTxOut)
def serialize : List UInt8 :=
  varInt 64 (compressAmount (wrapUInt64 txout.nValue)).toNat ++ CScriptCompressor.serialize keys txout.scriptPubKey

def unserialize : Reader CTxOut := do
  let nVal ← readVarInt 64
  let nValue := wrapInt64 (decompressAmount nVal)
  let scriptPubKey ← CScriptCompressor.unserialize keys txout.scriptPubKey
  return ⟨nValue, scriptPubKey⟩

end CTxOutCompressor

namespace Coin

def code (coin : Coin) : Nat :=
  (coin.nHeight * 4 % 2 ^ 32 + (if coin.fCoinBase then 2 else 0) + (if coin.fCoinStake then 1 else 0)) % 2 ^ 32

variable (keys : PubKeys)
def serialize (coin : Coin) : Option (List UInt8) :=
  if coin.isSpent then none else some (varInt 32 coin.code ++ CTxOutCompressor.serialize keys coin.out)

def unserialize : Reader Coin := do
  let code ← readVarInt 32
  let out ← CTxOutCompressor.unserialize keys coinEmpty.out
  return ⟨code.testBit 1, code.testBit 0, out, code / 4⟩

end Coin

structure Storable (coin : Coin) : Prop where
  nonneg : 0 ≤ coin.out.nValue
  value : coin.out.nValue ≤ mainConsensus.nMaxMoneyOut
  script : coin.out.scriptPubKey.length ≤ MAX_SCRIPT_SIZE
  height : coin.nHeight < 2 ^ 30

lemma Coin.code_lt (coin : Coin) : coin.code < 2 ^ 32 := mod_lt _ (by decide)

namespace Storable
variable {coin : Coin} (storable : Storable coin)
include storable

variable (keys : PubKeys)
lemma reads_out (present : CTxOut) :
    Reads (CTxOutCompressor.unserialize keys present) (CTxOutCompressor.serialize keys coin.out) coin.out := by
  have value : coin.out.nValue ≤ 9999999999 * 100000000 := storable.value
  have nonneg := storable.nonneg
  obtain ⟨x, code_nonneg, code_lt, -, code, -, back⟩ := CTxOutCompressor.compressAmount_decompress storable.nonneg storable.value
  have unsigned : wrapUInt64 coin.out.nValue = coin.out.nValue := Int.emod_eq_of_lt nonneg (by omega)
  unfold CTxOutCompressor.serialize
  rw [unsigned, code]
  apply (reads_varInt (by decide) (by omega)).bind
  rw [Int.toNat_of_nonneg code_nonneg, back]
  apply (CScriptCompressor.reads_serialize _ _ _ storable.script).bind_nil
  have signed : wrapInt64 coin.out.nValue = coin.out.nValue := wrapInt64_of_fits ⟨by omega, by omega⟩
  rw [signed]
  exact Reads.pure _

lemma code_eq : coin.code = coin.nHeight * 4 + (if coin.fCoinBase then 2 else 0) + (if coin.fCoinStake then 1 else 0) := by
  have height := storable.height
  unfold Coin.code
  rw [mod_eq_of_lt (by omega : coin.nHeight * 4 < 2 ^ 32)]
  apply mod_eq_of_lt
  split <;> split <;> omega

lemma code_height : coin.code / 4 = coin.nHeight := by grind [storable.code_eq]
lemma code_coinBase : coin.code.testBit 1 = coin.fCoinBase := by grind [storable.code_eq, testBit_succ]
lemma code_coinStake : coin.code.testBit 0 = coin.fCoinStake := by grind [storable.code_eq]
lemma coin_eq : (⟨coin.code.testBit 1, coin.code.testBit 0, coin.out, coin.code / 4⟩ : Coin) = coin := by
  rw [storable.code_coinBase, storable.code_coinStake, storable.code_height]

lemma serialize_eq : coin.serialize keys = some (varInt 32 coin.code ++ CTxOutCompressor.serialize keys coin.out) := by
  have nonneg := storable.nonneg
  apply if_neg
  intro spent
  have null : coin.out.nValue = -1 := eq_of_beq spent
  omega

lemma reads_coin : Reads (Coin.unserialize keys) (varInt 32 coin.code ++ CTxOutCompressor.serialize keys coin.out) coin := by
  apply (reads_varInt (by decide) coin.code_lt).bind
  apply (storable.reads_out _ _).bind_nil
  rw [storable.coin_eq]
  exact Reads.pure _

end Storable

end Peony
