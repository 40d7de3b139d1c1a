import Peony.Primitives.Script

/-! Opcodes, the parts of a script that `CScript::GetOp2` reads, and the numbers on the stack (script.h). -/

namespace Peony

abbrev valtype := List UInt8
def MAX_SCRIPT_ELEMENT_SIZE : Nat := 520
def OP_0 : UInt8 := 0x00
def OP_1NEGATE : UInt8 := 0x4f
def OP_1 : UInt8 := 0x51
def OP_16 : UInt8 := 0x60
def OP_NOP : UInt8 := 0x61
def OP_IF : UInt8 := 0x63
def OP_NOTIF : UInt8 := 0x64
def OP_ELSE : UInt8 := 0x67
def OP_ENDIF : UInt8 := 0x68
def OP_VERIFY : UInt8 := 0x69
def OP_TOALTSTACK : UInt8 := 0x6b
def OP_FROMALTSTACK : UInt8 := 0x6c
def OP_2DROP : UInt8 := 0x6d
def OP_2DUP : UInt8 := 0x6e
def OP_3DUP : UInt8 := 0x6f
def OP_2OVER : UInt8 := 0x70
def OP_2ROT : UInt8 := 0x71
def OP_2SWAP : UInt8 := 0x72
def OP_IFDUP : UInt8 := 0x73
def OP_DEPTH : UInt8 := 0x74
def OP_DROP : UInt8 := 0x75
def OP_NIP : UInt8 := 0x77
def OP_OVER : UInt8 := 0x78
def OP_PICK : UInt8 := 0x79
def OP_ROLL : UInt8 := 0x7a
def OP_ROT : UInt8 := 0x7b
def OP_SWAP : UInt8 := 0x7c
def OP_TUCK : UInt8 := 0x7d
def OP_CAT : UInt8 := 0x7e
def OP_SUBSTR : UInt8 := 0x7f
def OP_LEFT : UInt8 := 0x80
def OP_RIGHT : UInt8 := 0x81
def OP_SIZE : UInt8 := 0x82
def OP_INVERT : UInt8 := 0x83
def OP_AND : UInt8 := 0x84
def OP_OR : UInt8 := 0x85
def OP_XOR : UInt8 := 0x86
def OP_1ADD : UInt8 := 0x8b
def OP_1SUB : UInt8 := 0x8c
def OP_2MUL : UInt8 := 0x8d
def OP_2DIV : UInt8 := 0x8e
def OP_NEGATE : UInt8 := 0x8f
def OP_ABS : UInt8 := 0x90
def OP_NOT : UInt8 := 0x91
def OP_0NOTEQUAL : UInt8 := 0x92
def OP_ADD : UInt8 := 0x93
def OP_SUB : UInt8 := 0x94
def OP_MUL : UInt8 := 0x95
def OP_DIV : UInt8 := 0x96
def OP_MOD : UInt8 := 0x97
def OP_LSHIFT : UInt8 := 0x98
def OP_RSHIFT : UInt8 := 0x99
def OP_BOOLAND : UInt8 := 0x9a
def OP_BOOLOR : UInt8 := 0x9b
def OP_NUMEQUAL : UInt8 := 0x9c
def OP_NUMEQUALVERIFY : UInt8 := 0x9d
def OP_NUMNOTEQUAL : UInt8 := 0x9e
def OP_LESSTHAN : UInt8 := 0x9f
def OP_GREATERTHAN : UInt8 := 0xa0
def OP_LESSTHANOREQUAL : UInt8 := 0xa1
def OP_GREATERTHANOREQUAL : UInt8 := 0xa2
def OP_MIN : UInt8 := 0xa3
def OP_MAX : UInt8 := 0xa4
def OP_WITHIN : UInt8 := 0xa5
def OP_RIPEMD160 : UInt8 := 0xa6
def OP_SHA1 : UInt8 := 0xa7
def OP_SHA256 : UInt8 := 0xa8
def OP_HASH256 : UInt8 := 0xaa
def OP_CODESEPARATOR : UInt8 := 0xab
def OP_CHECKSIGVERIFY : UInt8 := 0xad
def OP_CHECKMULTISIG : UInt8 := 0xae
def OP_CHECKMULTISIGVERIFY : UInt8 := 0xaf
def OP_NOP1 : UInt8 := 0xb0
def OP_CHECKLOCKTIMEVERIFY : UInt8 := 0xb1
def OP_NOP3 : UInt8 := 0xb2
def OP_NOP10 : UInt8 := 0xb9

/-! Reading a script. A cursor is the rest of the script. -/

structure GetOpResult where
  fRet : Bool
  opcodeRet : UInt8
  vchRet : valtype
  pc : CScript
  deriving DecidableEq

def readOperand (opcode : UInt8) (nSize : Nat) (pc : CScript) : GetOpResult :=
  if pc.length < nSize then ⟨false, OP_INVALIDOPCODE, [], pc⟩ else ⟨true, opcode, pc.take nSize, pc.drop nSize⟩

def readSizedOperand (opcode : UInt8) (sizeBytes : Nat) (pc : CScript) : GetOpResult :=
  if pc.length < sizeBytes then ⟨false, OP_INVALIDOPCODE, [], pc⟩
  else readOperand opcode (readLE (pc.take sizeBytes)) (pc.drop sizeBytes)

def getOp2 : CScript → GetOpResult
  | [] => ⟨false, OP_INVALIDOPCODE, [], []⟩
  | opcode :: pc =>
    if opcode ≤ OP_PUSHDATA4 then
      if opcode < OP_PUSHDATA1 then readOperand opcode opcode.toNat pc
      else if opcode = OP_PUSHDATA1 then readSizedOperand opcode 1 pc
      else if opcode = OP_PUSHDATA2 then readSizedOperand opcode 2 pc
      else readSizedOperand opcode 4 pc
    else ⟨true, opcode, [], pc⟩

structure GetOpResult.Takes (read : GetOpResult) (opcode : UInt8) (pc : CScript) : Prop where
  suffix : read.pc <:+ pc
  opcode_eq : read.fRet = true → read.opcodeRet = opcode

variable (opcode : UInt8)
lemma readOperand_takes (nSize pc) : (readOperand opcode nSize pc).Takes opcode pc := by
  unfold readOperand
  split
  · exact ⟨List.suffix_refl pc, nofun⟩
  · exact ⟨List.drop_suffix _ pc, fun _ => rfl⟩

lemma readSizedOperand_takes (sizeBytes pc) : (readSizedOperand opcode sizeBytes pc).Takes opcode pc := by
  unfold readSizedOperand
  split
  · exact ⟨List.suffix_refl pc, nofun⟩
  · have operand := readOperand_takes opcode (readLE (pc.take sizeBytes)) (pc.drop sizeBytes)
    exact ⟨operand.suffix.trans (List.drop_suffix _ pc), operand.opcode_eq⟩

lemma getOp2_takes (pc) : (getOp2 (opcode :: pc)).Takes opcode pc := by
  rw [getOp2]
  split
  · split
    · exact readOperand_takes ..
    split
    · exact readSizedOperand_takes ..
    split
    · exact readSizedOperand_takes ..
    · exact readSizedOperand_takes ..
  · exact ⟨List.suffix_refl pc, fun _ => rfl⟩

lemma getOp2_of_plain {opcode} (plain : ¬opcode ≤ OP_PUSHDATA4) (pc) : getOp2 (opcode :: pc) = ⟨true, opcode, [], pc⟩ :=
  if_neg plain

/-- Without the operand, `GetOp2` is the reader of `IsNormalPaymentScript`. -/
lemma getOp_eq (pc) : getOp pc = ((getOp2 pc).opcodeRet, (getOp2 pc).pc) := by
  have operand : ∀ (opcode : UInt8) nSize pc, skipOperand opcode nSize pc =
      ((readOperand opcode nSize pc).opcodeRet, (readOperand opcode nSize pc).pc) := by
    intro opcode nSize pc
    unfold skipOperand readOperand
    split <;> rfl
  cases pc with
  | nil => rfl
  | cons opcode pc =>
    unfold getOp getOp2 readSizedOperand
    by_cases high : OP_PUSHDATA4 < opcode
    · simp [high, UInt8.not_le.mpr high]
    · by_cases direct : opcode < OP_PUSHDATA1
      · simp [high, UInt8.not_lt.mp high, direct, operand]
      · have last : opcode ≠ OP_PUSHDATA1 → opcode ≠ OP_PUSHDATA2 → opcode = OP_PUSHDATA4 := by
          simp only [OP_PUSHDATA1, OP_PUSHDATA2, OP_PUSHDATA4, UInt8.lt_iff_toNat_lt, ne_eq, ← UInt8.toNat_inj] at high direct ⊢
          simp at high direct ⊢
          omega
        simp only [high, UInt8.not_lt.mp high, direct, if_true, if_false, operand]
        grind

def decodeOpN : Nat := if opcode = OP_0 then 0 else opcode.toNat - 0x50

def pushData (b : valtype) : CScript :=
  if b.length < OP_PUSHDATA1.toNat then UInt8.ofNat b.length :: b
  else if b.length ≤ 0xff then OP_PUSHDATA1 :: writeLE 1 b.length ++ b
  else if b.length ≤ 0xffff then OP_PUSHDATA2 :: writeLE 2 b.length ++ b
  else OP_PUSHDATA4 :: writeLE 4 b.length ++ b

def skipEqual (b : CScript) : (fuel : Nat) → CScript → Nat → CScript × Nat
  | 0, pc, nFound => (pc, nFound)
  | fuel + 1, pc, nFound => if b.isPrefixOf pc then skipEqual b fuel (pc.drop b.length) (nFound + 1) else (pc, nFound)

def findAndDeleteFrom (b : CScript) : (fuel : Nat) → (pc2 pc result : CScript) → Nat → CScript × Nat
  | 0, pc2, _, result, nFound => (result ++ pc2, nFound)
  | fuel + 1, pc2, pc, result, nFound =>
    let result := result ++ pc2.take (pc2.length - pc.length)
    let (pc, nFound) := skipEqual b pc.length pc nFound
    let read := getOp2 pc
    if read.fRet then findAndDeleteFrom b fuel pc read.pc result nFound else (result ++ pc, nFound)

def findAndDelete (script b : CScript) : CScript × Nat :=
  if b.isEmpty then (script, 0)
  else
    let (result, nFound) := findAndDeleteFrom b (script.length + 1) script script [] 0
    if nFound > 0 then (result, nFound) else (script, 0)

def setVch (vch : valtype) : Int :=
  if vch.isEmpty then 0
  else if vch.getLastD 0 &&& 0x80 ≠ 0 then -((readLE vch - 0x80 * 256 ^ (vch.length - 1) : Nat) : Int)
  else readLE vch

/-- `none` is the `scriptnum_error` that is thrown. -/
def scriptNumOf (vch : valtype) (fRequireMinimal : Bool) (nMaxNumSize : Nat) : Option Int :=
  if vch.length > nMaxNumSize then none
  else if fRequireMinimal && !vch.isEmpty && vch.getLastD 0 &&& 0x7f == 0 &&
      (decide (vch.length ≤ 1) || vch.getD (vch.length - 2) 0 &&& 0x80 == 0) then none
  else some (setVch vch)

def nDefaultMaxNumSize : Nat := 4

def getint (n : Int) : Int :=
  if n > 2147483647 then 2147483647 else if n < -2147483648 then -2147483648 else n

/-- The bytes of an absolute value, the low one first. -/
def absBytes : (size n : Nat) → List UInt8
  | 0, _ => []
  | size + 1, n => if n = 0 then [] else UInt8.ofNat n :: absBytes size (n / 256)

def serializeNum (value : Int) : valtype :=
  if value = 0 then []
  else
    let neg := decide (value < 0)
    let result := absBytes 8 value.natAbs
    if result.getLastD 0 &&& 0x80 ≠ 0 then result ++ [if neg then 0x80 else 0]
    else if neg then result.dropLast ++ [result.getLastD 0 ||| 0x80]
    else result

lemma scriptNumOf_serializeNum {n : Nat} (small : n ≤ 20) (fRequireMinimal) :
    scriptNumOf (serializeNum n) fRequireMinimal nDefaultMaxNumSize = some (n : Int) := by
  revert fRequireMinimal
  have all : ∀ k ≤ 20, ∀ flag, scriptNumOf (serializeNum (k : Nat)) flag nDefaultMaxNumSize = some (k : Int) := by decide
  exact all n small

end Peony
