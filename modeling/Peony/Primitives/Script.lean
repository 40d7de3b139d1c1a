import Peony.Primitives.Transaction

namespace Peony

def OP_PUSHDATA1 : UInt8 := 0x4c
def OP_PUSHDATA2 : UInt8 := 0x4d
def OP_PUSHDATA4 : UInt8 := 0x4e
def OP_DUP : UInt8 := 0x76
def OP_EQUAL : UInt8 := 0x87
def OP_EQUALVERIFY : UInt8 := 0x88
def OP_HASH160 : UInt8 := 0xa9
def OP_CHECKSIG : UInt8 := 0xac
def OP_INVALIDOPCODE : UInt8 := 0xff
def SCRIPT_VERIFY_P2SH : Nat := 1
def SCRIPT_VERIFY_DERSIG : Nat := 4
def SCRIPT_VERIFY_CHECKLOCKTIMEVERIFY : Nat := 512

def readLE : List UInt8 → Nat
  | [] => 0
  | byte :: bytes => byte.toNat + 256 * readLE bytes

def writeLE : (size n : Nat) → List UInt8
  | 0, _ => []
  | size + 1, n => UInt8.ofNat n :: writeLE size (n / 256)

lemma length_writeLE {k n} : (writeLE k n).length = k := by
  induction k generalizing n with
  | zero => rfl
  | succ k ih => rw [writeLE, List.length_cons, ih]

def skipOperand (opcode : UInt8) (nSize : Nat) (pc : CScript) : UInt8 × CScript :=
  if pc.length < nSize then (OP_INVALIDOPCODE, pc) else (opcode, pc.drop nSize)

def getOp : CScript → UInt8 × CScript
  | [] => (OP_INVALIDOPCODE, [])
  | opcode :: pc =>
    let sizeBytes :=
      if opcode = OP_PUSHDATA1 then 1 else if opcode = OP_PUSHDATA2 then 2 else if opcode = OP_PUSHDATA4 then 4 else 0
    if OP_PUSHDATA4 < opcode then (opcode, pc)
    else if opcode < OP_PUSHDATA1 then skipOperand opcode opcode.toNat pc
    else if pc.length < sizeBytes then (OP_INVALIDOPCODE, pc)
    else skipOperand opcode (readLE (pc.take sizeBytes)) (pc.drop sizeBytes)

def normalPaymentOp (i : Nat) (opcode : UInt8) : Bool :=
  if i = 0 then opcode == OP_DUP
  else if i = 1 then opcode == OP_HASH160
  else if i = 3 then opcode == OP_EQUALVERIFY
  else if i = 4 then opcode == OP_CHECKSIG
  else i != 5

/-- The loop of `IsNormalPaymentScript`; it returns at the latest when `i` is 5. -/
def normalPaymentOps : (left i : Nat) → CScript → Bool
  | 0, _, pc => pc.isEmpty
  | left + 1, i, pc =>
    pc.isEmpty || (normalPaymentOp i (getOp pc).1 && normalPaymentOps left (i + 1) (getOp pc).2)

def isNormalPaymentScript (script : CScript) : Bool := script.length == 25 && normalPaymentOps 6 0 script

lemma isUnspendable_of_normalPayment {script} (normal : isNormalPaymentScript script = true) :
    isUnspendable script = false := by
  simp only [isNormalPaymentScript, Bool.and_eq_true, beq_iff_eq] at normal
  obtain ⟨size, ops⟩ := normal
  cases script with
  | nil => cases size
  | cons opcode pc =>
    have short : (opcode :: pc).length ≤ MAX_SCRIPT_SIZE := by
      rw [size]
      decide
    have first : opcode ≠ OP_RETURN := by
      rintro rfl
      have starts : (getOp (OP_RETURN :: pc)).1 = OP_RETURN := rfl
      simp only [normalPaymentOps, starts] at ops
      exact absurd ops (by simp [normalPaymentOp, OP_RETURN, OP_DUP])
    simpa [isUnspendable, first] using short

end Peony
