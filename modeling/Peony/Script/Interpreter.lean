import Peony.Script.Opcode

/-! `EvalScript`: the stack machine that runs a script (interpreter.cpp). The top of a stack is the head of its list. -/

namespace Peony

inductive ScriptError where
  | UNKNOWN_ERROR | OP_RETURN | SCRIPT_SIZE | PUSH_SIZE | OP_COUNT | STACK_SIZE | SIG_COUNT | PUBKEY_COUNT
  | VERIFY | EQUALVERIFY | CHECKMULTISIGVERIFY | CHECKSIGVERIFY | NUMEQUALVERIFY | BAD_OPCODE
  | DISABLED_OPCODE | INVALID_STACK_OPERATION | INVALID_ALTSTACK_OPERATION | UNBALANCED_CONDITIONAL
  | NEGATIVE_LOCKTIME | UNSATISFIED_LOCKTIME | SIG_HASHTYPE | SIG_DER | MINIMALDATA | SIG_HIGH_S
  | SIG_NULLDUMMY | PUBKEYTYPE | DISCOURAGE_UPGRADABLE_NOPS
  deriving DecidableEq, Repr

def SCRIPT_VERIFY_NONE : Nat := 0
def SCRIPT_VERIFY_STRICTENC : Nat := 2 ^ 1
def SCRIPT_VERIFY_LOW_S : Nat := 2 ^ 3
def SCRIPT_VERIFY_NULLDUMMY : Nat := 2 ^ 4
def SCRIPT_VERIFY_MINIMALDATA : Nat := 2 ^ 6
def SCRIPT_VERIFY_DISCOURAGE_UPGRADABLE_NOPS : Nat := 2 ^ 7
def hasFlag (flags mask : Nat) : Bool := flags &&& mask != 0
def SIGHASH_ALL : Nat := 1
def SIGHASH_NONE : Nat := 2
def SIGHASH_SINGLE : Nat := 3
def SIGHASH_ANYONECANPAY : Nat := 0x80

inductive SigVersion where
  | SIGVERSION_BASE | SIGVERSION_WITNESS_V0
  deriving DecidableEq, Repr

structure SignatureChecker where
  checkSig : valtype → valtype → CScript → SigVersion → Bool
  checkLockTime : Int → Bool

def BaseSignatureChecker : SignatureChecker := ⟨fun _ _ _ _ => false, fun _ => false⟩

structure Crypto where
  ripemd160 : valtype → valtype
  sha1 : valtype → valtype
  sha256 : valtype → valtype
  hash160 : valtype → valtype
  hash256 : valtype → valtype
  checkLowS : valtype → Bool

def vchFalse : valtype := []
def vchTrue : valtype := [1]
def boolVch (fValue : Bool) : valtype := if fValue then vchTrue else vchFalse

def castToBool : valtype → Bool
  | [] => false
  | byte :: rest => if byte ≠ 0 then !(rest.isEmpty && byte == 0x80) else castToBool rest

section
variable (crypto : Crypto) (flags : Nat)
def isCompressedOrUncompressedPubKey (vchPubKey : valtype) : Bool :=
  let first := vchPubKey.getD 0 0
  if vchPubKey.length < 33 then false
  else if first = 0x04 then vchPubKey.length == 65
  else if first = 0x02 ∨ first = 0x03 then vchPubKey.length == 33
  else false

def isValidSignatureEncoding (sig : valtype) : Bool :=
  let lenR := (sig.getD 3 0).toNat
  let lenS := (sig.getD (5 + lenR) 0).toNat
  if sig.length < 9 then false
  else if sig.length > 73 then false
  else if sig.getD 0 0 ≠ 0x30 then false
  else if (sig.getD 1 0).toNat ≠ sig.length - 3 then false
  else if 5 + lenR ≥ sig.length then false
  else if lenR + lenS + 7 ≠ sig.length then false
  else if sig.getD 2 0 ≠ 0x02 then false
  else if lenR = 0 then false
  else if sig.getD 4 0 &&& 0x80 ≠ 0 then false
  else if lenR > 1 ∧ sig.getD 4 0 = 0x00 ∧ sig.getD 5 0 &&& 0x80 = 0 then false
  else if sig.getD (lenR + 4) 0 ≠ 0x02 then false
  else if lenS = 0 then false
  else if sig.getD (lenR + 6) 0 &&& 0x80 ≠ 0 then false
  else if lenS > 1 ∧ sig.getD (lenR + 6) 0 = 0x00 ∧ sig.getD (lenR + 7) 0 &&& 0x80 = 0 then false
  else true

variable (vchSig : valtype)
def isLowDERSignature : Except ScriptError Unit :=
  if !isValidSignatureEncoding vchSig then .error .SIG_DER
  else if !crypto.checkLowS vchSig.dropLast then .error .SIG_HIGH_S
  else .ok ()

def isDefinedHashtypeSignature : Bool :=
  if vchSig.isEmpty then false
  else
    let nHashType := (vchSig.getLastD 0 &&& ~~~(UInt8.ofNat SIGHASH_ANYONECANPAY)).toNat
    !(decide (nHashType < SIGHASH_ALL) || decide (nHashType > SIGHASH_SINGLE))

def checkSignatureEncoding : Except ScriptError Unit :=
  if vchSig.isEmpty then .ok ()
  else if hasFlag flags (SCRIPT_VERIFY_DERSIG ||| SCRIPT_VERIFY_LOW_S ||| SCRIPT_VERIFY_STRICTENC) && !isValidSignatureEncoding vchSig then
    .error .SIG_DER
  else
    match if hasFlag flags SCRIPT_VERIFY_LOW_S then isLowDERSignature crypto vchSig else .ok () with
    | .error e => .error e
    | .ok () => if hasFlag flags SCRIPT_VERIFY_STRICTENC && !isDefinedHashtypeSignature vchSig then .error .SIG_HASHTYPE else .ok ()

def checkPubKeyEncoding (vchPubKey : valtype) : Except ScriptError Unit :=
  if hasFlag flags SCRIPT_VERIFY_STRICTENC && !isCompressedOrUncompressedPubKey vchPubKey then .error .PUBKEYTYPE else .ok ()

def checkMinimalPush (data : valtype) (opcode : UInt8) : Bool :=
  let first := (data.getD 0 0).toNat
  if data.length = 0 then opcode == OP_0
  else if data.length = 1 ∧ 1 ≤ first ∧ first ≤ 16 then opcode.toNat == OP_1.toNat + (first - 1)
  else if data.length = 1 ∧ first = 0x81 then opcode == OP_1NEGATE
  else if data.length ≤ 75 then opcode.toNat == data.length
  else if data.length ≤ 255 then opcode == OP_PUSHDATA1
  else if data.length ≤ 65535 then opcode == OP_PUSHDATA2
  else true
end

variable (crypto : Crypto) (checker : SignatureChecker) (flags : Nat)
/-- A refused number throws, which ends the run as an unknown error. -/
def numberAt (vch : valtype) (nMaxNumSize : Nat) : Except ScriptError Int :=
  match scriptNumOf vch (hasFlag flags SCRIPT_VERIFY_MINIMALDATA) nMaxNumSize with
  | some n => .ok n
  | none => .error .UNKNOWN_ERROR

variable (opcode : UInt8)
def moveOp : Option (List valtype → Except ScriptError (List valtype)) :=
  if opcode = OP_2DROP then some fun
    | _ :: _ :: stack => .ok stack
    | _ => .error .INVALID_STACK_OPERATION
  else if opcode = OP_2DUP then some fun
    | x2 :: x1 :: stack => .ok (x2 :: x1 :: x2 :: x1 :: stack)
    | _ => .error .INVALID_STACK_OPERATION
  else if opcode = OP_3DUP then some fun
    | x3 :: x2 :: x1 :: stack => .ok (x3 :: x2 :: x1 :: x3 :: x2 :: x1 :: stack)
    | _ => .error .INVALID_STACK_OPERATION
  else if opcode = OP_2OVER then some fun
    | x4 :: x3 :: x2 :: x1 :: stack => .ok (x2 :: x1 :: x4 :: x3 :: x2 :: x1 :: stack)
    | _ => .error .INVALID_STACK_OPERATION
  else if opcode = OP_2ROT then some fun
    | x6 :: x5 :: x4 :: x3 :: x2 :: x1 :: stack => .ok (x2 :: x1 :: x6 :: x5 :: x4 :: x3 :: stack)
    | _ => .error .INVALID_STACK_OPERATION
  else if opcode = OP_2SWAP then some fun
    | x4 :: x3 :: x2 :: x1 :: stack => .ok (x2 :: x1 :: x4 :: x3 :: stack)
    | _ => .error .INVALID_STACK_OPERATION
  else if opcode = OP_IFDUP then some fun
    | vch :: stack => .ok (if castToBool vch then vch :: vch :: stack else vch :: stack)
    | _ => .error .INVALID_STACK_OPERATION
  else if opcode = OP_DEPTH then some fun stack => .ok (serializeNum stack.length :: stack)
  else if opcode = OP_DROP then some fun
    | _ :: stack => .ok stack
    | _ => .error .INVALID_STACK_OPERATION
  else if opcode = OP_DUP then some fun
    | vch :: stack => .ok (vch :: vch :: stack)
    | _ => .error .INVALID_STACK_OPERATION
  else if opcode = OP_NIP then some fun
    | x2 :: _ :: stack => .ok (x2 :: stack)
    | _ => .error .INVALID_STACK_OPERATION
  else if opcode = OP_OVER then some fun
    | x2 :: x1 :: stack => .ok (x1 :: x2 :: x1 :: stack)
    | _ => .error .INVALID_STACK_OPERATION
  else if opcode = OP_PICK ∨ opcode = OP_ROLL then some fun
    | top :: x :: stack => do
      let n := getint (← numberAt flags top nDefaultMaxNumSize)
      let stack := x :: stack
      if n < 0 ∨ n ≥ stack.length then .error .INVALID_STACK_OPERATION
      else
        let vch := stack.getD n.toNat []
        .ok (vch :: if opcode = OP_ROLL then stack.eraseIdx n.toNat else stack)
    | _ => .error .INVALID_STACK_OPERATION
  else if opcode = OP_ROT then some fun
    | x3 :: x2 :: x1 :: stack => .ok (x1 :: x3 :: x2 :: stack)
    | _ => .error .INVALID_STACK_OPERATION
  else if opcode = OP_SWAP then some fun
    | x2 :: x1 :: stack => .ok (x1 :: x2 :: stack)
    | _ => .error .INVALID_STACK_OPERATION
  else if opcode = OP_TUCK then some fun
    | x2 :: x1 :: stack => .ok (x2 :: x1 :: x2 :: stack)
    | _ => .error .INVALID_STACK_OPERATION
  else if opcode = OP_SIZE then some fun
    | vch :: stack => .ok (serializeNum vch.length :: vch :: stack)
    | _ => .error .INVALID_STACK_OPERATION
  else none

def unaryOp : Option (Int → Int) :=
  if opcode = OP_1ADD then some (· + 1)
  else if opcode = OP_1SUB then some (· - 1)
  else if opcode = OP_NEGATE then some (- ·)
  else if opcode = OP_ABS then some fun bn => if bn < 0 then -bn else bn
  else if opcode = OP_NOT then some fun bn => if bn = 0 then 1 else 0
  else if opcode = OP_0NOTEQUAL then some fun bn => if bn ≠ 0 then 1 else 0
  else none

def binaryOp : Option (Int → Int → Int) :=
  if opcode = OP_ADD then some (· + ·)
  else if opcode = OP_SUB then some (· - ·)
  else if opcode = OP_BOOLAND then some fun bn1 bn2 => if bn1 ≠ 0 ∧ bn2 ≠ 0 then 1 else 0
  else if opcode = OP_BOOLOR then some fun bn1 bn2 => if bn1 ≠ 0 ∨ bn2 ≠ 0 then 1 else 0
  else if opcode = OP_NUMEQUAL ∨ opcode = OP_NUMEQUALVERIFY then some fun bn1 bn2 => if bn1 = bn2 then 1 else 0
  else if opcode = OP_NUMNOTEQUAL then some fun bn1 bn2 => if bn1 ≠ bn2 then 1 else 0
  else if opcode = OP_LESSTHAN then some fun bn1 bn2 => if bn1 < bn2 then 1 else 0
  else if opcode = OP_GREATERTHAN then some fun bn1 bn2 => if bn1 > bn2 then 1 else 0
  else if opcode = OP_LESSTHANOREQUAL then some fun bn1 bn2 => if bn1 ≤ bn2 then 1 else 0
  else if opcode = OP_GREATERTHANOREQUAL then some fun bn1 bn2 => if bn1 ≥ bn2 then 1 else 0
  else if opcode = OP_MIN then some fun bn1 bn2 => if bn1 < bn2 then bn1 else bn2
  else if opcode = OP_MAX then some fun bn1 bn2 => if bn1 > bn2 then bn1 else bn2
  else none

def hashOp : Option (valtype → valtype) :=
  if opcode = OP_RIPEMD160 then some crypto.ripemd160
  else if opcode = OP_SHA1 then some crypto.sha1
  else if opcode = OP_SHA256 then some crypto.sha256
  else if opcode = OP_HASH160 then some crypto.hash160
  else if opcode = OP_HASH256 then some crypto.hash256
  else none

def applyUnary (f : Int → Int) : List valtype → Except ScriptError (List valtype)
  | top :: stack => do
    let bn ← numberAt flags top nDefaultMaxNumSize
    return serializeNum (f bn) :: stack
  | _ => .error .INVALID_STACK_OPERATION

def applyBinary (f : Int → Int → Int) : List valtype → Except ScriptError (List valtype)
  | x2 :: x1 :: stack => do
    let bn1 ← numberAt flags x1 nDefaultMaxNumSize
    let bn2 ← numberAt flags x2 nDefaultMaxNumSize
    let vch := serializeNum (f bn1 bn2)
    if opcode = OP_NUMEQUALVERIFY then
      if castToBool vch then .ok stack else .error .NUMEQUALVERIFY
    else .ok (vch :: stack)
  | _ => .error .INVALID_STACK_OPERATION

def applyHash (f : valtype → valtype) : List valtype → Except ScriptError (List valtype)
  | vch :: stack => .ok (f vch :: stack)
  | _ => .error .INVALID_STACK_OPERATION

def applyWithin : List valtype → Except ScriptError (List valtype)
  | x3 :: x2 :: x1 :: stack => do
    let bn1 ← numberAt flags x1 nDefaultMaxNumSize
    let bn2 ← numberAt flags x2 nDefaultMaxNumSize
    let bn3 ← numberAt flags x3 nDefaultMaxNumSize
    return boolVch (decide (bn2 ≤ bn1) && decide (bn1 < bn3)) :: stack
  | _ => .error .INVALID_STACK_OPERATION

def applyEqual : List valtype → Except ScriptError (List valtype)
  | x2 :: x1 :: stack =>
    if opcode = OP_EQUALVERIFY then
      if x1 = x2 then .ok stack else .error .EQUALVERIFY
    else .ok (boolVch (x1 == x2) :: stack)
  | _ => .error .INVALID_STACK_OPERATION

def applyCheckLockTime (stack : List valtype) : Except ScriptError (List valtype) :=
  if !hasFlag flags SCRIPT_VERIFY_CHECKLOCKTIMEVERIFY then
    if hasFlag flags SCRIPT_VERIFY_DISCOURAGE_UPGRADABLE_NOPS then .error .DISCOURAGE_UPGRADABLE_NOPS else .ok stack
  else
    match stack with
    | [] => .error .INVALID_STACK_OPERATION
    | top :: _ => do
      let nLockTime ← numberAt flags top 5
      if nLockTime < 0 then .error .NEGATIVE_LOCKTIME
      else if !checker.checkLockTime nLockTime then .error .UNSATISFIED_LOCKTIME
      else .ok stack

/-- The opcodes that work on the two stacks and on nothing else of the state. -/
def plainOp (stack altstack : List valtype) : Except ScriptError (List valtype × List valtype) :=
  let main (result : Except ScriptError (List valtype)) := result.map fun stack => (stack, altstack)
  if opcode = OP_1NEGATE ∨ OP_1 ≤ opcode ∧ opcode ≤ OP_16 then .ok (serializeNum (opcode.toNat - 0x50 : Int) :: stack, altstack)
  else if opcode = OP_NOP then .ok (stack, altstack)
  else if opcode = OP_CHECKLOCKTIMEVERIFY then main (applyCheckLockTime checker flags stack)
  else if opcode = OP_NOP1 ∨ OP_NOP3 ≤ opcode ∧ opcode ≤ OP_NOP10 then
    if hasFlag flags SCRIPT_VERIFY_DISCOURAGE_UPGRADABLE_NOPS then .error .DISCOURAGE_UPGRADABLE_NOPS else .ok (stack, altstack)
  else if opcode = OP_VERIFY then
    match stack with
    | [] => .error .INVALID_STACK_OPERATION
    | top :: stack => if castToBool top then .ok (stack, altstack) else .error .VERIFY
  else if opcode = OP_RETURN then .error .OP_RETURN
  else if opcode = OP_TOALTSTACK then
    match stack with
    | [] => .error .INVALID_STACK_OPERATION
    | top :: stack => .ok (stack, top :: altstack)
  else if opcode = OP_FROMALTSTACK then
    match altstack with
    | [] => .error .INVALID_ALTSTACK_OPERATION
    | top :: altstack => .ok (top :: stack, altstack)
  else if opcode = OP_EQUAL ∨ opcode = OP_EQUALVERIFY then main (applyEqual opcode stack)
  else if opcode = OP_WITHIN then main (applyWithin flags stack)
  else
    match moveOp flags opcode, unaryOp opcode, binaryOp opcode, hashOp crypto opcode with
    | some move, _, _, _ => main (move stack)
    | none, some f, _, _ => main (applyUnary flags f stack)
    | none, none, some f, _ => main (applyBinary flags opcode f stack)
    | none, none, none, some f => main (applyHash f stack)
    | none, none, none, none => .error .BAD_OPCODE

structure SigCheck where
  (vchSig vchPubKey : valtype)
  scriptCode : CScript
  deriving DecidableEq, Repr

/-- `vfExec` has its last entry first; `checked` records the calls of `CheckSig`. -/
structure EvalState where
  (pc pbegincodehash : CScript)
  vfExec : List Bool
  (stack altstack : List valtype)
  nOpCount : Nat
  checked : List SigCheck
  deriving DecidableEq, Repr

abbrev EvalStep := Except (ScriptError × List SigCheck) EvalState

variable (crypto : Crypto) (checker : SignatureChecker) (flags : Nat) (sigversion : SigVersion)
def checkEncodings (vchSig vchPubKey : valtype) : Except ScriptError Unit := do
  checkSignatureEncoding crypto flags vchSig
  checkPubKeyEncoding flags vchPubKey

section
variable (verify : Bool) (s : EvalState)
def opCheckSig : EvalStep :=
  match s.stack with
  | vchPubKey :: vchSig :: stack =>
    let scriptCode := (findAndDelete s.pbegincodehash (pushData vchSig)).1
    match checkEncodings crypto flags vchSig vchPubKey with
    | .error e => .error (e, s.checked)
    | .ok () =>
      let fSuccess := checker.checkSig vchSig vchPubKey scriptCode sigversion
      let checked := s.checked ++ [⟨vchSig, vchPubKey, scriptCode⟩]
      if verify then
        if fSuccess then .ok { s with stack, checked } else .error (.CHECKSIGVERIFY, checked)
      else .ok { s with stack := boolVch fSuccess :: stack, checked }
  | _ => .error (.INVALID_STACK_OPERATION, s.checked)

/-- The signatures and keys that are left; the loop ends as soon as there are more signatures. -/
def multiSigLoop (scriptCode : CScript) : (sigs keys : List valtype) → List SigCheck →
    Except (ScriptError × List SigCheck) (Bool × List SigCheck)
  | [], _, checked => .ok (true, checked)
  | _ :: _, [], checked => .ok (false, checked)
  | vchSig :: sigs, vchPubKey :: keys, checked =>
    match checkEncodings crypto flags vchSig vchPubKey with
    | .error e => .error (e, checked)
    | .ok () =>
      let fOk := checker.checkSig vchSig vchPubKey scriptCode sigversion
      let checked := checked ++ [⟨vchSig, vchPubKey, scriptCode⟩]
      let left := if fOk then sigs else vchSig :: sigs
      if left.length > keys.length then .ok (false, checked) else multiSigLoop scriptCode left keys checked

def countAt (stack : List valtype) (i : Nat) : Except ScriptError Int := do
  let n ← numberAt flags (stack.getD (i - 1) []) nDefaultMaxNumSize
  return getint n

/-- The counts, when they are in range and the stack has that many. The keys count as operations. -/
def multiSigCounts (stack : List valtype) (nOpCount : Nat) : Except ScriptError (Nat × Nat) :=
  if stack.length < 1 then .error .INVALID_STACK_OPERATION
  else do
    let nKeysCount ← countAt flags stack 1
    let nKeys := nKeysCount.toNat
    if nKeysCount < 0 ∨ nKeysCount > 20 then .error .PUBKEY_COUNT
    else if nOpCount + nKeys > 201 then .error .OP_COUNT
    else if stack.length < 2 + nKeys then .error .INVALID_STACK_OPERATION
    else do
      let nSigsCount ← countAt flags stack (2 + nKeys)
      let nSigs := nSigsCount.toNat
      if nSigsCount < 0 ∨ nSigsCount > nKeysCount then .error .SIG_COUNT
      else if stack.length < 3 + nKeys + nSigs then .error .INVALID_STACK_OPERATION
      else .ok (nKeys, nSigs)

def dropSignatures (scriptCode : CScript) (sigs : List valtype) : CScript :=
  sigs.foldl (fun scriptCode vchSig => (findAndDelete scriptCode (pushData vchSig)).1) scriptCode

/-- OP_CHECKMULTISIG and OP_CHECKMULTISIGVERIFY; the opcode itself is counted already. -/
def opCheckMultiSig : EvalStep :=
  match multiSigCounts flags s.stack s.nOpCount with
  | .error e => .error (e, s.checked)
  | .ok (nKeys, nSigs) =>
    let keys := (s.stack.drop 1).take nKeys
    let sigs := (s.stack.drop (2 + nKeys)).take nSigs
    let nOpCount := s.nOpCount + nKeys
    match multiSigLoop crypto checker flags sigversion (dropSignatures s.pbegincodehash sigs) sigs keys s.checked with
    | .error e => .error e
    | .ok (fSuccess, checked) =>
      -- the arguments go, and with them one more element, the dummy
      match s.stack.drop (2 + nKeys + nSigs) with
      | [] => .error (.INVALID_STACK_OPERATION, checked)
      | dummy :: stack =>
        if hasFlag flags SCRIPT_VERIFY_NULLDUMMY && !dummy.isEmpty then .error (.SIG_NULLDUMMY, checked)
        else if verify then
          if fSuccess then .ok { s with stack, nOpCount, checked } else .error (.CHECKMULTISIGVERIFY, checked)
        else .ok { s with stack := boolVch fSuccess :: stack, nOpCount, checked }

def opIf (negate fExec : Bool) (s : EvalState) : EvalStep :=
  if fExec then
    match s.stack with
    | [] => .error (.UNBALANCED_CONDITIONAL, s.checked)
    | vch :: stack => .ok { s with stack, vfExec := (if negate then !castToBool vch else castToBool vch) :: s.vfExec }
  else .ok { s with vfExec := false :: s.vfExec }

variable (s : EvalState)
def opElse : EvalStep :=
  match s.vfExec with
  | [] => .error (.UNBALANCED_CONDITIONAL, s.checked)
  | f :: vfExec => .ok { s with vfExec := (!f) :: vfExec }

def opEndIf : EvalStep :=
  match s.vfExec with
  | [] => .error (.UNBALANCED_CONDITIONAL, s.checked)
  | _ :: vfExec => .ok { s with vfExec }
end

variable (crypto : Crypto) (checker : SignatureChecker) (flags : Nat) (sigversion : SigVersion)
def disabledOpcodes : List UInt8 :=
  [OP_CAT, OP_SUBSTR, OP_LEFT, OP_RIGHT, OP_INVERT, OP_AND, OP_OR, OP_XOR, OP_2MUL, OP_2DIV, OP_MUL, OP_DIV, OP_MOD, OP_LSHIFT, OP_RSHIFT]

/-- The `switch` of `EvalScript`, with the cursor behind the instruction. -/
def execute (opcode : UInt8) (fExec : Bool) (s : EvalState) : EvalStep :=
  if opcode = OP_IF then opIf false fExec s
  else if opcode = OP_NOTIF then opIf true fExec s
  else if opcode = OP_ELSE then opElse s
  else if opcode = OP_ENDIF then opEndIf s
  else if opcode = OP_CODESEPARATOR then .ok { s with pbegincodehash := s.pc }
  else if opcode = OP_CHECKSIG then opCheckSig crypto checker flags sigversion false s
  else if opcode = OP_CHECKSIGVERIFY then opCheckSig crypto checker flags sigversion true s
  else if opcode = OP_CHECKMULTISIG then opCheckMultiSig crypto checker flags sigversion false s
  else if opcode = OP_CHECKMULTISIGVERIFY then opCheckMultiSig crypto checker flags sigversion true s
  else
    match plainOp crypto checker flags opcode s.stack s.altstack with
    | .error e => .error (e, s.checked)
    | .ok (stack, altstack) => .ok { s with stack, altstack }

def dispatch (opcode : UInt8) (vchPushValue : valtype) (s : EvalState) : EvalStep :=
  let fExec := s.vfExec.all id
  if fExec && decide (opcode ≤ OP_PUSHDATA4) then
    if hasFlag flags SCRIPT_VERIFY_MINIMALDATA && !checkMinimalPush vchPushValue opcode then .error (.MINIMALDATA, s.checked)
    else .ok { s with stack := vchPushValue :: s.stack }
  else if fExec || decide (OP_IF ≤ opcode) && decide (opcode ≤ OP_ENDIF) then execute crypto checker flags sigversion opcode fExec s
  else .ok s

def checkStackSize (s : EvalState) : EvalStep :=
  if s.stack.length + s.altstack.length > 1000 then .error (.STACK_SIZE, s.checked) else .ok s

def evalInstruction (s : EvalState) : EvalStep :=
  let read := getOp2 s.pc
  let nOpCount := if read.opcodeRet > OP_16 then s.nOpCount + 1 else s.nOpCount
  if !read.fRet then .error (.BAD_OPCODE, s.checked)
  else if read.vchRet.length > MAX_SCRIPT_ELEMENT_SIZE then .error (.PUSH_SIZE, s.checked)
  else if read.opcodeRet > OP_16 ∧ nOpCount > 201 then .error (.OP_COUNT, s.checked)
  else if read.opcodeRet ∈ disabledOpcodes then .error (.DISABLED_OPCODE, s.checked)
  else
    dispatch crypto checker flags sigversion read.opcodeRet read.vchRet { s with pc := read.pc, nOpCount } >>= checkStackSize

/-- Every instruction takes a byte, so the script's length is enough `fuel`. -/
def evalLoop : (fuel : Nat) → EvalState → EvalStep
  | 0, s => .ok s
  | fuel + 1, s => if s.pc.isEmpty then .ok s else evalInstruction crypto checker flags sigversion s >>= evalLoop fuel

structure EvalResult where
  outcome : Except ScriptError (List valtype)
  checked : List SigCheck

def evalScript (stack : List valtype) (script : CScript) : EvalResult :=
  if script.length > MAX_SCRIPT_SIZE then ⟨.error .SCRIPT_SIZE, []⟩
  else
    match evalLoop crypto checker flags sigversion script.length ⟨script, script, [], stack, [], 0, []⟩ with
    | .error (e, checked) => ⟨.error e, checked⟩
    | .ok s => if !s.vfExec.isEmpty then ⟨.error .UNBALANCED_CONDITIONAL, s.checked⟩ else ⟨.ok s.stack, s.checked⟩

end Peony
