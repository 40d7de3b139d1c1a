import Peony.Script.Opcode

namespace Peony

inductive txnouttype where
  | TX_NONSTANDARD | TX_PUBKEY | TX_PUBKEYHASH | TX_SCRIPTHASH | TX_MULTISIG | TX_NULL_DATA
  deriving DecidableEq, Repr

def PUBLIC_KEY_SIZE : Nat := 65
def COMPRESSED_PUBLIC_KEY_SIZE : Nat := 33

def pubKeyLen (chHeader : UInt8) : Nat :=
  if chHeader = 2 ∨ chHeader = 3 then COMPRESSED_PUBLIC_KEY_SIZE
  else if chHeader = 4 ∨ chHeader = 6 ∨ chHeader = 7 then PUBLIC_KEY_SIZE
  else 0

def validSize : valtype → Bool
  | [] => false
  | chHeader :: rest => pubKeyLen chHeader == rest.length + 1

variable (script : CScript)
def isPayToScriptHash : Bool :=
  script.length == 23 && script.getD 0 0 == OP_HASH160 && script.getD 1 0 == 0x14 && script.getD 22 0 == OP_EQUAL

def isPushOnlyFrom : (fuel : Nat) → CScript → Bool
  | 0, pc => pc.isEmpty
  | fuel + 1, pc =>
    if pc.isEmpty then true
    else
      let read := getOp2 pc
      if !read.fRet then false else if read.opcodeRet > OP_16 then false else isPushOnlyFrom fuel read.pc

def isPushOnly (pc : CScript) : Bool := isPushOnlyFrom pc.length pc

def keyOfSize (size : Nat) (script : CScript) : Option valtype :=
  if script.length = size + 2 ∧ (script.getD 0 0).toNat = size ∧ script.getLastD 0 = OP_CHECKSIG then some ((script.drop 1).take size)
  else none

def matchPayToPubkey : Option valtype :=
  match keyOfSize PUBLIC_KEY_SIZE script with
  | some pubkey => if validSize pubkey then some pubkey else none
  | none =>
    match keyOfSize COMPRESSED_PUBLIC_KEY_SIZE script with
    | some pubkey => if validSize pubkey then some pubkey else none
    | none => none

def matchPayToPubkeyHash : Option valtype :=
  if script.length = 25 ∧ script.getD 0 0 = OP_DUP ∧ script.getD 1 0 = OP_HASH160 ∧ script.getD 2 0 = 20 ∧
      script.getD 23 0 = OP_EQUALVERIFY ∧ script.getD 24 0 = OP_CHECKSIG then
    some ((script.drop 3).take 20)
  else none

def isSmallInteger (opcode : UInt8) : Bool := decide (opcode ≥ OP_1) && decide (opcode ≤ OP_16)

def matchKeys : (fuel : Nat) → CScript → List valtype → UInt8 × CScript × List valtype
  | 0, it, pubkeys => (OP_INVALIDOPCODE, it, pubkeys)
  | fuel + 1, it, pubkeys =>
    let read := getOp2 it
    if read.fRet && validSize read.vchRet then matchKeys fuel read.pc (pubkeys ++ [read.vchRet])
    else (read.opcodeRet, read.pc, pubkeys)

def matchMultisig : Option (Nat × List valtype) :=
  let first := getOp2 script
  let (opcode, it, pubkeys) := matchKeys (script.length + 1) first.pc []
  let required := decodeOpN first.opcodeRet
  let keys := decodeOpN opcode
  if script.length < 1 ∨ script.getLastD 0 ≠ OP_CHECKMULTISIG then none
  else if !first.fRet || !isSmallInteger first.opcodeRet then none
  else if !isSmallInteger opcode then none
  else if pubkeys.length ≠ keys ∨ keys < required then none
  else if it.length = 1 then some (required, pubkeys)
  else none

/-- `Solver`; `none` is a script of no standard form, TX_NONSTANDARD. -/
def solver (scriptPubKey : CScript) : Option (txnouttype × List valtype) :=
  if isPayToScriptHash scriptPubKey then some (.TX_SCRIPTHASH, [(scriptPubKey.drop 2).take 20])
  else if scriptPubKey.length ≥ 1 ∧ scriptPubKey.getD 0 0 = OP_RETURN ∧ isPushOnly (scriptPubKey.drop 1) then some (.TX_NULL_DATA, [])
  else
    match matchPayToPubkey scriptPubKey, matchPayToPubkeyHash scriptPubKey, matchMultisig scriptPubKey with
    | some data, _, _ => some (.TX_PUBKEY, [data])
    | none, some data, _ => some (.TX_PUBKEYHASH, [data])
    | none, none, some (required, keys) => some (.TX_MULTISIG, [UInt8.ofNat required] :: keys ++ [[UInt8.ofNat keys.length]])
    | none, none, none => none

def scriptSigArgsExpected (t : txnouttype) (vSolutions : List valtype) : Int :=
  match t with
  | .TX_NONSTANDARD | .TX_NULL_DATA => -1
  | .TX_PUBKEY => 1
  | .TX_PUBKEYHASH => 2
  | .TX_MULTISIG =>
    match vSolutions with
    | (required :: _) :: _ => required.toNat + 1
    | _ => -1
  | .TX_SCRIPTHASH => 1

end Peony
