import Peony.Library.Int64

namespace Peony
open Int64Arith

abbrev UInt256 := BitVec 256

instance : LawfulBEq UInt256 := inferInstance

abbrev CScript := List UInt8
def COIN : Int := 100000000
def MAX_SIZE : Nat := 0x02000000

/-- How a call ends early. A `fault` kills the process: a null pointer read or a division by zero. -/
inductive Failure where
  | dos (level : Nat) (reason : String)
  | invalid (reason : String)
  | error (message : String)
  | logicError (what : String)
  | runtimeError (what : String)
  | assertion (condition : String)
  | fault (what : String)
  deriving DecidableEq, Repr

structure COutPoint where
  hash : UInt256
  n : Nat
  deriving DecidableEq, Repr

def COutPoint.isNull (o : COutPoint) : Bool := o.hash == 0 && o.n == 4294967295

structure CTxIn where
  prevout : COutPoint
  scriptSig : CScript
  nSequence : Nat
  deriving DecidableEq, Repr

structure CTxOut where
  nValue : Int
  scriptPubKey : CScript
  deriving DecidableEq, Repr

def CTxOut.null : CTxOut := ⟨-1, []⟩
def CTxOut.isNull (out : CTxOut) : Bool := out.nValue == -1
def CTxOut.isEmpty (out : CTxOut) : Bool := out.nValue == 0 && out.scriptPubKey.isEmpty
def MAX_SCRIPT_SIZE : Nat := 10000
def OP_RETURN : UInt8 := 0x6a

def isUnspendable (script : CScript) : Bool :=
  script.head? == some OP_RETURN || decide (MAX_SCRIPT_SIZE < script.length)

structure CTransaction where
  nVersion : Int
  vin : List CTxIn
  vout : List CTxOut
  nLockTime : Nat
  deriving DecidableEq, Repr

namespace CTransaction
variable (tx : CTransaction)
def isNull : Bool := tx.vin.isEmpty && tx.vout.isEmpty

def isCoinBase : Bool :=
  match tx.vin with
  | [txin] => txin.prevout.isNull
  | _ => false

def isCoinStake : Bool :=
  match tx.vin, tx.vout with
  | txin :: _, first :: _ :: _ => !txin.prevout.isNull && first.isEmpty
  | _, _ => false

def addValueOut (nValueOut : Int) : List CTxOut → Except Failure Int
  | [] => .ok nValueOut
  | out :: vout =>
    if out.nValue < 0 then
      .error (.runtimeError "CTransaction::GetValueOut() : value out of range : less than 0")
    else if wrapInt64 (nValueOut + out.nValue) < nValueOut then
      .error (.runtimeError "CTransaction::GetValueOut() : value out of range : wraps the int64_t boundary")
    else addValueOut (wrapInt64 (nValueOut + out.nValue)) vout

def getValueOut : Except Failure Int := addValueOut 0 tx.vout

def getUnspendableValueOut : Int :=
  tx.vout.foldl (fun nValueOut out =>
    if isUnspendable out.scriptPubKey then wrapInt64 (nValueOut + out.nValue) else nValueOut) 0

end CTransaction

structure CBlockHeader where
  nVersion : Int
  (hashPrevBlock hashMerkleRoot : UInt256)
  (nTime nBits nNonce : Nat)
  nAccumulatorCheckpoint : UInt256
  deriving DecidableEq, Repr

structure CBlock extends CBlockHeader where
  vtx : List CTransaction
  vchBlockSig : List UInt8
  deriving DecidableEq, Repr

namespace CBlock
variable (block : CBlock)
def isProofOfStake : Bool :=
  match block.vtx with
  | _ :: tx :: _ => tx.isCoinStake
  | _ => false

def isProofOfWork : Bool := !block.isProofOfStake

end CBlock

end Peony
