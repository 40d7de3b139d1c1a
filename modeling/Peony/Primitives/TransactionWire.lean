import Peony.Library.Codec
import Peony.Primitives.Transaction

namespace Peony
open Codec

def COutPoint.serialize (o : COutPoint) : List UInt8 := word o.hash ++ fixed 4 o.n
def CTxIn.serialize (txin : CTxIn) : List UInt8 := txin.prevout.serialize ++ (blob txin.scriptSig ++ fixed 4 txin.nSequence)
def CTxOut.serialize (out : CTxOut) : List UInt8 := word (BitVec.ofInt 64 out.nValue) ++ blob out.scriptPubKey

def serializeVector {α : Type} (serialize : α → List UInt8) (items : List α) : List UInt8 :=
  compactSize items.length ++ items.flatMap serialize

def CTransaction.serialize (tx : CTransaction) : List UInt8 :=
  word (BitVec.ofInt 32 tx.nVersion) ++
    (serializeVector CTxIn.serialize tx.vin ++ (serializeVector CTxOut.serialize tx.vout ++ fixed 4 tx.nLockTime))

structure CTxIn.Typed (txin : CTxIn) : Prop where
  n : txin.prevout.n < 2 ^ 32
  scriptSig : txin.scriptSig.length < 2 ^ 32
  nSequence : txin.nSequence < 2 ^ 32

structure CTxOut.Typed (out : CTxOut) : Prop where
  nValue : -2 ^ 63 ≤ out.nValue ∧ out.nValue < 2 ^ 63
  scriptPubKey : out.scriptPubKey.length < 2 ^ 32

structure CTransaction.Typed (tx : CTransaction) : Prop where
  nVersion : -2 ^ 31 ≤ tx.nVersion ∧ tx.nVersion < 2 ^ 31
  vin : ∀ txin ∈ tx.vin, txin.Typed
  vinSize : tx.vin.length < 2 ^ 64
  vout : ∀ out ∈ tx.vout, out.Typed
  voutSize : tx.vout.length < 2 ^ 64
  nLockTime : tx.nLockTime < 2 ^ 32

def readOutPoint : Reader COutPoint := do
  let hash ← readWord 256
  let n ← readFixed 4
  return ⟨hash, n⟩

def readScript : Reader CScript := readBlob (2 ^ 32 - 1)
def readTxIn : Reader CTxIn := do
  let prevout ← readOutPoint
  let scriptSig ← readScript
  let nSequence ← readFixed 4
  return ⟨prevout, scriptSig, nSequence⟩

def readTxOut : Reader CTxOut := do
  let nValue ← readWord 64
  let scriptPubKey ← readScript
  return ⟨nValue.toInt, scriptPubKey⟩

def readVector {α : Type} (reader : Reader α) : Reader (List α) := readMarked >>= readMany reader
def readTransaction : Reader CTransaction := do
  let nVersion ← readWord 32
  let vin ← readVector readTxIn
  let vout ← readVector readTxOut
  let nLockTime ← readFixed 4
  return ⟨nVersion.toInt, vin, vout, nLockTime⟩

lemma reads_outPoint {o} (typed : o.n < 2 ^ 32) : Reads readOutPoint o.serialize o := by
  apply (reads_word (by decide) _).bind
  apply (reads_fixed_of_lt (by omega)).bind_nil
  exact Reads.pure _

lemma reads_script {script} (typed : script.length < 2 ^ 32) : Reads readScript (blob script) script :=
  reads_blob (by omega) (by decide)

lemma reads_txIn {txin} (typed : txin.Typed) : Reads readTxIn txin.serialize txin := by
  apply (reads_outPoint typed.n).bind
  apply (reads_script typed.scriptSig).bind
  apply (reads_fixed_of_lt (by have := typed.nSequence; omega)).bind_nil
  exact Reads.pure _

lemma reads_txOut {out} (typed : out.Typed) : Reads readTxOut out.serialize out := by
  apply (reads_word (by decide) _).bind
  apply (reads_script typed.scriptPubKey).bind_nil
  rw [BitVec.toInt_ofInt_eq_self (by decide) typed.nValue.1 typed.nValue.2]
  exact Reads.pure _

lemma reads_vector {α : Type} {reader} {serialize : α → List UInt8} {items} (size : items.length < 2 ^ 64)
    (reads : ∀ item ∈ items, Reads reader (serialize item) item) :
    Reads (readVector reader) (serializeVector serialize items) items :=
  (reads_marked size).bind (reads_many _ reads)

lemma reads_transaction {tx} (typed : tx.Typed) : Reads readTransaction tx.serialize tx := by
  apply (reads_word (by decide) _).bind
  apply (reads_vector typed.vinSize fun txin mem => reads_txIn (typed.vin _ mem)).bind
  apply (reads_vector typed.voutSize fun out mem => reads_txOut (typed.vout _ mem)).bind
  apply (reads_fixed_of_lt (by have := typed.nLockTime; omega)).bind_nil
  rw [BitVec.toInt_ofInt_eq_self (by decide) typed.nVersion.1 typed.nVersion.2]
  exact Reads.pure _

end Peony
