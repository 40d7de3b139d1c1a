import Peony.Primitives.TransactionWire
import Peony.Script.Interpreter

namespace Peony
open Codec List Nat CTxOut List

section
variable (txTo : CTransaction) (scriptCode : CScript) (nIn : Nat) (nHashType : BitVec 32)
def fAnyoneCanPay : Bool := nHashType &&& BitVec.ofNat 32 SIGHASH_ANYONECANPAY != 0
def fHashSingle : Bool := (nHashType &&& 0x1f#32).toNat == SIGHASH_SINGLE
def fHashNone : Bool := (nHashType &&& 0x1f#32).toNat == SIGHASH_NONE

def countCodeSeparators : (fuel : Nat) → CScript → Nat → Nat
  | 0, _, nCodeSeparators => nCodeSeparators
  | fuel + 1, it, nCodeSeparators =>
    let read := getOp2 it
    if !read.fRet then nCodeSeparators
    else countCodeSeparators fuel read.pc (if read.opcodeRet = OP_CODESEPARATOR then nCodeSeparators + 1 else nCodeSeparators)

def writePieces : (fuel : Nat) → (itBegin it : CScript) → List UInt8
  | 0, itBegin, it => itBegin.take (itBegin.length - it.length)
  | fuel + 1, itBegin, it =>
    let read := getOp2 it
    if !read.fRet then
      if itBegin.isEmpty then [] else itBegin.take (itBegin.length - read.pc.length)
    else if read.opcodeRet = OP_CODESEPARATOR then
      itBegin.take (itBegin.length - read.pc.length - 1) ++ writePieces fuel read.pc read.pc
    else writePieces fuel itBegin read.pc

def serializeScriptCode : List UInt8 :=
  compactSize (scriptCode.length - countCodeSeparators (scriptCode.length + 1) scriptCode 0) ++
    writePieces (scriptCode.length + 1) scriptCode scriptCode

def nullTxIn : CTxIn := ⟨⟨0, 4294967295⟩, [], 4294967295⟩

def serializeInput (nInput : Nat) : List UInt8 :=
  let nInput := if fAnyoneCanPay nHashType then nIn else nInput
  let txin := txTo.vin.getD nInput nullTxIn
  txin.prevout.serialize ++
    ((if nInput ≠ nIn then blob [] else serializeScriptCode scriptCode) ++
      if nInput ≠ nIn ∧ (fHashSingle nHashType || fHashNone nHashType) then fixed 4 0 else fixed 4 txin.nSequence)

def serializeOutput (nOutput : Nat) : List UInt8 :=
  if fHashSingle nHashType && nOutput != nIn then null.serialize else (txTo.vout.getD nOutput null).serialize

/-- The numbers of inputs and outputs that are written are kept in an `unsigned int`. -/
def nInputsSigned : Nat := (if fAnyoneCanPay nHashType then 1 else txTo.vin.length) % 2 ^ 32

def nOutputsSigned : Nat := (if fHashNone nHashType then 0 else if fHashSingle nHashType then nIn + 1 else txTo.vout.length) % 2 ^ 32

def serializeForSignature : List UInt8 :=
  let nInputs := nInputsSigned txTo nHashType
  let nOutputs := nOutputsSigned txTo nIn nHashType
  word (BitVec.ofInt 32 txTo.nVersion) ++
    (compactSize nInputs ++ (range nInputs).flatMap (serializeInput txTo scriptCode nIn nHashType) ++
      (compactSize nOutputs ++ (range nOutputs).flatMap (serializeOutput txTo nIn nHashType) ++ fixed 4 txTo.nLockTime))

def signaturePreimage : List UInt8 := serializeForSignature txTo scriptCode nIn nHashType ++ word nHashType

variable (hash : List UInt8 → UInt256) (txTo : CTransaction)
def getPrevoutHash : UInt256 := hash (txTo.vin.flatMap (·.prevout.serialize))
def getSequenceHash : UInt256 := hash (txTo.vin.flatMap fun txin => fixed 4 txin.nSequence)
def getOutputsHash : UInt256 := hash (txTo.vout.flatMap serialize)

structure PrecomputedTransactionData where
  (hashPrevouts hashSequence hashOutputs : UInt256)

def UINT256_ONE : UInt256 := 1

variable (scriptCode : CScript) (txTo : CTransaction) (nIn : Nat) (nHashType : BitVec 32) (amount : Int)
def witnessSignatureHash (cache : Option PrecomputedTransactionData) : UInt256 :=
  let txin := txTo.vin.getD nIn nullTxIn
  let fAll := !fHashSingle nHashType && !fHashNone nHashType
  let hashPrevouts := if !fAnyoneCanPay nHashType then (cache.map (·.hashPrevouts)).getD (getPrevoutHash hash txTo) else 0
  let hashSequence := if !fAnyoneCanPay nHashType && fAll then (cache.map (·.hashSequence)).getD (getSequenceHash hash txTo) else 0
  let hashOutputs :=
    if fAll then (cache.map (·.hashOutputs)).getD (getOutputsHash hash txTo)
    else if fHashSingle nHashType && decide (nIn < txTo.vout.length) then hash (txTo.vout.getD nIn null).serialize
    else 0
  hash (word (BitVec.ofInt 32 txTo.nVersion) ++ word hashPrevouts ++ word hashSequence ++ txin.prevout.serialize ++ blob scriptCode ++
    word (BitVec.ofInt 64 amount) ++ fixed 4 txin.nSequence ++ word hashOutputs ++ fixed 4 txTo.nLockTime ++ word nHashType)

def signatureHash (sigversion : SigVersion) (cache : Option PrecomputedTransactionData) : UInt256 :=
  if nIn ≥ txTo.vin.length then UINT256_ONE
  else if sigversion = .SIGVERSION_WITNESS_V0 then witnessSignatureHash hash scriptCode txTo nIn nHashType amount cache
  else if fHashSingle nHashType && decide (nIn ≥ txTo.vout.length) then UINT256_ONE
  else hash (signaturePreimage txTo scriptCode nIn nHashType)

inductive ParsesToEnd : CScript → Prop where
  | nil : ParsesToEnd []
  | step {it : CScript} (parsed : (getOp2 it).fRet = true) (rest : ParsesToEnd (getOp2 it).pc) : ParsesToEnd it

def dropSeparatorsFrom : (fuel : Nat) → CScript → CScript
  | 0, _ => []
  | fuel + 1, it =>
    let read := getOp2 it
    if !read.fRet then []
    else (if read.opcodeRet = OP_CODESEPARATOR then [] else it.take (it.length - read.pc.length)) ++ dropSeparatorsFrom fuel read.pc

def withoutCodeSeparators (script : CScript) : CScript := dropSeparatorsFrom (script.length + 1) script

lemma exists_instruction {it} (parsed : (getOp2 it).fRet = true) :
    ∃ bytes, it = bytes ++ (getOp2 it).pc ∧ it.length = bytes.length + (getOp2 it).pc.length ∧ 0 < bytes.length ∧
      ((getOp2 it).opcodeRet = OP_CODESEPARATOR → bytes.length = 1) := by
  cases it with
  | nil => cases parsed
  | cons opcode pc =>
    have takes := getOp2_takes opcode pc
    obtain ⟨operand, split⟩ := takes.suffix
    have whole : opcode :: pc = (opcode :: operand) ++ (getOp2 (opcode :: pc)).pc := by rw [cons_append, split]
    refine ⟨_, whole, (congrArg length whole).trans length_append, zero_lt_succ _, fun separator => ?_⟩
    rw [takes.opcode_eq parsed] at separator
    subst separator
    rw [getOp2_of_plain (by decide), append_left_eq_self] at split
    rw [split]
    rfl

lemma count_add_length {it} (parses : ParsesToEnd it) {fuel} (enough : it.length < fuel) (nCodeSeparators : Nat) :
    countCodeSeparators fuel it nCodeSeparators + (dropSeparatorsFrom fuel it).length = nCodeSeparators + it.length := by
  induction parses generalizing fuel nCodeSeparators with
  | nil =>
    obtain ⟨fuel, rfl⟩ := exists_eq_succ_of_ne_zero (ne_of_gt enough)
    rfl
  | @step it parsed rest ih =>
    obtain ⟨fuel, rfl⟩ := exists_eq_succ_of_ne_zero (ne_of_gt (zero_lt_of_lt enough))
    obtain ⟨bytes, split, lengths, pos, separator⟩ := exists_instruction parsed
    have later := ih (show (getOp2 it).pc.length < fuel by omega)
    unfold countCodeSeparators dropSeparatorsFrom
    simp only [parsed, Bool.not_true, Bool.false_eq_true, if_false]
    split
    · next isSeparator =>
      have one := separator isSeparator
      rw [nil_append, later]
      omega
    · rw [length_append, length_take, add_left_comm, later]
      omega

lemma writePieces_eq {it} (parses : ParsesToEnd it) {fuel} (enough : it.length < fuel) (piece) :
    writePieces fuel (piece ++ it) it = piece ++ dropSeparatorsFrom fuel it := by
  induction parses generalizing fuel piece with
  | nil =>
    obtain ⟨fuel, rfl⟩ := exists_eq_succ_of_ne_zero (ne_of_gt enough)
    simp [writePieces, dropSeparatorsFrom, getOp2]
  | @step it parsed rest ih =>
    obtain ⟨fuel, rfl⟩ := exists_eq_succ_of_ne_zero (ne_of_gt (zero_lt_of_lt enough))
    obtain ⟨bytes, split, lengths, pos, separator⟩ := exists_instruction parsed
    unfold writePieces dropSeparatorsFrom
    simp only [parsed, Bool.not_true, Bool.false_eq_true, if_false]
    split
    · next isSeparator =>
      have one := separator isSeparator
      have here : (piece ++ it).length - (getOp2 it).pc.length - 1 = piece.length := by
        rw [length_append]
        omega
      rw [here, take_left]
      exact congrArg _ (ih (by omega) [])
    · have whole : piece ++ it = piece ++ bytes ++ (getOp2 it).pc := by rw [append_assoc, ← split]
      have instruction : it.take (it.length - (getOp2 it).pc.length) = bytes := by
        rw [lengths, Nat.add_sub_cancel]
        conv_lhs => rw [split]
        exact take_left
      rw [whole, ih (by omega), instruction, append_assoc]

lemma serializeScriptCode_eq {scriptCode} (parses : ParsesToEnd scriptCode) :
    serializeScriptCode scriptCode = blob (withoutCodeSeparators scriptCode) := by
  have enough : scriptCode.length < scriptCode.length + 1 := lt_succ_self _
  have size := count_add_length parses enough 0
  have bytes := writePieces_eq parses enough []
  rw [nil_append] at bytes
  rw [serializeScriptCode, withoutCodeSeparators]
  congr 2
  omega

lemma length_withoutCodeSeparators_le {scriptCode} (parses : ParsesToEnd scriptCode) :
    (withoutCodeSeparators scriptCode).length ≤ scriptCode.length := by
  have enough : scriptCode.length < scriptCode.length + 1 := lt_succ_self _
  have size := count_add_length parses enough 0
  rw [withoutCodeSeparators]
  omega

variable (txTo : CTransaction) (scriptCode : CScript) (nIn : Nat) (nHashType : BitVec 32)
def signedInput (nInput : Nat) (txin : CTxIn) : CTxIn :=
  if nInput = nIn then ⟨txin.prevout, withoutCodeSeparators scriptCode, txin.nSequence⟩
  else ⟨txin.prevout, [], if fHashSingle nHashType || fHashNone nHashType then 0 else txin.nSequence⟩

def signedTransaction : CTransaction where
  nVersion := txTo.nVersion
  vin :=
    if fAnyoneCanPay nHashType then [signedInput scriptCode nIn nHashType nIn (txTo.vin.getD nIn nullTxIn)]
    else txTo.vin.mapIdx (signedInput scriptCode nIn nHashType)
  vout :=
    if fHashNone nHashType then []
    else if fHashSingle nHashType then replicate nIn null ++ [txTo.vout.getD nIn null]
    else txTo.vout
  nLockTime := txTo.nLockTime

lemma flatMap_range {α β : Type} {items : List α} {read : Nat → List β} {write : α → List β}
    (same : ∀ i (inRange : i < items.length), read i = write items[i]) : (range items.length).flatMap read = items.flatMap write := by
  rw [flatMap_def]
  congr 1
  apply ext_getElem (by simp)
  intro i _ inRange
  rw [length_map] at inRange
  simpa using same i _

variable {txTo scriptCode nIn nHashType}
lemma serializeInput_eq (parses : ParsesToEnd scriptCode) (nInput : Nat) (sel : fAnyoneCanPay nHashType = true → nInput = nIn) :
    serializeInput txTo scriptCode nIn nHashType nInput =
      (signedInput scriptCode nIn nHashType nInput (txTo.vin.getD nInput nullTxIn)).serialize := by
  have place : (if fAnyoneCanPay nHashType = true then nIn else nInput) = nInput := by grind
  unfold serializeInput signedInput
  rw [place]
  by_cases signs : nInput = nIn
  · simp [signs, CTxIn.serialize, serializeScriptCode_eq parses]
  · simp only [signs, ne_eq, not_false_eq_true, true_and, if_true, if_false, CTxIn.serialize]
    split <;> rfl

lemma serializeInputs_eq (parses : ParsesToEnd scriptCode) (vinSize : txTo.vin.length < 2 ^ 32) :
    compactSize (nInputsSigned txTo nHashType) ++
        (range (nInputsSigned txTo nHashType)).flatMap (serializeInput txTo scriptCode nIn nHashType) =
      serializeVector CTxIn.serialize (signedTransaction txTo scriptCode nIn nHashType).vin := by
  have count : nInputsSigned txTo nHashType = (signedTransaction txTo scriptCode nIn nHashType).vin.length := by
    unfold nInputsSigned signedTransaction
    cases fAnyoneCanPay _ with
    | true => rfl
    | false => simpa using vinSize
  rw [count]
  congr 1
  cases anyone : fAnyoneCanPay nHashType with
  | true =>
    simp only [signedTransaction, anyone, if_true, length_singleton, range_one, flatMap_singleton]
    rw [← serializeInput_eq parses _ fun _ => rfl]
    unfold serializeInput
    simp [anyone]
  | false =>
    refine flatMap_range fun i inRange => ?_
    rw [serializeInput_eq parses i fun yes => absurd (anyone.symm.trans yes) (by simp)]
    simp only [signedTransaction, anyone, Bool.false_eq_true, if_false, length_mapIdx] at inRange
    simp [signedTransaction, anyone, inRange]

lemma serializeOutputs_eq (single : fHashSingle nHashType = true → nIn < txTo.vout.length) (voutSize : txTo.vout.length < 2 ^ 32) :
    compactSize (nOutputsSigned txTo nIn nHashType) ++
        (range (nOutputsSigned txTo nIn nHashType)).flatMap (serializeOutput txTo nIn nHashType) =
      serializeVector serialize (signedTransaction txTo scriptCode nIn nHashType).vout := by
  have count : nOutputsSigned txTo nIn nHashType = (signedTransaction txTo scriptCode nIn nHashType).vout.length := by
    unfold nOutputsSigned signedTransaction
    cases fHashNone _ with
    | true => rfl
    | false =>
      cases signsOne : fHashSingle _ with
      | true =>
        have := single signsOne
        simp
        omega
      | false => simpa using voutSize
  rw [count]
  congr 1
  refine flatMap_range fun i inRange => ?_
  unfold serializeOutput
  cases none : fHashNone nHashType with
  | true => simp [signedTransaction, none] at inRange
  | false =>
    cases signsOne : fHashSingle _ with
    | true =>
      simp only [signedTransaction, none, signsOne, Bool.false_eq_true, if_false, if_true, length_append, length_replicate,
        length_singleton] at inRange
      rcases Nat.lt_succ_iff_lt_or_eq.mp inRange with earlier | rfl
      · simp [signedTransaction, none, signsOne, getElem_append_left, earlier, Nat.ne_of_lt _]
      · simp [signedTransaction, none, signsOne]
    | false =>
      simp only [signedTransaction, none, signsOne, Bool.false_eq_true, if_false] at inRange
      simp [signedTransaction, none, signsOne, inRange]

lemma serializeForSignature_eq (parses : ParsesToEnd scriptCode) (single : fHashSingle nHashType = true → nIn < txTo.vout.length)
    (vinSize : txTo.vin.length < 2 ^ 32) (voutSize : txTo.vout.length < 2 ^ 32) :
    serializeForSignature txTo scriptCode nIn nHashType = (signedTransaction txTo scriptCode nIn nHashType).serialize := by
  unfold serializeForSignature
  dsimp only
  rw [serializeInputs_eq parses vinSize, serializeOutputs_eq single voutSize]
  rfl
end

structure SigTuple where
  txTo : CTransaction
  nIn : Nat
  scriptCode : CScript
  nHashType : BitVec 32
  amount : Int
  cache : Option PrecomputedTransactionData

namespace SigTuple

def signatureHash (hash : List UInt8 → UInt256) (t : SigTuple) : UInt256 :=
  Peony.signatureHash hash t.scriptCode t.txTo t.nIn t.nHashType t.amount .SIGVERSION_BASE t.cache

def preimage (t : SigTuple) : List UInt8 := signaturePreimage t.txTo t.scriptCode t.nIn t.nHashType
def signed (t : SigTuple) : CTransaction := signedTransaction t.txTo t.scriptCode t.nIn t.nHashType

/-- An input, a script code that parses to its end, and a hash type of kind SIGHASH_ALL. -/
structure Signable (t : SigTuple) : Prop where
  typed : t.txTo.Typed
  codeTyped : t.scriptCode.length < 2 ^ 32
  inRange : t.nIn < t.txTo.vin.length
  parses : ParsesToEnd t.scriptCode
  nonempty : withoutCodeSeparators t.scriptCode ≠ []
  all : (t.nHashType &&& 0x1f#32).toNat = SIGHASH_ALL

structure Countable (t : SigTuple) : Prop where
  vin : t.txTo.vin.length < 2 ^ 32
  vout : t.txTo.vout.length < 2 ^ 32

def spends (tx : CTransaction) : List (COutPoint × Nat) := tx.vin.map fun txin => (txin.prevout, txin.nSequence)

/-- Everything a signature of kind SIGHASH_ALL commits to is the same. -/
structure Agree (a b : SigTuple) : Prop where
  nHashType : a.nHashType = b.nHashType
  nVersion : a.txTo.nVersion = b.txTo.nVersion
  nLockTime : a.txTo.nLockTime = b.txTo.nLockTime
  vout : a.txTo.vout = b.txTo.vout
  scriptCode : withoutCodeSeparators a.scriptCode = withoutCodeSeparators b.scriptCode
  inputs : fAnyoneCanPay a.nHashType = false → a.nIn = b.nIn ∧ spends a.txTo = spends b.txTo
  input : fAnyoneCanPay a.nHashType = true → (spends a.txTo)[a.nIn]? = (spends b.txTo)[b.nIn]?

variable {a b t : SigTuple}
section
variable (signable : t.Signable)
include signable

lemma Signable.notSingle : fHashSingle t.nHashType = false := by
  rw [fHashSingle, signable.all]
  rfl

lemma Signable.notNone : fHashNone t.nHashType = false := by
  rw [fHashNone, signable.all]
  rfl

lemma Signable.hash_eq (hash : List UInt8 → UInt256) : t.signatureHash hash = hash t.preimage := by
  unfold SigTuple.signatureHash Peony.signatureHash
  rw [if_neg (not_le.mpr signable.inRange), signable.notSingle]
  rfl

lemma Signable.preimage_eq (countable : t.Countable) : t.preimage = t.signed.serialize ++ word t.nHashType := by
  have single : fHashSingle t.nHashType = true → t.nIn < t.txTo.vout.length :=
    fun yes => absurd (signable.notSingle.symm.trans yes) (by simp)
  rw [preimage, signaturePreimage, serializeForSignature_eq signable.parses single countable.vin countable.vout]
  rfl

lemma Signable.signed_vout : t.signed.vout = t.txTo.vout := by simp [signed, signedTransaction, signable.notNone, signable.notSingle]

lemma Signable.signed_input {nInput : Nat} {txin : CTxIn} : signedInput t.scriptCode t.nIn t.nHashType nInput txin =
      ⟨txin.prevout, if nInput = t.nIn then withoutCodeSeparators t.scriptCode else [], txin.nSequence⟩ := by
  grind [signedInput, signable.notNone, signable.notSingle]

lemma Signable.signed_typed : t.signed.Typed := by
  have code : (withoutCodeSeparators t.scriptCode).length < 2 ^ 32 :=
    (length_withoutCodeSeparators_le signable.parses).trans_lt signable.codeTyped
  have each (nInput : Nat) {txin : CTxIn} (mem : txin ∈ t.txTo.vin) :
      (signedInput t.scriptCode t.nIn t.nHashType nInput txin).Typed := by
    have typed := signable.typed.vin _ mem
    rw [signable.signed_input]
    refine ⟨typed.n, ?_, typed.nSequence⟩
    dsimp only
    split
    · exact code
    · decide
  refine ⟨signable.typed.nVersion, ?_, ?_, ?_, ?_, signable.typed.nLockTime⟩
  · intro txin mem
    simp only [signed, signedTransaction] at mem
    split at mem
    · rw [mem_singleton.mp mem]
      refine each _ ?_
      simp [signable.inRange]
    · obtain ⟨i, inRange, rfl⟩ := mem_mapIdx.mp mem
      exact each i (getElem_mem _)
  · simp only [signed, signedTransaction]
    split
    · simp
    · simpa using signable.typed.vinSize
  · rw [signable.signed_vout]
    exact signable.typed.vout
  · rw [signable.signed_vout]
    exact signable.typed.voutSize

lemma Signable.reads (countable : t.Countable) :
    Reads (do let tx ← readTransaction; let nHashType ← readWord 32; return (tx, nHashType)) t.preimage (t.signed, t.nHashType) := by
  rw [signable.preimage_eq countable]
  apply (reads_transaction signable.signed_typed).bind
  apply (reads_word (by decide) _).bind_nil
  exact Reads.pure _
end

lemma same_input {i j : Nat} {code code' : CScript} (some : code ≠ []) (here : code = if i = j then code' else []) :
    i = j ∧ code = code' := by grind

lemma Signable.signed_vin_anyone (signable : t.Signable) (anyone : fAnyoneCanPay t.nHashType = true) :
    t.signed.vin = [⟨(t.txTo.vin.getD t.nIn nullTxIn).prevout, withoutCodeSeparators t.scriptCode,
      (t.txTo.vin.getD t.nIn nullTxIn).nSequence⟩] := by
  simp [signed, signedTransaction, anyone, signable.signed_input]

lemma Signable.signed_vin_all (signable : t.Signable) (everyone : fAnyoneCanPay t.nHashType = false) :
    t.signed.vin = t.txTo.vin.mapIdx fun nInput txin =>
      ⟨txin.prevout, if nInput = t.nIn then withoutCodeSeparators t.scriptCode else [], txin.nSequence⟩ := by
  have inputs : signedInput t.scriptCode t.nIn t.nHashType = fun nInput txin =>
      ⟨txin.prevout, if nInput = t.nIn then withoutCodeSeparators t.scriptCode else [], txin.nSequence⟩ := by
    funext nInput txin
    exact signable.signed_input
  simp [signed, signedTransaction, everyone, inputs]

lemma Signable.spends_nIn (signable : t.Signable) :
    (spends t.txTo)[t.nIn]? = some ((t.txTo.vin.getD t.nIn nullTxIn).prevout, (t.txTo.vin.getD t.nIn nullTxIn).nSequence) := by
  simp [spends, signable.inRange]

lemma spends_mapIdx (vin : List CTxIn) (script : Nat → CScript) :
    (vin.mapIdx fun nInput txin => (⟨txin.prevout, script nInput, txin.nSequence⟩ : CTxIn)).map
      (fun txin => (txin.prevout, txin.nSequence)) =
      vin.map fun txin => (txin.prevout, txin.nSequence) := by
  apply ext_getElem (by simp)
  simp

lemma agree_of_preimage_eq (first : a.Signable) (snd : b.Signable) (firstSize : a.Countable) (secondSize : b.Countable)
    (same : a.preimage = b.preimage) : a.Agree b := by
  obtain ⟨signed, nHashType⟩ : a.signed = b.signed ∧ a.nHashType = b.nHashType := by
    have read := first.reads firstSize []
    rw [same, snd.reads secondSize] at read
    have pairs := (Prod.mk.inj (Option.some.inj read)).1
    exact ⟨(Prod.mk.inj pairs).1.symm, (Prod.mk.inj pairs).2.symm⟩
  have nVersion : a.signed.nVersion = b.signed.nVersion := congrArg _ signed
  have nLockTime : a.signed.nLockTime = b.signed.nLockTime := congrArg _ signed
  have vout := congrArg CTransaction.vout signed
  rw [first.signed_vout, snd.signed_vout] at vout
  have vin := congrArg CTransaction.vin signed
  cases anyone : fAnyoneCanPay _ with
  | true =>
    rw [first.signed_vin_anyone anyone, snd.signed_vin_anyone (nHashType ▸ anyone)] at vin
    obtain ⟨prevout, scriptCode, nSequence⟩ := CTxIn.mk.inj (cons.inj vin).1
    refine ⟨nHashType, nVersion, nLockTime, vout, scriptCode, fun everyone => ?_, fun _ => ?_⟩
    · grind
    · rw [first.spends_nIn, snd.spends_nIn, prevout, nSequence]
  | false =>
    rw [first.signed_vin_all anyone, snd.signed_vin_all (nHashType ▸ anyone)] at vin
    have spent : spends a.txTo = spends b.txTo := by
      have mapped := congrArg (map fun txin => (txin.prevout, txin.nSequence)) vin
      rwa [spends_mapIdx, spends_mapIdx] at mapped
    have scripts := congrArg (fun inputs => (inputs[a.nIn]?).map (·.scriptSig)) vin
    have run : a.nIn < b.txTo.vin.length := by
      have lengths := congrArg length spent
      simp only [spends, length_map] at lengths
      exact lengths ▸ first.inRange
    simp only [getElem?_mapIdx, getElem?_eq_getElem first.inRange, getElem?_eq_getElem run, Option.map_some,
      Option.some.injEq, if_true] at scripts
    obtain ⟨nIn, scriptCode⟩ := same_input first.nonempty scripts
    refine ⟨nHashType, nVersion, nLockTime, vout, scriptCode, fun _ => ⟨nIn, spent⟩, fun yes => ?_⟩
    exact absurd (anyone.symm.trans yes) (by simp)

end SigTuple

/-- Tuples with one hash agree on what is signed, where the hash keeps the preimages apart and inputs and outputs fit an `unsigned int`. -/
theorem signature_commits (hash : List UInt8 → UInt256) (a b : SigTuple) (first : a.Signable) (second : b.Signable)
    (firstSize : a.Countable) (secondSize : b.Countable) (injective : hash a.preimage = hash b.preimage → a.preimage = b.preimage)
    (same : a.signatureHash hash = b.signatureHash hash) : a.Agree b := by
  rw [first.hash_eq, second.hash_eq] at same
  exact SigTuple.agree_of_preimage_eq first second firstSize secondSize (injective same)

def repeatedInput (n : Nat) (scriptSig scriptCode : CScript) : SigTuple :=
  ⟨⟨1, replicate n ⟨⟨5, 0⟩, scriptSig, 0⟩, [⟨1, [OP_1]⟩], 0⟩, 0, scriptCode, 1, 0, none⟩

lemma parses_checksig : ParsesToEnd [OP_CHECKSIG] := .step rfl .nil

lemma repeatedInput_signable {n scriptSig scriptCode} (some : 0 < n) (small : n < 2 ^ 64) (sigTyped : scriptSig.length < 2 ^ 32)
    (codeTyped : scriptCode.length < 2 ^ 32) (parses : ParsesToEnd scriptCode) (ne : withoutCodeSeparators scriptCode ≠ []) :
    (repeatedInput n scriptSig scriptCode).Signable := by
  refine ⟨⟨by simp [repeatedInput], ?_, ?_, ?_, by simp [repeatedInput], by simp [repeatedInput]⟩, codeTyped, ?_, parses, ne, ?_⟩
  · intro txin mem
    rw [eq_of_mem_replicate mem]
    exact ⟨zero_lt_succ _, sigTyped, zero_lt_succ _⟩
  · rw [repeatedInput, length_replicate]
    exact small
  · intro out mem
    rw [mem_singleton.mp mem]
    exact ⟨by decide, by decide⟩
  · rw [repeatedInput, length_replicate]
    exact some
  · show ((1 : BitVec 32) &&& 0x1f#32).toNat = SIGHASH_ALL
    decide

lemma repeatedInput_preimage {n} (one : n % 2 ^ 32 = 1) :
    (repeatedInput n [] [OP_CHECKSIG]).preimage = (repeatedInput 1 [] [OP_CHECKSIG]).preimage := by
  have count : nInputsSigned (repeatedInput n [] [OP_CHECKSIG]).txTo 1 = 1 := by
    rw [nInputsSigned, repeatedInput, length_replicate]
    exact one
  have pos : 0 < n := pos_of_ne_zero fun zero => by simp [zero] at one
  have first : (replicate n (⟨⟨5, 0⟩, [], 0⟩ : CTxIn)).getD 0 nullTxIn = ⟨⟨5, 0⟩, [], 0⟩ := by simp [pos]
  have input : serializeInput (repeatedInput n [] [OP_CHECKSIG]).txTo [OP_CHECKSIG] 0 1 0 =
      serializeInput (repeatedInput 1 [] [OP_CHECKSIG]).txTo [OP_CHECKSIG] 0 1 0 := by
    unfold serializeInput
    simp only [repeatedInput, ite_self, first]
    rfl
  change serializeForSignature _ [OP_CHECKSIG] 0 1 ++ _ = _
  unfold serializeForSignature
  dsimp only
  rw [count, range_one, flatMap_singleton, input]
  rfl

/-- The bytes as one number, modulo `2 ^ 256`. -/
def foldHash (bytes : List UInt8) : UInt256 := bytes.foldl (fun acc byte => 257 * acc + BitVec.ofNat 256 byte.toNat + 1) 0

/-- Only the script of the input and OP_CODESEPARATOR can differ. -/
theorem signature_commits_checksig : (repeatedInput 1 [] [OP_CHECKSIG]).Agree (repeatedInput 1 [OP_1] [OP_CODESEPARATOR, OP_CHECKSIG]) ∧
    (repeatedInput 1 [] [OP_CHECKSIG]).signatureHash foldHash ≠ (repeatedInput 2 [] [OP_CHECKSIG]).signatureHash foldHash := by
  refine ⟨signature_commits foldHash _ _ ?_ ?_ ⟨by decide, by decide⟩ ⟨by decide, by decide⟩ (fun _ => by decide) (by decide +kernel),
    by decide +kernel⟩
  · exact repeatedInput_signable (by decide) (by decide) (by decide) (by decide) parses_checksig (by decide)
  · exact repeatedInput_signable (by decide) (by decide) (by decide) (by decide) (.step rfl parses_checksig) (by decide)

/-- The number of inputs is written modulo `2 ^ 32`, so `2 ^ 32 + 1` inputs look like one. -/
theorem signature_of_many_inputs : (repeatedInput (2 ^ 32 + 1) [] [OP_CHECKSIG]).Signable ∧
    (repeatedInput 1 [] [OP_CHECKSIG]).Signable ∧
      (∀ hash, (repeatedInput (2 ^ 32 + 1) [] [OP_CHECKSIG]).signatureHash hash = (repeatedInput 1 [] [OP_CHECKSIG]).signatureHash hash) ∧
      ¬(repeatedInput (2 ^ 32 + 1) [] [OP_CHECKSIG]).Agree (repeatedInput 1 [] [OP_CHECKSIG]) := by
  have many : (repeatedInput (2 ^ 32 + 1) [] [OP_CHECKSIG]).Signable :=
    repeatedInput_signable (by decide) (by decide) (by decide) (by decide) parses_checksig (by decide)
  have one : (repeatedInput 1 [] [OP_CHECKSIG]).Signable :=
    repeatedInput_signable (by decide) (by decide) (by decide) (by decide) parses_checksig (by decide)
  refine ⟨many, one, fun hash => ?_, fun agree => ?_⟩
  · rw [many.hash_eq, one.hash_eq, repeatedInput_preimage (by decide)]
  · have lengths := congrArg length (agree.inputs rfl).2
    simp only [SigTuple.spends, repeatedInput, length_map, length_replicate] at lengths
    omega

end Peony
