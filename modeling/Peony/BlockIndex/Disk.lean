import Peony.Library.Codec
import Peony.Consensus.MainNet

namespace Peony
open Codec Consensus List Reads Option

def CLIENT_VERSION : BitVec 32 := 4010400
def DBI_SER_VERSION_NO_MS : Int := 0
def DBI_SER_VERSION_MS : Int := 4010200
def BLOCK_HAVE_DATA : BitVec 32 := 8
def BLOCK_HAVE_UNDO : BitVec 32 := 16
def BLOCK_PROOF_OF_STAKE : BitVec 32 := 1

structure IndexFields where
  (nHeight nFile nDataPos nUndoPos nTx nStatus : BitVec 32)
  vStakeModifier : List UInt8
  nFlags : BitVec 32
  nMoneySupply : Option (BitVec 64)
  nVersion : BitVec 32
  hashMerkleRoot : UInt256
  (nTime nBits nNonce : BitVec 32)
  nAccumulatorCheckpoint : UInt256
  deriving DecidableEq

def IndexFields.fresh : IndexFields := ⟨0, 0, 0, 0, 0, 0, [], 0, some 0, 0, 0, 0, 0, 0, 0⟩

structure IndexEntry extends IndexFields where
  pprev : Option UInt256
  deriving DecidableEq

structure CDiskBlockIndex extends IndexFields where
  hashPrev : UInt256

namespace IndexEntry
variable (pindex : IndexEntry)
def toDisk : CDiskBlockIndex := ⟨pindex.toIndexFields, pindex.pprev.getD 0⟩

/-- The checkpoint of the accumulators is a part of the header in the versions 4, 5 and 6. -/
def getBlockHeader : CBlockHeader where
  nVersion := pindex.nVersion.toInt
  hashPrevBlock := pindex.pprev.getD 0
  hashMerkleRoot := pindex.hashMerkleRoot
  nTime := pindex.nTime.toNat
  nBits := pindex.nBits.toNat
  nNonce := pindex.nNonce.toNat
  nAccumulatorCheckpoint := if pindex.nVersion.toInt > 3 ∧ pindex.nVersion.toInt < 7 then pindex.nAccumulatorCheckpoint else 0

end IndexEntry

/-- `VARINT` of an `int`: a negative number leaves its low seven bits. -/
def signedVarInt (n : BitVec 32) : List UInt8 :=
  if n.toInt ≤ 127 then [UInt8.ofNat (n.toNat % 128)] else varInt 32 n.toNat

def readVarInt32 : Reader (BitVec 32) := BitVec.ofNat 32 <$> readVarInt 32

namespace CDiskBlockIndex

def serialize (nSerVersion : BitVec 32) (disk : CDiskBlockIndex) : List UInt8 :=
  signedVarInt nSerVersion ++ (signedVarInt disk.nHeight ++ (varInt 32 disk.nStatus.toNat ++ (varInt 32 disk.nTx.toNat ++
    ((if disk.nStatus &&& (BLOCK_HAVE_DATA ||| BLOCK_HAVE_UNDO) ≠ 0 then signedVarInt disk.nFile else []) ++
    ((if disk.nStatus &&& BLOCK_HAVE_DATA ≠ 0 then varInt 32 disk.nDataPos.toNat else []) ++
    ((if disk.nStatus &&& BLOCK_HAVE_UNDO ≠ 0 then varInt 32 disk.nUndoPos.toNat else []) ++
    -- older formats are read only
    (if nSerVersion.toInt ≥ DBI_SER_VERSION_NO_MS then
      word disk.nFlags ++ (word disk.nVersion ++ (blob disk.vStakeModifier ++ (word disk.hashPrev ++ (word disk.hashMerkleRoot ++
        (word disk.nTime ++ (word disk.nBits ++ (word disk.nNonce ++
        ((if disk.nVersion.toInt > 3 ∧ disk.nVersion.toInt < 7 then word disk.nAccumulatorCheckpoint else []) ++
        (if disk.nVersion.toInt ≥ 7 ∧ nSerVersion.toInt ≥ DBI_SER_VERSION_MS then optional word disk.nMoneySupply else [])))))))))
    else [])))))))

def readCurrent (nSerVersion : BitVec 32) (fields : IndexFields) : Reader CDiskBlockIndex := do
  let nFlags ← readWord 32
  let nVersion ← readWord 32
  let vStakeModifier ← readBlob MAX_SIZE
  let hashPrev ← readWord 256
  let hashMerkleRoot ← readWord 256
  let nTime ← readWord 32
  let nBits ← readWord 32
  let nNonce ← readWord 32
  let nAccumulatorCheckpoint ← readWhen (nVersion.toInt > 3 ∧ nVersion.toInt < 7) (readWord 256) fields.nAccumulatorCheckpoint
  let nMoneySupply ← readWhen (nVersion.toInt ≥ 7 ∧ nSerVersion.toInt ≥ DBI_SER_VERSION_MS) (readOptional (readWord 64))
    fields.nMoneySupply
  return ⟨{ fields with nFlags, nVersion, vStakeModifier, hashMerkleRoot, nTime, nBits, nNonce, nAccumulatorCheckpoint, nMoneySupply },
    hashPrev⟩

variable (params : Params)
def readLegacy (fields : IndexFields) : Reader CDiskBlockIndex := do
  let _nMint ← readWord 64
  let nMoneySupply ← readOptional (readWord 64)
  let nFlags ← readWord 32
  let vStakeModifier ← readBytes (if params.networkUpgradeActive fields.nHeight.toInt.toNat .stakeModifierV2 then 32 else 8)
  -- the stake output and its time
  let _stake ← readWhen (nFlags &&& BLOCK_PROOF_OF_STAKE ≠ 0) (readBytes 40) []
  let nVersion ← readWord 32
  let hashPrev ← readWord 256
  let _hashNext ← readWord 256
  let hashMerkleRoot ← readWord 256
  let nTime ← readWord 32
  let nBits ← readWord 32
  let nNonce ← readWord 32
  let nAccumulatorCheckpoint ← readWhen (nVersion.toInt > 3) (readWord 256) fields.nAccumulatorCheckpoint
  return ⟨{ fields with nFlags, nVersion, vStakeModifier, hashMerkleRoot, nTime, nBits, nNonce, nAccumulatorCheckpoint, nMoneySupply },
    hashPrev⟩

def unserialize : Reader CDiskBlockIndex := do
  let nSerVersion ← readVarInt32
  let nHeight ← readVarInt32
  let nStatus ← readVarInt32
  let nTx ← readVarInt32
  let nFile ← readWhen (nStatus &&& (BLOCK_HAVE_DATA ||| BLOCK_HAVE_UNDO) ≠ 0) readVarInt32 IndexFields.fresh.nFile
  let nDataPos ← readWhen (nStatus &&& BLOCK_HAVE_DATA ≠ 0) readVarInt32 IndexFields.fresh.nDataPos
  let nUndoPos ← readWhen (nStatus &&& BLOCK_HAVE_UNDO ≠ 0) readVarInt32 IndexFields.fresh.nUndoPos
  let fields := { IndexFields.fresh with nHeight, nStatus, nTx, nFile, nDataPos, nUndoPos }
  if nSerVersion.toInt ≥ DBI_SER_VERSION_NO_MS then readCurrent nSerVersion fields else readLegacy params fields

end CDiskBlockIndex

abbrev BlockMap := AssocMap UInt256 IndexEntry

def insertBlockIndex (mapBlockIndex : BlockMap) (hash : UInt256) : BlockMap :=
  if hash = 0 then mapBlockIndex
  else if (mapBlockIndex.lookup hash).isSome then mapBlockIndex
  else mapBlockIndex.insert hash ⟨IndexFields.fresh, none⟩

/-- One record of the database. What the loader does not assign stays as it was made. -/
def loadRecord (params : Params) (mapBlockIndex : BlockMap) (record : UInt256 × List UInt8) : Option BlockMap := do
  let (diskindex, _) ← (CDiskBlockIndex.unserialize params).run record.2
  let mapBlockIndex := insertBlockIndex (insertBlockIndex mapBlockIndex record.1) diskindex.hashPrev
  -- `insertBlockIndex` returns a null pointer for the null hash
  let pindexNew ← mapBlockIndex.lookup record.1
  return mapBlockIndex.insert record.1
    { pindexNew with
      pprev := if diskindex.hashPrev = 0 then none else some diskindex.hashPrev
      nHeight := diskindex.nHeight
      nFile := diskindex.nFile
      nDataPos := diskindex.nDataPos
      nUndoPos := diskindex.nUndoPos
      nVersion := diskindex.nVersion
      hashMerkleRoot := diskindex.hashMerkleRoot
      nTime := diskindex.nTime
      nBits := diskindex.nBits
      nNonce := diskindex.nNonce
      nStatus := diskindex.nStatus
      nTx := diskindex.nTx
      nFlags := diskindex.nFlags
      vStakeModifier := diskindex.vStakeModifier
      nMoneySupply := diskindex.nMoneySupply }

def loadBlockIndexGuts (params : Params) (records : List (UInt256 × List UInt8)) : Option BlockMap :=
  records.foldlM (loadRecord params) ∅

def writeIndex (mapBlockIndex : BlockMap) : List (UInt256 × List UInt8) :=
  mapBlockIndex.entries.map fun entry => (entry.1, entry.2.toDisk.serialize CLIENT_VERSION)

section
variable (n : BitVec 32)
def keptVarInt : BitVec 32 := if n.toInt ≤ 127 then BitVec.ofNat 32 (n.toNat % 128) else n

lemma reads_varInt32 : Reads readVarInt32 (varInt 32 n.toNat) n := by
  have read := (reads_varInt (by decide) n.isLt).map (BitVec.ofNat 32)
  rwa [BitVec.ofNat_toNat] at read

lemma reads_signedVarInt : Reads readVarInt32 (signedVarInt n) (keptVarInt n) := by
  unfold signedVarInt keptVarInt
  split
  · have single : varInt 32 (n.toNat % 128) = [UInt8.ofNat (n.toNat % 128)] := by grind [varInt, varIntGroups, Nat.mod_mod]
    rw [← single]
    exact (reads_varInt (by decide) (by omega)).map _
  · exact reads_varInt32 n
end

namespace CDiskBlockIndex

def keptPositions (disk : CDiskBlockIndex) : IndexFields :=
  { IndexFields.fresh with
    nHeight := keptVarInt disk.nHeight
    nStatus := disk.nStatus
    nTx := disk.nTx
    nFile := if disk.nStatus &&& (BLOCK_HAVE_DATA ||| BLOCK_HAVE_UNDO) ≠ 0 then keptVarInt disk.nFile else 0
    nDataPos := if disk.nStatus &&& BLOCK_HAVE_DATA ≠ 0 then disk.nDataPos else 0
    nUndoPos := if disk.nStatus &&& BLOCK_HAVE_UNDO ≠ 0 then disk.nUndoPos else 0 }

def kept (disk : CDiskBlockIndex) : CDiskBlockIndex where
  toIndexFields := { disk.keptPositions with
    nFlags := disk.nFlags
    nVersion := disk.nVersion
    vStakeModifier := disk.vStakeModifier
    hashMerkleRoot := disk.hashMerkleRoot
    nTime := disk.nTime
    nBits := disk.nBits
    nNonce := disk.nNonce
    nAccumulatorCheckpoint := if disk.nVersion.toInt > 3 ∧ disk.nVersion.toInt < 7 then disk.nAccumulatorCheckpoint else 0
    nMoneySupply := if disk.nVersion.toInt ≥ 7 ∧ CLIENT_VERSION.toInt ≥ DBI_SER_VERSION_MS then disk.nMoneySupply else some 0 }
  hashPrev := disk.hashPrev

variable (params : Params) (disk : CDiskBlockIndex)
lemma reads_serialize (short : disk.vStakeModifier.length ≤ MAX_SIZE) :
    Reads (unserialize params) (disk.serialize CLIENT_VERSION) disk.kept := by
  have ver : Reads readVarInt32 (signedVarInt CLIENT_VERSION) CLIENT_VERSION := reads_signedVarInt _
  have current : CLIENT_VERSION.toInt ≥ DBI_SER_VERSION_NO_MS := by decide
  apply ver.bind
  apply (reads_signedVarInt _).bind
  apply (reads_varInt32 _).bind
  apply (reads_varInt32 _).bind
  apply (when fun _ => reads_signedVarInt _).bind
  apply (when fun _ => reads_varInt32 _).bind
  apply (when fun _ => reads_varInt32 _).bind
  apply (reads_word (by decide) _).bind
  apply (reads_word (by decide) _).bind
  apply (reads_blob short (by decide)).bind
  apply (reads_word (by decide) _).bind
  apply (reads_word (by decide) _).bind
  apply (reads_word (by decide) _).bind
  apply (reads_word (by decide) _).bind
  apply (reads_word (by decide) _).bind
  apply (when fun _ => reads_word (by decide) _).bind
  apply (when fun _ => reads_optional (reads_word (by decide)) _).bind_nil
  exact pure _

lemma refuses_serialize (long : MAX_SIZE < disk.vStakeModifier.length) :
    Refuses (unserialize params) (disk.serialize CLIENT_VERSION) := by
  have ver : Reads readVarInt32 (signedVarInt CLIENT_VERSION) CLIENT_VERSION := reads_signedVarInt _
  have current : CLIENT_VERSION.toInt ≥ DBI_SER_VERSION_NO_MS := by decide
  apply ver.bind_refuses
  apply (reads_signedVarInt _).bind_refuses
  apply (reads_varInt32 _).bind_refuses
  apply (reads_varInt32 _).bind_refuses
  apply (when fun _ => reads_signedVarInt _).bind_refuses
  apply (when fun _ => reads_varInt32 _).bind_refuses
  apply (when fun _ => reads_varInt32 _).bind_refuses
  apply (reads_word (by decide) _).bind_refuses
  apply (reads_word (by decide) _).bind_refuses
  exact (refuses_blob long (by decide)).bind _ _

end CDiskBlockIndex

namespace IndexEntry

def restored (pindex : IndexEntry) : IndexEntry where
  toIndexFields := { pindex.toDisk.kept with nAccumulatorCheckpoint := 0 }
  pprev := if pindex.pprev.getD 0 = 0 then none else some (pindex.pprev.getD 0)

structure SameRestored (pindex loaded : IndexEntry) : Prop where
  header : loaded.getBlockHeader = pindex.getBlockHeader
  vStakeModifier : loaded.vStakeModifier = pindex.vStakeModifier
  nFlags : loaded.nFlags = pindex.nFlags
  nMoneySupply : loaded.nMoneySupply = pindex.nMoneySupply

/-- No checkpoint of the accumulators in the versions that have one, no supply before version 7. -/
structure Restorable (pindex : IndexEntry) : Prop where
  short : pindex.vStakeModifier.length ≤ MAX_SIZE
  checkpoint : pindex.nVersion.toInt > 3 ∧ pindex.nVersion.toInt < 7 → pindex.nAccumulatorCheckpoint = 0
  supply : pindex.nVersion.toInt < 7 → pindex.nMoneySupply = some 0

variable (pindex : IndexEntry)
lemma getD_pprev_restored : pindex.restored.pprev.getD 0 = pindex.pprev.getD 0 := by
  unfold restored
  split
  · next null =>
    rw [null]
    rfl
  · rfl

lemma sameRestored_iff (short : pindex.vStakeModifier.length ≤ MAX_SIZE) :
    pindex.SameRestored pindex.restored ↔ pindex.Restorable := by
  have current : CLIENT_VERSION.toInt ≥ DBI_SER_VERSION_MS := by decide
  have supply : pindex.restored.nMoneySupply = if pindex.nVersion.toInt ≥ 7 then pindex.nMoneySupply else some 0 := by
    change (if _ ∧ _ then _ else _) = _
    simp only [current, and_true]
    rfl
  constructor
  · intro same
    refine ⟨short, ?_, ?_⟩
    · intro ver
      have checkpoint := congrArg CBlockHeader.nAccumulatorCheckpoint same.header
      change (if pindex.nVersion.toInt > 3 ∧ pindex.nVersion.toInt < 7 then 0 else 0) =
        if pindex.nVersion.toInt > 3 ∧ pindex.nVersion.toInt < 7 then pindex.nAccumulatorCheckpoint else 0 at checkpoint
      rw [if_pos ver, if_pos ver] at checkpoint
      exact checkpoint.symm
    · intro ver
      rw [← same.nMoneySupply, supply, if_neg (by omega)]
  · intro restorable
    refine ⟨?_, rfl, rfl, ?_⟩
    · unfold getBlockHeader
      rw [getD_pprev_restored]
      congr 1
      change (if pindex.nVersion.toInt > 3 ∧ pindex.nVersion.toInt < 7 then (0 : UInt256) else 0) = _
      split
      · next ver => exact (restorable.checkpoint ver).symm
      · rfl
    · rw [supply]
      split
      · rfl
      · next ver => exact (restorable.supply (by omega)).symm

end IndexEntry

section
variable {params : Params} {mapBlockIndex mapBlockIndex' : BlockMap} {hash key : UInt256} {pindex : IndexEntry}
/-- An index being filled: no accumulator checkpoint, and no entry for the null hash. -/
structure Loading (mapBlockIndex : BlockMap) : Prop where
  checkpoint : ∀ hash pindex, mapBlockIndex.lookup hash = some pindex → pindex.nAccumulatorCheckpoint = 0
  null : mapBlockIndex.lookup 0 = none

lemma lookup_insertBlockIndex (mapBlockIndex hash key) : (insertBlockIndex mapBlockIndex hash).lookup key =
      if key = hash ∧ hash ≠ 0 then (mapBlockIndex.lookup key).or (some ⟨IndexFields.fresh, none⟩) else mapBlockIndex.lookup key := by
  unfold insertBlockIndex
  split
  · next null => simp [null]
  · next real =>
    cases found : mapBlockIndex.lookup _ with
    | some pindex => grind
    | none =>
      simp only [isSome_none, Bool.false_eq_true, if_false]
      rw [AssocMap.lookup_insert_ite]
      by_cases own : key = hash
      · subst own
        rw [if_pos rfl, if_pos ⟨rfl, real⟩, found, none_or]
      · simp [own]

lemma Loading.insertBlockIndex (loading : Loading mapBlockIndex) (hash) : Loading (insertBlockIndex mapBlockIndex hash) := by
  constructor
  · intro key pindex found
    rw [lookup_insertBlockIndex] at found
    split at found
    · rcases or_eq_some_iff.mp found with old | ⟨-, new⟩
      · exact loading.checkpoint _ _ old
      · cases new
        rfl
    · exact loading.checkpoint _ _ found
  · rw [lookup_insertBlockIndex, if_neg (fun own => own.2 own.1.symm)]
    exact loading.null

lemma lookup_insertBlockIndex_of_some (found : mapBlockIndex.lookup key = some pindex) (hash) :
    (insertBlockIndex mapBlockIndex hash).lookup key = some pindex := by simp [lookup_insertBlockIndex, found]

lemma loadRecord_good (loading : Loading mapBlockIndex) (real : hash ≠ 0) (short : pindex.vStakeModifier.length ≤ MAX_SIZE) :
    ∃ mapBlockIndex', loadRecord params mapBlockIndex (hash, pindex.toDisk.serialize CLIENT_VERSION) = some mapBlockIndex' ∧
      Loading mapBlockIndex' ∧ mapBlockIndex'.lookup hash = some pindex.restored ∧
      ∀ key, key ≠ hash → ∀ other, mapBlockIndex.lookup key = some other → mapBlockIndex'.lookup key = some other := by
  have read := CDiskBlockIndex.reads_serialize params pindex.toDisk short []
  rw [append_nil] at read
  have made : ∃ pindexNew, (insertBlockIndex mapBlockIndex hash).lookup hash = some pindexNew := by
    rw [lookup_insertBlockIndex, if_pos ⟨rfl, real⟩]
    cases mapBlockIndex.lookup _ with
    | none => exact ⟨_, rfl⟩
    | some old => exact ⟨_, rfl⟩
  obtain ⟨pindexNew, made⟩ := made
  have kept := lookup_insertBlockIndex_of_some made pindex.toDisk.hashPrev
  have all := (loading.insertBlockIndex hash).insertBlockIndex pindex.toDisk.hashPrev
  have checkpoint := all.checkpoint _ _ kept
  have res : loadRecord params mapBlockIndex (hash, pindex.toDisk.serialize CLIENT_VERSION) =
      some ((insertBlockIndex (insertBlockIndex mapBlockIndex hash) pindex.toDisk.hashPrev).insert hash pindex.restored) := by
    unfold loadRecord
    rw [read]
    change Option.bind ((insertBlockIndex _ pindex.toDisk.hashPrev).lookup _) _ = _
    rw [kept, Option.bind_some, checkpoint]
    rfl
  refine ⟨_, res, ?_, AList.lookup_insert _, ?_⟩
  · constructor
    · exact AssocMap.forall_insert all.checkpoint rfl
    · rw [AssocMap.lookup_insert_ite, if_neg (Ne.symm real)]
      exact all.null
  · intro key other entry found
    rw [AssocMap.lookup_insert_ite, if_neg other]
    exact lookup_insertBlockIndex_of_some (lookup_insertBlockIndex_of_some found _) _

lemma of_loadRecord (loaded : loadRecord params mapBlockIndex (hash, pindex.toDisk.serialize CLIENT_VERSION) = some mapBlockIndex')
    (loading : Loading mapBlockIndex) : hash ≠ 0 ∧ pindex.vStakeModifier.length ≤ MAX_SIZE := by
  have short : pindex.vStakeModifier.length ≤ MAX_SIZE := by
    by_contra long
    have bad := CDiskBlockIndex.refuses_serialize params pindex.toDisk (not_le.mp long) []
    rw [append_nil] at bad
    unfold loadRecord at loaded
    rw [bad] at loaded
    cases loaded
  refine ⟨?_, short⟩
  rintro rfl
  have read := CDiskBlockIndex.reads_serialize params pindex.toDisk short []
  rw [append_nil] at read
  have absent := ((loading.insertBlockIndex 0).insertBlockIndex pindex.toDisk.hashPrev).null
  unfold loadRecord at loaded
  rw [read] at loaded
  change bind ((insertBlockIndex _ pindex.toDisk.hashPrev).lookup 0) _ = _ at loaded
  rw [absent] at loaded
  cases loaded

variable (entries : List (Sigma fun _ : UInt256 => IndexEntry)) (loading : Loading mapBlockIndex)
include entries loading

lemma loadRecords_good (keys : entries.NodupKeys) (good : ∀ entry ∈ entries, entry.1 ≠ 0 ∧ entry.2.vStakeModifier.length ≤ MAX_SIZE) :
    ∃ mapBlockIndex', (entries.map fun entry => (entry.1, entry.2.toDisk.serialize CLIENT_VERSION)).foldlM
      (loadRecord params) mapBlockIndex =
        some mapBlockIndex' ∧
      (∀ entry ∈ entries, mapBlockIndex'.lookup entry.1 = some entry.2.restored) ∧
      ∀ key, key ∉ entries.keys → ∀ pindex, mapBlockIndex.lookup key = some pindex → mapBlockIndex'.lookup key = some pindex := by
  induction entries generalizing mapBlockIndex with
  | nil => exact ⟨_, rfl, fun _ mem => absurd mem not_mem_nil, fun _ _ _ found => found⟩
  | cons entry entries ih =>
    obtain ⟨fresh, keys⟩ := nodupKeys_cons.mp keys
    obtain ⟨real, short⟩ := good _ mem_cons_self
    obtain ⟨next, loaded, loading', own, others⟩ := loadRecord_good loading real short
    obtain ⟨final, rest, restored, kept⟩ := ih loading' keys (forall_mem_cons.mp good).2
    refine ⟨final, ?_, ?_, ?_⟩
    · rw [map_cons, foldlM_cons, loaded]
      exact rest
    · exact forall_mem_cons.mpr ⟨kept _ fresh _ own, restored⟩
    · intro key absent pindex found
      rw [keys_cons, mem_cons, not_or] at absent
      exact kept _ absent.2 _ (others _ absent.1 _ found)

lemma good_of_loadRecords
    (loaded : (entries.map fun entry => (entry.1, entry.2.toDisk.serialize CLIENT_VERSION)).foldlM (loadRecord params) mapBlockIndex =
      some mapBlockIndex') : ∀ entry ∈ entries, entry.1 ≠ 0 ∧ entry.2.vStakeModifier.length ≤ MAX_SIZE := by
  induction entries generalizing mapBlockIndex with
  | nil => simp
  | cons entry entries ih =>
    rw [map_cons, foldlM_cons] at loaded
    obtain ⟨next, first, rest⟩ := bind_eq_some_iff.mp loaded
    obtain ⟨real, short⟩ := of_loadRecord first loading
    obtain ⟨next', first', loading', -⟩ := loadRecord_good loading real short
    cases first.symm.trans first'
    exact forall_mem_cons.mpr ⟨⟨real, short⟩, ih loading' rest⟩
end

lemma loading_empty : Loading (∅ : BlockMap) := ⟨fun _ _ found => (by cases found), rfl⟩

lemma mem_entries_iff {mapBlockIndex : BlockMap} {key pindex} :
    (⟨key, pindex⟩ : Sigma fun _ => IndexEntry) ∈ mapBlockIndex.entries ↔ mapBlockIndex.lookup key = some pindex :=
  AList.mem_lookup_iff.symm

theorem index_restored_iff (params : Params) (getHash : CBlockHeader → UInt256) (mapBlockIndex : BlockMap) :
    (∃ loaded, loadBlockIndexGuts params (writeIndex mapBlockIndex) = some loaded ∧
      ∀ key pindex, mapBlockIndex.lookup key = some pindex → ∃ pindex', loaded.lookup key = some pindex' ∧
        pindex.SameRestored pindex' ∧
        (getHash pindex.getBlockHeader = key → getHash pindex'.getBlockHeader = key)) ↔
    ∀ key pindex, mapBlockIndex.lookup key = some pindex → key ≠ 0 ∧ pindex.Restorable := by
  constructor
  · rintro ⟨loaded, done, same⟩ key pindex found
    have good := good_of_loadRecords _ loading_empty done
    obtain ⟨real, short⟩ := good _ (mem_entries_iff.mpr found)
    obtain ⟨loaded', done', restored, -⟩ := loadRecords_good _ loading_empty mapBlockIndex.nodupKeys good
    cases done.symm.trans done'
    obtain ⟨pindex', found', same', -⟩ := same _ _ found
    cases found'.symm.trans (restored _ (mem_entries_iff.mpr found))
    exact ⟨real, (pindex.sameRestored_iff short).mp same'⟩
  · intro good
    have proper : ∀ entry ∈ mapBlockIndex.entries, entry.1 ≠ 0 ∧ entry.2.vStakeModifier.length ≤ MAX_SIZE := by
      intro entry member
      obtain ⟨real, restorable⟩ := good _ _ (mem_entries_iff.mp member)
      exact ⟨real, restorable.short⟩
    obtain ⟨loaded, done, restored, -⟩ := loadRecords_good _ loading_empty mapBlockIndex.nodupKeys proper
    refine ⟨_, done, ?_⟩
    intro key pindex found
    have same := (pindex.sameRestored_iff (good _ _ found).2.short).mpr (good _ _ found).2
    refine ⟨_, restored _ (mem_entries_iff.mpr found), same, ?_⟩
    intro hashed
    rw [same.header]
    exact hashed

/-- Version 5 with an accumulator checkpoint, version 3 with a supply. -/
def checkpointed : IndexEntry := ⟨{ IndexFields.fresh with nVersion := 5, nAccumulatorCheckpoint := 1 }, none⟩

def supplied : IndexEntry := ⟨{ IndexFields.fresh with nVersion := 3, nMoneySupply := some 100 }, none⟩

theorem index_loses_checkpoint : ((loadBlockIndexGuts mainConsensus (writeIndex (AList.singleton 7 checkpointed))).bind fun loaded =>
        (loaded.lookup 7).map fun pindex => pindex.getBlockHeader.nAccumulatorCheckpoint) = some 0 ∧
      checkpointed.getBlockHeader.nAccumulatorCheckpoint = 1 ∧
      ((loadBlockIndexGuts mainConsensus (writeIndex (AList.singleton 7 supplied))).bind fun loaded =>
        (loaded.lookup 7).map fun pindex => pindex.nMoneySupply) = some (some 0) ∧
      supplied.nMoneySupply = some 100 := by decide +kernel

end Peony
