import Peony.Library.Newest
import Peony.Consensus.MainNet

namespace Peony
open Consensus Newest List

/-- `enum SporkId : int32_t`. A message can carry any value of the underlying type. -/
abbrev SporkId := Int

structure CSporkDef where
  sporkId : SporkId
  defaultValue : Int
  name : String

def sporkDefs : List CSporkDef :=
  [⟨10007, 4070908800, "SPORK_8_MASTERNODE_PAYMENT_ENFORCEMENT"⟩,
    ⟨10013, 4070908800, "SPORK_14_MIN_PROTOCOL_ACCEPTED"⟩,
    ⟨10102, 0, "SPORK_103_PING_MESSAGE_SALT"⟩,
    ⟨10103, 4070908800, "SPORK_104_MAX_BLOCK_TIME"⟩,
    ⟨10104, 4070908800, "SPORK_105_MAX_BLOCK_SIZE"⟩,
    ⟨10105, 4070908800, "SPORK_106_STAKING_SKIP_MN_SYNC"⟩,
    ⟨10001, 4070908800, "SPORK_2_NOOP"⟩,
    ⟨10002, 4070908800, "SPORK_3_NOOP"⟩,
    ⟨10004, 4070908800, "SPORK_5_NOOP"⟩,
    ⟨10006, 4070908800, "SPORK_7_NOOP"⟩,
    ⟨10008, 4070908800, "SPORK_9_NOOP"⟩,
    ⟨10009, 4070908800, "SPORK_10_NOOP"⟩,
    ⟨10010, 4070908800, "SPORK_11_NOOP"⟩,
    ⟨10011, 4070908800, "SPORK_12_NOOP"⟩,
    ⟨10012, 4070908800, "SPORK_13_NOOP"⟩,
    ⟨10014, 4070908800, "SPORK_15_NOOP"⟩,
    ⟨10015, 4070908800, "SPORK_16_NOOP"⟩,
    ⟨10016, 4070908800, "SPORK_17_NOOP"⟩,
    ⟨10017, 4070908800, "SPORK_18_NOOP"⟩,
    ⟨10018, 4070908800, "SPORK_19_NOOP"⟩,
    ⟨10100, 4070908800, "SPORK_101_NOOP"⟩,
    ⟨10101, 4070908800, "SPORK_102_NOOP"⟩,
    ⟨10106, 4070908800, "SPORK_107_NOOP"⟩,
    ⟨10107, 4070908800, "SPORK_108_NOOP"⟩,
    ⟨10108, 4070908800, "SPORK_109_NOOP"⟩,
    ⟨10109, 4070908800, "SPORK_110_NOOP"⟩,
    ⟨10110, 4070908800, "SPORK_111_NOOP"⟩,
    ⟨10111, 4070908800, "SPORK_112_NOOP"⟩,
    ⟨10112, 4070908800, "SPORK_113_NOOP"⟩,
    ⟨10113, 4070908800, "SPORK_114_NOOP"⟩,
    ⟨10114, 4070908800, "SPORK_115_NOOP"⟩,
    ⟨10115, 4070908800, "SPORK_116_NOOP"⟩,
    ⟨10116, 4070908800, "SPORK_117_NOOP"⟩]

def MESS_VER_STRMESS : Int := 0
def MESS_VER_HASH : Int := 1

structure CSporkMessage where
  nSporkID : SporkId
  (nValue nTimeSigned : Int)
  vchSig : List UInt8
  nMessVersion : Int
  deriving DecidableEq

/-- The hashes and the verification of signatures. An empty public key is `CPubKey()`. -/
structure SporkHost where
  hash : SporkId → Int → Int → UInt256
  signatureHash : Int → SporkId → Int → Int → UInt256
  verifyHash : UInt256 → (pubKey vchSig : List UInt8) → Bool
  verifyMessage : (pubKey vchSig : List UInt8) → String → Bool

structure SporkParams extends Params where
  (sporkPubKey sporkPubKeyOld : List UInt8)
  (nTime_EnforceNewSporkKey nTime_RejectOldSporkKey : Int)

structure SporkContext where
  fLiteMode : Bool
  nAdjustedTime : Int
  nHeight : Nat
  deriving Inhabited

structure CSporkManager where
  mapSporks : AssocMap UInt256 CSporkMessage
  (mapSporksActive sporkDB : AssocMap SporkId CSporkMessage)

def emptySporks : CSporkManager := ⟨∅, ∅, ∅⟩

inductive SporkOutcome where
  | ignored
  | misbehaving (howmuch : Nat)
  | relayed
  deriving DecidableEq

namespace CSporkMessage
variable (host : SporkHost) (params : SporkParams) (spork : CSporkMessage)
def getHash : UInt256 := host.hash spork.nSporkID spork.nValue spork.nTimeSigned
def getSignatureHash : UInt256 := host.signatureHash spork.nMessVersion spork.nSporkID spork.nValue spork.nTimeSigned
def getStrMessage : String := toString spork.nSporkID ++ toString spork.nValue ++ toString spork.nTimeSigned

def checkSignatureOf (pubKey : List UInt8) : Bool :=
  if spork.nMessVersion = MESS_VER_HASH then host.verifyHash (spork.getSignatureHash host) pubKey spork.vchSig
  else host.verifyMessage pubKey spork.vchSig spork.getStrMessage

def checkSignature : Bool := if params.sporkPubKey = [] then false else spork.checkSignatureOf host params.sporkPubKey

def hasValidSignature (nAdjustedTime : Int) : Bool :=
  spork.checkSignature host params ||
    (decide (spork.nTimeSigned < params.nTime_EnforceNewSporkKey) && decide (nAdjustedTime < params.nTime_RejectOldSporkKey) &&
      spork.checkSignatureOf host params.sporkPubKeyOld)

end CSporkMessage

namespace CSporkManager
variable (host : SporkHost) (params : SporkParams) (context : SporkContext)
def sporkDefsById (nSporkID : SporkId) : Option CSporkDef := sporkDefs.find? (·.sporkId == nSporkID)
def getSporkNameByID (nSporkID : SporkId) : String := (sporkDefsById nSporkID).elim "Unknown" (·.name)

variable (manager : CSporkManager)
def getSporkValue (nSporkID : SporkId) : Int :=
  match manager.mapSporksActive.lookup nSporkID with
  | some active => active.nValue
  | none => (sporkDefsById nSporkID).elim (-1) (·.defaultValue)

section
variable (spork : CSporkMessage)
def isUpdatedBy : Bool :=
  match manager.mapSporksActive.lookup spork.nSporkID with
  | some active =>
    if spork.nTimeSigned < active.nTimeSigned then false
    -- nothing to do
    else if active.nTimeSigned = spork.nTimeSigned then false
    else true
  | none => true

def isUnknown : Bool := getSporkNameByID spork.nSporkID == "Unknown"
def signedInFuture : Bool := decide (context.nAdjustedTime + 2 * 60 * 60 < spork.nTimeSigned)

def versionRefused : Bool :=
  params.networkUpgradeActive context.nHeight .timeProtocolV2 && spork.nMessVersion != MESS_VER_HASH

def processSpork : CSporkManager × SporkOutcome :=
  if context.fLiteMode then (manager, .ignored)
  else if isUnknown spork then (manager, .ignored)
  else if signedInFuture context spork then (manager, .misbehaving 100)
  else if versionRefused params context spork then (manager, .ignored)
  else if !manager.isUpdatedBy spork then (manager, .ignored)
  else if !spork.hasValidSignature host params context.nAdjustedTime then (manager, .misbehaving 100)
  else
    ({ mapSporks := manager.mapSporks.insert (spork.getHash host) spork
       mapSporksActive := manager.mapSporksActive.insert spork.nSporkID spork
       sporkDB := manager.sporkDB.insert spork.nSporkID spork }, .relayed)
end

/-- On a node with the spork key. The active message is replaced without a look at its time, and the database is not written. -/
def updateSpork (sign : CSporkMessage → Option (List UInt8 × Int)) (nTime : Int) (manager : CSporkManager) (nSporkID : SporkId)
    (nValue : Int) : CSporkManager × Bool :=
  match sign ⟨nSporkID, nValue, nTime, [], MESS_VER_HASH⟩ with
  | some (vchSig, nMessVersion) =>
    let spork : CSporkMessage := ⟨nSporkID, nValue, nTime, vchSig, nMessVersion⟩
    ({ manager with
       mapSporks := manager.mapSporks.insert (spork.getHash host) spork
       mapSporksActive := manager.mapSporksActive.insert nSporkID spork }, true)
  | none => (manager, false)

structure Receipt where
  context : SporkContext
  message : CSporkMessage

def receive (receipt : Receipt) : CSporkManager :=
  (processSpork host params receipt.context manager receipt.message).1

def run (receipts : List Receipt) : CSporkManager := receipts.foldl (receive host params) manager

def admits (spork : CSporkMessage) : Bool :=
  !context.fLiteMode && !isUnknown spork && !signedInFuture context spork && !versionRefused params context spork &&
    spork.hasValidSignature host params context.nAdjustedTime

variable {host params context} {manager : CSporkManager} {spork : CSporkMessage}
lemma isUpdatedBy_iff : manager.isUpdatedBy spork = true ↔
    ∀ active, manager.mapSporksActive.lookup spork.nSporkID = some active → active.nTimeSigned < spork.nTimeSigned := by
  grind [isUpdatedBy]

lemma processSpork_active : (processSpork host params context manager spork).1.mapSporksActive =
    if admits host params context spork && manager.isUpdatedBy spork then manager.mapSporksActive.insert spork.nSporkID spork
    else manager.mapSporksActive := by grind [processSpork, admits]

lemma receive_active (manager receipt nSporkID) :
    (receive host params manager receipt).mapSporksActive.lookup nSporkID =
      if admits host params receipt.context receipt.message && receipt.message.nSporkID == nSporkID then
        keep CSporkMessage.nTimeSigned (manager.mapSporksActive.lookup nSporkID) receipt.message
      else manager.mapSporksActive.lookup nSporkID := by
  rw [receive, processSpork_active]
  by_cases adm : admits host params receipt.context receipt.message = true
  · by_cases own : receipt.message.nSporkID = nSporkID
    · subst own
      rw [adm, Bool.true_and, Bool.true_and, beq_self_eq_true]
      cases found : manager.mapSporksActive.lookup _ with
      | none =>
        have upd : manager.isUpdatedBy receipt.message = true := isUpdatedBy_iff.mpr (by simp [found])
        rw [upd, if_pos rfl, AList.lookup_insert]
        rfl
      | some active =>
        have upd : manager.isUpdatedBy receipt.message = true ↔ active.nTimeSigned < receipt.message.nTimeSigned := by
          simp [isUpdatedBy_iff, found]
        rw [keep]
        by_cases newer : active.nTimeSigned < receipt.message.nTimeSigned
        · simp [(upd.mpr _), newer, AList.lookup_insert]
        · simp [(mt upd.mp _), newer, found]
    · rw [beq_false_of_ne own, Bool.and_false]
      split
      · exact AList.lookup_insert_ne (Ne.symm own)
      · rfl
  · grind

def heard (host : SporkHost) (params : SporkParams) (receipts : List Receipt) (nSporkID : SporkId) : List CSporkMessage :=
  (receipts.filter fun receipt => admits host params receipt.context receipt.message && receipt.message.nSporkID == nSporkID).map
    Receipt.message

lemma run_active (manager receipts nSporkID) :
    (run host params manager receipts).mapSporksActive.lookup nSporkID =
      newest CSporkMessage.nTimeSigned (manager.mapSporksActive.lookup nSporkID) (heard host params receipts nSporkID) := by
  induction receipts generalizing manager with
  | nil => rfl
  | cons receipt receipts ih =>
    change (run _ _ _ receipts).mapSporksActive.lookup _ = _
    rw [ih, receive_active, heard, heard, filter_cons]
    split
    · rfl
    · rfl

section
variable (host params)
/-- The messages arrive in some order, each at a moment when it passes the gates. -/
structure Delivers (receipts : List Receipt) (messages : List CSporkMessage) : Prop where
  all : (receipts.map Receipt.message).Perm messages
  admitted : ∀ receipt ∈ receipts, admits host params receipt.context receipt.message = true

/-- Of the messages about one spork, those signed last set one value. -/
def LastSignedAgree (messages : List CSporkMessage) : Prop :=
  ∀ (nSporkID : SporkId) (a b : CSporkMessage), IsNewest CSporkMessage.nTimeSigned (messages.filter (·.nSporkID == nSporkID)) a →
    IsNewest CSporkMessage.nTimeSigned (messages.filter (·.nSporkID == nSporkID)) b → a.nValue = b.nValue

variable {host params} {receipts left right : List Receipt} {messages : List CSporkMessage}
section
variable (delivers : Delivers host params receipts messages) (nSporkID : SporkId)
include delivers nSporkID

lemma Delivers.heard_eq : heard host params receipts nSporkID = (receipts.map Receipt.message).filter (·.nSporkID == nSporkID) := by
  have kept : ∀ receipt ∈ receipts, (admits host params receipt.context receipt.message && receipt.message.nSporkID == nSporkID) =
      ((·.nSporkID == nSporkID) ∘ Receipt.message) receipt := by
    intro receipt mem
    rw [delivers.admitted _ mem]
    rfl
  rw [heard, filter_congr kept, ← filter_map]

lemma Delivers.heard_perm : (heard host params receipts nSporkID).Perm (messages.filter (·.nSporkID == nSporkID)) := by
  rw [delivers.heard_eq]
  exact delivers.all.filter _
end

lemma getSporkValue_eq (manager : CSporkManager) (nSporkID) : manager.getSporkValue nSporkID =
    ((manager.mapSporksActive.lookup nSporkID).map CSporkMessage.nValue).getD ((sporkDefsById nSporkID).elim (-1) (·.defaultValue)) := by
  grind [getSporkValue]

lemma run_emptySporks (receipts nSporkID) :
    (run host params emptySporks receipts).mapSporksActive.lookup nSporkID =
      newest CSporkMessage.nTimeSigned none (heard host params receipts nSporkID) := run_active ..

lemma exists_delivery (valid : ∀ message ∈ messages, ∃ context, admits host params context message = true) {nSporkID message}
    (latest : IsNewest CSporkMessage.nTimeSigned (messages.filter (·.nSporkID == nSporkID)) message) :
    ∃ receipts, Delivers host params receipts messages ∧
      (run host params emptySporks receipts).getSporkValue nSporkID = message.nValue := by
  obtain ⟨mem, own⟩ := mem_filter.mp latest.1
  have order : (message :: messages.erase message).Perm messages := (perm_cons_erase mem).symm
  choose! context adm using valid
  let receipts := (message :: messages.erase message).map fun message => Receipt.mk (context message) message
  have unpacked : receipts.map Receipt.message = message :: messages.erase message := by
    rw [map_map]
    exact map_id _
  have delivers : Delivers host params receipts messages := by
    constructor
    · grind
    · intro receipt listed
      obtain ⟨other, known, rfl⟩ := mem_map.mp listed
      exact adm _ (order.mem_iff.mp known)
  have first : heard host params receipts nSporkID = message :: (messages.erase message).filter (·.nSporkID == nSporkID) := by
    rw [delivers.heard_eq, unpacked]
    exact filter_cons_of_pos own
  refine ⟨_, delivers, ?_⟩
  have decides := latest.perm (delivers.heard_perm _).symm
  rw [first] at decides
  rw [getSporkValue_eq, run_emptySporks, first, decides.first]
  rfl

/-- Every order agrees exactly when, for each spork, the messages signed last do; an update sets a time back exactly
when its clock is behind. -/
theorem sporks_converge_iff (valid : ∀ message ∈ messages, ∃ context, admits host params context message = true) :
    ((∀ left right, Delivers host params left messages → Delivers host params right messages → ∀ nSporkID,
      (run host params emptySporks left).getSporkValue nSporkID = (run host params emptySporks right).getSporkValue nSporkID) ↔
        LastSignedAgree messages) ∧
    (∀ (manager : CSporkManager) (nSporkID : SporkId) (before : CSporkMessage),
      manager.mapSporksActive.lookup nSporkID = some before →
      (∀ receipts, ∃ after, (run host params manager receipts).mapSporksActive.lookup nSporkID = some after ∧
        before.nTimeSigned ≤ after.nTimeSigned) ∧
      ∀ sign nTime nValue, (updateSpork host sign nTime manager nSporkID nValue).2 = true →
        ∃ after, (updateSpork host sign nTime manager nSporkID nValue).1.mapSporksActive.lookup nSporkID = some after ∧
          (before.nTimeSigned ≤ after.nTimeSigned ↔ before.nTimeSigned ≤ nTime)) := by
  constructor
  · constructor
    · intro converges nSporkID a b newestA newestB
      obtain ⟨left, delivers, valueA⟩ := exists_delivery valid newestA
      obtain ⟨right, delivers', valueB⟩ := exists_delivery valid newestB
      rw [← valueA, ← valueB]
      exact converges _ _ delivers delivers' _
    · intro agree left right delivers delivers' nSporkID
      have same := newest_perm _ _
        ((delivers.heard_perm _).trans (delivers'.heard_perm _).symm) fun a b newestA newestB =>
          agree _ a b (newestA.perm (delivers.heard_perm _)) (newestB.perm (delivers.heard_perm nSporkID))
      rw [getSporkValue_eq, getSporkValue_eq, run_emptySporks, run_emptySporks, same]
  · intro manager nSporkID before active
    constructor
    · intro receipts
      rw [run_active, active]
      exact newest_some ..
    · intro sign nTime nValue signed
      obtain ⟨after, found, -, time⟩ : ∃ after, (updateSpork host sign nTime manager nSporkID nValue).1.mapSporksActive.lookup nSporkID =
          some after ∧ after.nValue = nValue ∧ after.nTimeSigned = nTime := by
        unfold updateSpork at signed ⊢
        split at signed
        · exact ⟨_, AList.lookup_insert _, rfl, rfl⟩
        · grind
      exact ⟨_, found, by rw [time]⟩
end

def trustingHost : SporkHost where
  hash := fun _ nValue _ => BitVec.ofNat 256 nValue.toNat
  signatureHash := fun _ _ _ _ => 0
  verifyHash := fun _ _ _ => true
  verifyMessage := fun _ _ _ => true

def mainSporks : SporkParams := { mainConsensus with
  sporkPubKey := [3]
  sporkPubKeyOld := []
  nTime_EnforceNewSporkKey := 0
  nTime_RejectOldSporkKey := 0 }

def maxBlockTime (nValue nTimeSigned : Int) : CSporkMessage := ⟨10103, nValue, nTimeSigned, [], MESS_VER_HASH⟩
def heardAt (nAdjustedTime : Int) (message : CSporkMessage) : Receipt := ⟨⟨false, nAdjustedTime, 2000⟩, message⟩

lemma lastSignedAgree_two : LastSignedAgree [maxBlockTime 1 1000, maxBlockTime 2 2000] := by
  intro nSporkID a b newestA newestB
  have last : ∀ msg, IsNewest CSporkMessage.nTimeSigned
      ([maxBlockTime 1 1000, maxBlockTime 2 2000].filter (·.nSporkID == nSporkID)) msg → msg = maxBlockTime 2 2000 := by
    rintro msg ⟨mem, latest⟩
    obtain ⟨mem, own⟩ := mem_filter.mp mem
    simp only [mem_cons, not_mem_nil, or_false] at mem
    rcases mem with rfl | rfl
    · exact absurd (latest (maxBlockTime 2 2000) (mem_filter.mpr ⟨by simp, own⟩)) (by decide)
    · rfl
  rw [last a newestA, last b newestB]

theorem two_sporks_converge : Delivers trustingHost mainSporks [heardAt 2000 (maxBlockTime 1 1000), heardAt 2000 (maxBlockTime 2 2000)]
      [maxBlockTime 1 1000, maxBlockTime 2 2000] ∧
    Delivers trustingHost mainSporks [heardAt 2000 (maxBlockTime 2 2000), heardAt 2000 (maxBlockTime 1 1000)]
      [maxBlockTime 1 1000, maxBlockTime 2 2000] ∧
    (run trustingHost mainSporks emptySporks [heardAt 2000 (maxBlockTime 1 1000), heardAt 2000 (maxBlockTime 2 2000)]).getSporkValue 10103 =
      (run trustingHost mainSporks emptySporks
        [heardAt 2000 (maxBlockTime 2 2000), heardAt 2000 (maxBlockTime 1 1000)]).getSporkValue 10103 := by
  have valid : ∀ message ∈ [maxBlockTime 1 1000, maxBlockTime 2 2000], ∃ context,
      admits trustingHost mainSporks context message = true := by
    intro message member
    refine ⟨⟨false, 2000, 2000⟩, ?_⟩
    simp only [mem_cons, not_mem_nil, or_false] at member
    rcases member with rfl | rfl
    · decide
    · decide
  have left : Delivers trustingHost mainSporks [heardAt 2000 (maxBlockTime 1 1000), heardAt 2000 (maxBlockTime 2 2000)]
      [maxBlockTime 1 1000, maxBlockTime 2 2000] := ⟨.refl _, by decide⟩
  have right : Delivers trustingHost mainSporks [heardAt 2000 (maxBlockTime 2 2000), heardAt 2000 (maxBlockTime 1 1000)]
      [maxBlockTime 1 1000, maxBlockTime 2 2000] := ⟨.swap .., by decide⟩
  exact ⟨left, right, (sporks_converge_iff valid).1.mpr lastSignedAgree_two _ _ left right 10103⟩

/-- Of two messages of one second each node keeps the first; a slow clock refuses one. -/
theorem tied_sporks_diverge : (maxBlockTime 1 1000).getHash trustingHost ≠ (maxBlockTime 2 1000).getHash trustingHost ∧
      (run trustingHost mainSporks emptySporks [heardAt 1000 (maxBlockTime 1 1000),
        heardAt 1000 (maxBlockTime 2 1000)]).getSporkValue 10103 = 1 ∧
      (run trustingHost mainSporks emptySporks [heardAt 1000 (maxBlockTime 2 1000),
        heardAt 1000 (maxBlockTime 1 1000)]).getSporkValue 10103 = 2 ∧
      (run trustingHost mainSporks emptySporks [heardAt 10000 (maxBlockTime 1 10000)]).getSporkValue 10103 = 1 ∧
      (run trustingHost mainSporks emptySporks [heardAt 1000 (maxBlockTime 1 10000)]).getSporkValue 10103 = 4070908800 := by
  refine ⟨by decide, ?_, ?_, ?_, ?_⟩
  all_goals decide

end CSporkManager

end Peony
