import Peony.Masternode.Broadcast

/-! `CMasternodeMan::ProcessMessage` for announcements and pings: the lists of messages seen stand in front of the checks. -/

namespace Peony
open AssocMap

def CTxIn.hashItems (vin : CTxIn) : List HashItem :=
  [.number vin.prevout.hash.toNat, .number vin.prevout.n, .bytes vin.scriptSig, .number vin.nSequence]

def CMasternodePing.getHash {Digest : Type} (writer : HashWriter Digest) (salt : Int) (ping : CMasternodePing) : Digest :=
  writer.getHash (ping.vin.hashItems ++ ((if ping.nMessVersion = MESS_VER_HASH then [.number ping.blockHash.toNat] else []) ++
    (.number ping.sigTime :: if 0 < salt then [.number salt] else [])))

inductive MnMessage where
  | broadcast (mnb : CMasternode)
  | ping (mnp : CMasternodePing)

structure MnManager (Digest : Type) [DecidableEq Digest] where
  list : MasternodeList
  mapSeenMasternodeBroadcast : AssocMap Digest CMasternode
  mapSeenMasternodePing : AssocMap Digest CMasternodePing

structure ManagerContext (Digest : Type) extends MnContext where
  writer : HashWriter Digest
  getID : CPubKey → List UInt8
  (fLiteMode isBlockchainSynced : Bool)
  salt : Int
  checkedAgain : CMasternode → Bool

def MasternodeList.pingedMasternode (list : MasternodeList) (context : MnContext) (ping : CMasternodePing) (fRequireEnabled : Bool) :
    Option CMasternode :=
  if context.adjustedTime + 60 * 60 < ping.sigTime then none
  else if ping.sigTime ≤ context.adjustedTime - MASTERNODE_EXPIRATION_SECONDS then none
  else match list.findTxIn ping.vin with
    | none => none
    | some pmn => match list.heap.lookup pmn with
      | none => none
      | some mn =>
        if fRequireEnabled && !mn.isEnabled then none
        else if mn.isPingedWithin context.toMnClock (MASTERNODE_MIN_MNP_SECONDS - 60) ping.sigTime then none
        else if !context.checkPingSignature ping mn.pubKeyMasternode || !context.isRecentBlock ping.blockHash then none
        else some mn

namespace MnManager
variable {Digest : Type} [DecidableEq Digest] (context : ManagerContext Digest) (manager : MnManager Digest)
def pingCheckAndUpdate (ping : CMasternodePing) (fRequireEnabled : Bool) : MnManager Digest × Bool :=
  let seen := manager.mapSeenMasternodeBroadcast
  let checked := manager.list.pingCheckAndUpdate context.toMnContext ping fRequireEnabled false
  let renewed := match manager.list.pingedMasternode context.toMnContext ping fRequireEnabled with
    | none => seen
    | some pmn => match seen.lookup (pmn.broadcastHash context.writer) with
      | none => seen
      | some mnb => seen.insert (pmn.broadcastHash context.writer) { mnb with lastPing := ping }
  ({ manager with list := checked.1, mapSeenMasternodeBroadcast := renewed }, checked.2)

def updateFromNewBroadcast (pmn : Nat) (mnb : CMasternode) : MnManager Digest :=
  match manager.list.heap.lookup pmn with
  | none => manager
  | some mn =>
    if mn.sigTime < mnb.sigTime then
      let taken := { manager with list := manager.list.modify pmn (·.takeBroadcast mnb) }
      let pinged := if mnb.lastPing.isNull then (taken, true) else taken.pingCheckAndUpdate context mnb.lastPing false
      if pinged.2 then
        { pinged.1 with
          list := pinged.1.list.modify pmn ({ · with lastPing := mnb.lastPing })
          mapSeenMasternodePing :=
            insertNew pinged.1.mapSeenMasternodePing (mnb.lastPing.getHash context.writer context.salt) mnb.lastPing }
      else pinged.1
    else manager

section
variable (mnb : CMasternode)
def checkAndUpdate : MnManager Digest × Bool :=
  if !manager.list.checkBroadcast context.getID context.toMnContext mnb then (manager, false)
  else match manager.list.findTxIn mnb.vin with
    | none => (manager, true)
    | some pmn => match manager.list.heap.lookup pmn with
      | none => (manager, true)
      | some mn =>
        if mnb.sigTime ≤ mn.sigTime then (manager, false)
        else if !mn.isEnabled then (manager, true)
        else if mn.pubKeyCollateralAddress == mnb.pubKeyCollateralAddress &&
            !mn.isBroadcastedWithin context.toMnClock MASTERNODE_MIN_MNB_SECONDS then
          let updated := manager.updateFromNewBroadcast context pmn mnb
          ({ updated with list := updated.list.modify pmn (·.check context.toMnClock) }, true)
        else (manager, true)

def addChecked : MnManager Digest × Bool :=
  if context.acceptsInputs mnb then ({ manager with list := manager.list.add context.getID mnb }, true)
  else if context.checkedAgain mnb then
    ({ manager with mapSeenMasternodeBroadcast := manager.mapSeenMasternodeBroadcast.erase (mnb.broadcastHash context.writer) }, false)
  else (manager, false)

def checkInputsAndAdd : MnManager Digest × Bool :=
  if context.isActiveMasternode mnb then (manager, true)
  else if mnb.lastPing.isNull || !(manager.list.pingCheckAndUpdate context.toMnContext mnb.lastPing false true).2 then (manager, false)
  else match manager.list.findTxIn mnb.vin with
    | none => manager.addChecked context mnb
    | some pmn => match manager.list.heap.lookup pmn with
      | none => (manager, false)
      | some mn =>
        if mn.isEnabled then (manager, true)
        else { manager with list := manager.list.remove context.getID mn.vin }.addChecked context mnb
end

def processMessage : MnMessage → MnManager Digest × Bool
  | .broadcast mnb =>
    if context.fLiteMode || !context.isBlockchainSynced then (manager, false)
    else if (manager.mapSeenMasternodeBroadcast.lookup (mnb.broadcastHash context.writer)).isSome then (manager, false)
    else
      let noted := { manager with
        mapSeenMasternodeBroadcast := manager.mapSeenMasternodeBroadcast.insert (mnb.broadcastHash context.writer) mnb }
      let checked := noted.checkAndUpdate context mnb
      if !checked.2 then (checked.1, false)
      else if !context.isInputAssociatedWithPubkey mnb then (checked.1, false)
      else checked.1.checkInputsAndAdd context mnb
  | .ping mnp =>
    if context.fLiteMode || !context.isBlockchainSynced then (manager, false)
    else if (manager.mapSeenMasternodePing.lookup (mnp.getHash context.writer context.salt)).isSome then (manager, false)
    else
      let noted := { manager with
        mapSeenMasternodePing := manager.mapSeenMasternodePing.insert (mnp.getHash context.writer context.salt) mnp }
      noted.pingCheckAndUpdate context mnp true

def accepts (message : MnMessage) : Bool := (manager.processMessage context message).2

def runMessages (messages : List MnMessage) : MnManager Digest :=
  messages.foldl (fun manager message => (manager.processMessage context message).1) manager

end MnManager

def MasternodeList.failsSignature (list : MasternodeList) (context : MnContext) : MnMessage → Prop
  | .broadcast mnb => context.checkSignature mnb = false
  | .ping mnp => ∀ pmn mn, list.findTxIn mnp.vin = some pmn → list.heap.lookup pmn = some mn →
    context.checkPingSignature mnp mn.pubKeyMasternode = false

/-- The message takes the place of another one: they agree in what the inventory hash covers. -/
def MnMessage.Shadows : MnMessage → MnMessage → Prop
  | .broadcast first, .broadcast second =>
    first.sigTime = second.sigTime ∧ first.pubKeyCollateralAddress = second.pubKeyCollateralAddress
  | .ping first, .ping second =>
    first.vin = second.vin ∧ first.sigTime = second.sigTime ∧
      (first.nMessVersion = MESS_VER_HASH ↔ second.nMessVersion = MESS_VER_HASH) ∧
      (first.nMessVersion = MESS_VER_HASH → first.blockHash = second.blockHash)
  | _, _ => False

lemma CTxIn.hashItems_injective : Function.Injective CTxIn.hashItems := by
  intro first snd same
  obtain ⟨⟨hash', n'⟩, scriptSig', nSequence'⟩ := snd
  simp only [hashItems, List.cons.injEq, HashItem.number.injEq, HashItem.bytes.injEq, Nat.cast_inj, BitVec.toNat_inj] at same
  obtain ⟨rfl, rfl, rfl, rfl, -⟩ := same
  rfl

lemma CMasternodePing.getHash_eq_iff {Digest : Type} (writer : HashWriter Digest) (salt : Int) (first snd) :
    first.getHash writer salt = snd.getHash writer salt ↔ MnMessage.Shadows (.ping first) (.ping snd) := by
  unfold getHash MnMessage.Shadows
  rw [writer.getHash_injective.eq_iff]
  have vins : ∀ rest rest', first.vin.hashItems ++ rest = snd.vin.hashItems ++ rest' ↔ first.vin = snd.vin ∧ rest = rest' := by
    intro rest rest'
    constructor
    · intro same
      obtain ⟨vin, tail⟩ := List.append_inj same rfl
      exact ⟨CTxIn.hashItems_injective vin, tail⟩
    · rintro ⟨vin, tail⟩
      rw [vin, tail]
  rw [vins]
  apply and_congr_right
  by_cases ver : first.nMessVersion = MESS_VER_HASH
  · by_cases ver' : snd.nMessVersion = MESS_VER_HASH
    · simp [ver, ver', BitVec.toNat_inj, and_comm]
    · by_cases salted : 0 < salt
      · simp [ver, ver', salted]
      · simp [ver, ver', salted]
  · by_cases ver' : snd.nMessVersion = MESS_VER_HASH
    · by_cases salted : 0 < salt
      · simp [ver, ver', salted]
      · simp [ver, ver', salted]
    · simp [ver, ver']

namespace MnManager
variable {Digest : Type} [DecidableEq Digest] {context : ManagerContext Digest} {manager other : MnManager Digest}

lemma updateFromNewBroadcast_list (manager : MnManager Digest) (pmn : Nat) (mnb) :
    (manager.updateFromNewBroadcast context pmn mnb).list = manager.list.updateFromNewBroadcast context.toMnContext pmn mnb := by
  unfold updateFromNewBroadcast MasternodeList.updateFromNewBroadcast
  cases manager.list.heap.lookup _ with
  | none => rfl
  | some mn =>
    dsimp only
    by_cases newer : mn.sigTime < mnb.sigTime
    · rw [if_pos newer, if_pos newer]
      by_cases null : mnb.lastPing.isNull = true
      · simp only [null, if_true]
      · simp only [null, Bool.false_eq_true, if_false, pingCheckAndUpdate]
        generalize (manager.list.modify _ _).pingCheckAndUpdate _ _ _ _ = chk
        obtain ⟨pinged, acc⟩ := chk
        cases acc with
        | true => rfl
        | false => rfl
    · simp [newer]

lemma checkAndUpdate_list {context : ManagerContext Digest} (manager : MnManager Digest) (mnb) :
    (manager.checkAndUpdate context mnb).1.list = (manager.list.checkAndUpdate context.getID context.toMnContext mnb).1 ∧
      (manager.checkAndUpdate context mnb).2 = (manager.list.checkAndUpdate context.getID context.toMnContext mnb).2 := by
  unfold checkAndUpdate MasternodeList.checkAndUpdate
  split
  · exact ⟨rfl, rfl⟩
  · grind [updateFromNewBroadcast_list]

lemma addChecked_snd (manager : MnManager Digest) (mnb) :
    (manager.addChecked context mnb).2 = context.acceptsInputs mnb := by grind [addChecked]

lemma checkInputsAndAdd_congr (same : manager.list = other.list) {mnb} :
    (manager.checkInputsAndAdd context mnb).2 = (other.checkInputsAndAdd context mnb).2 := by
  unfold checkInputsAndAdd
  rw [same]
  split
  · rfl
  split
  · rfl
  cases other.list.findTxIn _ with
  | none => simp [addChecked_snd]
  | some pmn => grind [addChecked_snd]

def Seen (context : ManagerContext Digest) (manager : MnManager Digest) : MnMessage → Prop
  | .broadcast mnb => (manager.mapSeenMasternodeBroadcast.lookup (mnb.broadcastHash context.writer)).isSome = true
  | .ping mnp => (manager.mapSeenMasternodePing.lookup (mnp.getHash context.writer context.salt)).isSome = true

variable {message : MnMessage}
lemma processMessage_seen (seen : manager.Seen context message) : manager.processMessage context message = (manager, false) := by
  unfold processMessage
  cases message with
  | broadcast mnb =>
    unfold Seen at seen
    dsimp only at seen ⊢
    rw [if_pos seen, ite_self]
  | ping mnp =>
    unfold Seen at seen
    dsimp only at seen ⊢
    rw [if_pos seen, ite_self]

lemma not_seen_of_accepts (acc : manager.accepts context message = true) : ¬ manager.Seen context message := by
  intro seen
  unfold accepts at acc
  rw [processMessage_seen seen] at acc
  cases acc

lemma accepts_congr (same : manager.list = other.list) (new : ¬ manager.Seen context message)
    (new' : ¬ other.Seen context message) : manager.accepts context message = other.accepts context message := by
  unfold Seen at new new'
  unfold accepts processMessage
  cases message with
  | broadcast mnb =>
    dsimp only at new new' ⊢
    split
    · rfl
    · obtain ⟨list, verdict⟩ := checkAndUpdate_list { manager with
        mapSeenMasternodeBroadcast := manager.mapSeenMasternodeBroadcast.insert _ _ } _
      obtain ⟨list', verdict'⟩ := checkAndUpdate_list { other with
        mapSeenMasternodeBroadcast := other.mapSeenMasternodeBroadcast.insert (mnb.broadcastHash context.writer) mnb } _
      have lists := list.trans ((congrArg (fun known => (known.checkAndUpdate context.getID context.toMnContext mnb).1)
        same).trans list'.symm)
      have verdicts :=
        verdict.trans ((congrArg (fun known => (known.checkAndUpdate context.getID context.toMnContext mnb).2) same).trans verdict'.symm)
      rw [verdicts]
      split
      · rfl
      split
      · rfl
      · exact checkInputsAndAdd_congr lists
  | ping mnp =>
    dsimp only at new new' ⊢
    split
    · rfl
    · simp [pingCheckAndUpdate, same]

def note (context : ManagerContext Digest) (manager : MnManager Digest) : MnMessage → MnManager Digest
  | .broadcast mnb => { manager with
      mapSeenMasternodeBroadcast := insertNew manager.mapSeenMasternodeBroadcast (mnb.broadcastHash context.writer) mnb }
  | .ping mnp => { manager with
      mapSeenMasternodePing := insertNew manager.mapSeenMasternodePing (mnp.getHash context.writer context.salt) mnp }

omit [DecidableEq Digest] in
lemma ping_fails {list : MasternodeList} {mnp} (fails : list.failsSignature context.toMnContext (.ping mnp)) :
    list.pingCheckAndUpdate context.toMnContext mnp true false = (list, false) ∧
      list.pingedMasternode context.toMnContext mnp true = none := by
  unfold MasternodeList.pingCheckAndUpdate MasternodeList.pingedMasternode
  split
  · exact ⟨rfl, rfl⟩
  split
  · exact ⟨rfl, rfl⟩
  cases found : list.findTxIn mnp.vin with
  | none => exact ⟨rfl, rfl⟩
  | some pmn =>
    dsimp only
    cases held : list.heap.lookup pmn with
    | none => exact ⟨rfl, rfl⟩
    | some mn =>
      have unsigned := fails pmn mn found held
      dsimp only
      rw [unsigned, if_neg Bool.false_ne_true]
      split
      · exact ⟨rfl, rfl⟩
      split
      · exact ⟨rfl, rfl⟩
      · exact ⟨rfl, rfl⟩

lemma broadcast_fails {mnb} (fails : context.checkSignature mnb = false) (manager : MnManager Digest) :
    manager.checkAndUpdate context mnb = (manager, false) := by
  apply if_pos
  simp [MasternodeList.checkBroadcast, fails]

lemma processMessage_fails (fails : manager.list.failsSignature context.toMnContext message) :
    manager.processMessage context message =
      (if context.fLiteMode || !context.isBlockchainSynced then manager else manager.note context message, false) := by
  unfold processMessage note insertNew
  cases message with
  | broadcast mnb =>
    dsimp only
    split
    · rfl
    split
    · rfl
    · rw [broadcast_fails fails]
      rfl
  | ping mnp =>
    dsimp only
    split
    · rfl
    split
    · rfl
    · simp [pingCheckAndUpdate, (ping_fails fails).1, (ping_fails fails).2]

lemma note_list {message} : (manager.note context message).list = manager.list := by
  cases message with
  | broadcast mnb => rfl
  | ping mnp => rfl

lemma seen_note_iff (noted message) :
    (manager.note context noted).Seen context message ↔ noted.Shadows message ∨ manager.Seen context message := by
  cases noted with
  | broadcast first =>
    cases message with
    | broadcast snd =>
      have seen := isSome_lookup_insertNew manager.mapSeenMasternodeBroadcast (first.broadcastHash context.writer)
        (snd.broadcastHash context.writer) first
      rw [CMasternode.broadcastHash_eq_iff] at seen
      exact seen
    | ping snd => exact (or_iff_right id).symm
  | ping first =>
    cases message with
    | broadcast snd => exact (or_iff_right id).symm
    | ping snd =>
      have seen := isSome_lookup_insertNew manager.mapSeenMasternodePing (first.getHash context.writer context.salt)
        (snd.getHash context.writer context.salt) first
      rw [CMasternodePing.getHash_eq_iff] at seen
      exact seen

def AllFail (context : ManagerContext Digest) : MnManager Digest → List MnMessage → Prop
  | _, [] => True
  | manager, message :: messages => manager.list.failsSignature context.toMnContext message ∧
    AllFail context (manager.processMessage context message).1 messages

lemma runMessages_fails (active : (context.fLiteMode || !context.isBlockchainSynced) = false) {msgs}
    (fail : AllFail context manager msgs) {message} :
    (manager.runMessages context msgs).list = manager.list ∧
      ((manager.runMessages context msgs).Seen context message ↔
        (∃ bad ∈ msgs, bad.Shadows message) ∨ manager.Seen context message) := by
  induction msgs generalizing manager with
  | nil =>
    simp [runMessages]
  | cons bad msgs ih =>
    obtain ⟨fails, rest⟩ := fail
    have noted : (manager.processMessage context bad).1 = manager.note context bad := by
      rw [processMessage_fails fails, active]
      rfl
    obtain ⟨list, seen⟩ := ih rest
    have step : manager.runMessages context (bad :: msgs) = (manager.note context bad).runMessages context msgs := by
      unfold runMessages
      rw [List.foldl_cons, noted]
    rw [noted] at list seen
    rw [step]
    refine ⟨list.trans (note_list), ?_⟩
    rw [seen, seen_note_iff, List.exists_mem_cons_iff, or_left_comm, or_assoc]

lemma active_of_accepts (acc : manager.accepts context message = true) :
    (context.fLiteMode || !context.isBlockchainSynced) = false := by
  unfold accepts processMessage at acc
  cases message with
  | broadcast mnb => grind
  | ping mnp => grind

/-- Accepted exactly if no earlier invalid message agrees with it in what its inventory hash covers. -/
theorem accepted_after_invalid_iff (context : ManagerContext Digest) (manager : MnManager Digest) (message : MnMessage)
    (messages : List MnMessage) (accepted : manager.accepts context message = true) (fail : AllFail context manager messages) :
    (manager.runMessages context messages).accepts context message = true ↔ ∀ bad ∈ messages, ¬ bad.Shadows message := by
  obtain ⟨list, seen⟩ := runMessages_fails (active_of_accepts accepted) fail
  have new := not_seen_of_accepts accepted
  constructor
  · intro still bad member shadows
    exact not_seen_of_accepts still (seen.mpr (Or.inl ⟨_, member, shadows⟩))
  · intro apart
    rw [accepts_congr list ?_ new]
    · exact accepted
    · grind

/-! A node without masternodes, on which a signature is good if it is `[1]`. -/

def startContext : ManagerContext (List HashItem) where
  adjustedTime := 1700000000
  shutdownRequested := false
  checkPingSignature mnp _ := mnp.vchSig == [1]
  isRecentBlock _ := true
  checkSignature mnb := mnb.vchSig == [1]
  isDefaultPort _ := true
  isInputAssociatedWithPubkey _ := true
  isActiveMasternode _ := false
  acceptsInputs _ := true
  writer := plainTexts.toHashWriter
  getID key := List.replicate 20 (key.headD 0)
  fLiteMode := false
  isBlockchainSynced := true
  salt := 0
  checkedAgain _ := false

def startManager : MnManager (List HashItem) := ⟨⟨∅, [], ∅, ∅, ∅⟩, ∅, ∅⟩
def signedAnnouncement : MnMessage := .broadcast { announcement 0 with vchSig := [1] }

theorem announcement_accepted_after_other :
    (startManager.runMessages startContext [.broadcast (announcement 1), .ping (announcement 0).lastPing]).accepts startContext
      (.broadcast { announcement 0 with vchSig := [1], sigTime := 1699999999 }) = true := by
  apply (accepted_after_invalid_iff startContext startManager _ _ (by decide) ?_).mpr
  · intro bad member shadows
    rcases List.mem_pair.mp member with rfl | rfl
    · exact absurd shadows.1 (by decide)
    · exact shadows
  · refine ⟨rfl, ?_, trivial⟩
    intro pmn mn found
    cases found

/-- The announcement without its signature keeps the signed one out. -/
theorem unsigned_announcement_suppresses : startManager.accepts startContext signedAnnouncement = true ∧
      startManager.list.failsSignature startContext.toMnContext (.broadcast (announcement 0)) ∧
      (startManager.runMessages startContext [.broadcast (announcement 0)]).accepts startContext signedAnnouncement = false := by
  refine ⟨by decide, rfl, by decide⟩

end MnManager

end Peony
