import Peony.Masternode.Broadcast
import Peony.Masternode.Entries

/-! Whether the announcements rebuilt from the masternode list still carry good signatures. -/

namespace Peony
open List MasternodeList CMasternode Function

/-- The message version is not written, and the constructor has set it. -/
def CMasternode.reread (mn : CMasternode) : CMasternode where
  vin := mn.vin
  addr := mn.addr
  pubKeyCollateralAddress := mn.pubKeyCollateralAddress
  pubKeyMasternode := mn.pubKeyMasternode
  vchSig := mn.vchSig
  nMessVersion := MESS_VER_HASH
  activeState := mn.activeState
  sigTime := mn.sigTime
  protocolVersion := mn.protocolVersion
  lastPing := mn.lastPing

namespace MasternodeList

def saved (list : MasternodeList) : List CMasternode := list.vMasternodes.filterMap list.heap.lookup

/-- The loop ends at the first collateral script that is known, and its owner goes too. -/
def readBack (getID : CPubKey → List UInt8) : (kept file : List CMasternode) → List CMasternode
  | kept, [] => kept
  | kept, mn :: mns =>
    if mn.payee getID ∈ kept.map (·.payee getID) then kept.filter (·.payee getID ≠ mn.payee getID) else readBack getID (kept ++ [mn]) mns

def saveAndLoad (getID : CPubKey → List UInt8) (list : MasternodeList) : MasternodeList :=
  load getID (list.saved.map reread) empty

end MasternodeList

/-- A broadcast makes two calls, and `saveAndLoad` is followed by `checkAndRemove`. -/
inductive MnEvent where
  | checkAndUpdate (context : MnContext) (mnb : CMasternode)
  | checkInputsAndAdd (context : MnContext) (mnb : CMasternode)
  | ping (context : MnContext) (mnp : CMasternodePing)
  | updateMasternodeList (context : MnContext) (mnb : CMasternode)
  | checkAndRemove (clock : MnClock) (forceExpiredRemoval : Bool)
  | saveAndLoad

section
variable {Digest : Type} (texts : MessageTexts Digest) (verify : Digest → (keyID vchSig : List UInt8) → Bool)
def MnContext.signing (context : MnContext) : MnContext := { context with checkSignature := CMasternode.checkSignature texts verify }

section
variable (list : MasternodeList)
def MnEvent.apply : MnEvent → MasternodeList
  | .checkAndUpdate context mnb => (list.checkAndUpdate texts.getID (context.signing texts verify) mnb).1
  | .checkInputsAndAdd context mnb => list.checkInputsAndAdd texts.getID (context.signing texts verify) mnb
  | .ping context mnp => (list.pingCheckAndUpdate (context.signing texts verify) mnp true false).1
  | .updateMasternodeList context mnb => list.updateMasternodeList texts.getID (context.signing texts verify) mnb
  | .checkAndRemove clock forceExpiredRemoval => list.checkAndRemove texts.getID clock forceExpiredRemoval
  | .saveAndLoad => list.saveAndLoad texts.getID

/-- The second call is for a broadcast that passed the first; a node signs its own announcements. -/
def MnEvent.Signed : MnEvent → Prop
  | .checkInputsAndAdd _ mnb => mnb.checkSignature texts verify = true
  | .updateMasternodeList _ mnb => mnb.checkSignature texts verify = true
  | _ => True

def MasternodeList.Verifiable : Prop := list.Every fun mn => mn.checkSignature texts verify = true
def SameVersion (mn mnb : CMasternode) : Prop := mn.nMessVersion = MESS_VER_HASH ↔ mnb.nMessVersion = MESS_VER_HASH

/-- Updates keep the message version, and what is read from the file is of the hash version. -/
def MnEvent.Fits : MnEvent → Prop
  | .checkAndUpdate context mnb => ∀ pmn mn, list.findTxIn mnb.vin = some pmn → list.entries pmn = some mn →
      list.checkBroadcast texts.getID (context.signing texts verify) mnb = true → mn.sigTime < mnb.sigTime → mn.isEnabled = true →
      mn.pubKeyCollateralAddress = mnb.pubKeyCollateralAddress →
      mn.isBroadcastedWithin context.toMnClock MASTERNODE_MIN_MNB_SECONDS = false → SameVersion mn mnb
  | .updateMasternodeList _ mnb => ∀ pmn mn, list.findTxIn mnb.vin = some pmn → list.entries pmn = some mn →
      mn.sigTime < mnb.sigTime → SameVersion mn mnb
  | .saveAndLoad => ∀ mn ∈ readBack texts.getID [] list.saved, mn.nMessVersion = MESS_VER_HASH
  | _ => True
end

def VerifiableRun : MasternodeList → List MnEvent → Prop
  | list, [] => list.Verifiable texts verify
  | list, event :: events => list.Verifiable texts verify ∧ VerifiableRun (event.apply texts verify list) events

def FitsRun : MasternodeList → List MnEvent → Prop
  | _, [] => True
  | list, event :: events => event.Fits texts verify list ∧ FitsRun (event.apply texts verify list) events
end

variable {mnb : CMasternode}
section
variable {Digest : Type} {texts : MessageTexts Digest} {verify : Digest → (keyID vchSig : List UInt8) → Bool}
lemma checkSignature_version (mn) (once : VerifiesOnce verify) (signed : mnb.checkSignature texts verify = true) :
    { mnb with nMessVersion := mn.nMessVersion }.checkSignature texts verify = true ↔ SameVersion mn mnb := by
  constructor
  · intro still
    have both : SignsBoth texts verify mnb { mnb with nMessVersion := mn.nMessVersion } mnb.vchSig := ⟨signed, still⟩
    by_cases ver : mn.nMessVersion = MESS_VER_HASH
    · by_cases ver' : mnb.nMessVersion = MESS_VER_HASH
      · exact iff_of_true ver ver'
      · have apart : List.Disjoint ({ mnb with nMessVersion := mn.nMessVersion }.signedMessages texts) (mnb.signedMessages texts) :=
          signed_apart_of_version ver ver'
        exact absurd both (not_signsBoth_of_disjoint once rfl apart.symm)
    · by_cases ver' : mnb.nMessVersion = MESS_VER_HASH
      · have apart : List.Disjoint (mnb.signedMessages texts) ({ mnb with nMessVersion := mn.nMessVersion }.signedMessages texts) :=
          signed_apart_of_version ver' ver
        exact absurd both (not_signsBoth_of_disjoint once rfl apart)
      · exact iff_of_false ver ver'
  · intro same
    have msgs : { mnb with nMessVersion := mn.nMessVersion }.signedMessages texts = mnb.signedMessages texts := by
      unfold signedMessages
      by_cases ver : mnb.nMessVersion = MESS_VER_HASH
      · have own := (same.mpr ver).trans ver.symm
        rw [own]
      · rw [if_neg ver, if_neg fun other => ver (same.mp other)]
        rfl
    obtain ⟨msg, mem, good⟩ := checkSignature_iff.mp signed
    exact checkSignature_iff.mpr ⟨_, msgs ▸ mem, good⟩

variable {mn : CMasternode} (once : VerifiesOnce verify)
include once

lemma checkSignature_taken (signed : mnb.checkSignature texts verify = true) :
    (mn.takeBroadcast mnb).checkSignature texts verify = true ↔ SameVersion mn mnb := by
  rw [← checkSignature_version mn once signed]
  rfl

lemma checkSignature_reread (signed : mn.checkSignature texts verify = true) :
    mn.reread.checkSignature texts verify = true ↔ mn.nMessVersion = MESS_VER_HASH := by
  have ver := checkSignature_version mn.reread once signed
  exact ver.trans (iff_true_left rfl)
end

def CMasternode.announced (mn : CMasternode) : CTxIn × List UInt8 × CPubKey × CPubKey × List UInt8 × Int × Int × Int :=
  (mn.vin, mn.addr, mn.pubKeyCollateralAddress, mn.pubKeyMasternode, mn.vchSig, mn.nMessVersion, mn.sigTime, mn.protocolVersion)

lemma steadfast_announced : MasternodeList.Steadfast announced := by
  constructor
  · intro clock mn
    unfold CMasternode.check
    split_ifs <;> rfl
  · intro lastPing mn
    rfl

lemma checkSignature_announced {Digest : Type} {texts : MessageTexts Digest} {verify : Digest → (keyID vchSig : List UInt8) → Bool}
    {mn mn' : CMasternode} (same : mn.announced = mn'.announced) :
    mn.checkSignature texts verify = mn'.checkSignature texts verify := by
  obtain ⟨vin', addr', pubKeyCollateralAddress', pubKeyMasternode', vchSig', nMessVersion', activeState', sigTime', protocolVersion',
    lastPing'⟩ := mn'
  obtain ⟨rfl, rfl, rfl, rfl, rfl, rfl, rfl, rfl⟩ := same
  rfl

namespace MasternodeList
variable {list list' : MasternodeList} {pmn : Nat} {mn : CMasternode}
variable {Digest : Type} {texts : MessageTexts Digest} {verify : Digest → (keyID vchSig : List UInt8) → Bool}
lemma SameBy.verifiable_iff (same : SameBy announced list list') : list'.Verifiable texts verify ↔ list.Verifiable texts verify := by
  apply same.every_iff
  intro mn mn' equal
  rw [checkSignature_announced equal]

section
variable (once : VerifiesOnce verify) (verifiable : list.Verifiable texts verify) (signed : mnb.checkSignature texts verify = true)
include once verifiable signed

lemma Verifiable.take_iff (found : list.heap.lookup pmn = some mn) :
    (list.modify pmn (·.takeBroadcast mnb)).Verifiable texts verify ↔ (pmn ∈ list.vMasternodes → SameVersion mn mnb) := by
  unfold modify
  rw [found]
  constructor
  · intro taken mem
    apply (checkSignature_taken once signed).mp
    apply taken _
    exact entries_eq_some.mpr ⟨mem, AList.lookup_insert _⟩
  · intro same other mn' held
    obtain ⟨mem, other_found⟩ := entries_eq_some.mp held
    rw [AssocMap.lookup_insert_ite] at other_found
    split at other_found
    · next own =>
      cases other_found
      exact (checkSignature_taken once signed).mpr (same (own ▸ mem))
    · exact verifiable _ _ (entries_eq_some.mpr ⟨mem, other_found⟩)

lemma Verifiable.updateFromNewBroadcast_iff (context) (pmn : Nat) :
    (list.updateFromNewBroadcast context pmn mnb).Verifiable texts verify ↔
      ∀ mn, list.entries pmn = some mn → mn.sigTime < mnb.sigTime → SameVersion mn mnb := by
  cases found : list.heap.lookup _ with
  | none =>
    rw [updateFromNewBroadcast_absent _ found]
    apply iff_of_true verifiable
    intro mn held
    cases found.symm.trans (entries_eq_some.mp held).2
  | some mn =>
    by_cases newer : mn.sigTime < mnb.sigTime
    · have taken := (retouched_update context found newer).sameBy steadfast_announced
      rw [taken.verifiable_iff, verifiable.take_iff once signed found]
      constructor
      · intro same other held _
        obtain ⟨mem, other_found⟩ := entries_eq_some.mp held
        cases found.symm.trans other_found
        exact same mem
      · intro same mem
        exact same mn (entries_eq_some.mpr ⟨mem, found⟩) newer
    · rw [updateFromNewBroadcast_older _ found newer]
      apply iff_of_true verifiable
      intro other held newer'
      cases found.symm.trans (entries_eq_some.mp held).2
      exact absurd newer' newer
end

lemma signed_of_checkBroadcast {context : MnContext}
    (passed : list.checkBroadcast texts.getID (context.signing texts verify) mnb = true) :
    mnb.checkSignature texts verify = true := by
  unfold checkBroadcast at passed
  simp only [Bool.and_eq_true] at passed
  exact passed.1.2

section
variable (once : VerifiesOnce verify) (verifiable : list.Verifiable texts verify) (context : MnContext)
include once verifiable context

lemma Verifiable.checkAndUpdate_iff
    (mnb : CMasternode) : (list.checkAndUpdate texts.getID (context.signing texts verify) mnb).1.Verifiable texts verify ↔
      (MnEvent.checkAndUpdate context mnb).Fits texts verify list := by
  rcases checkAndUpdate_cases _ _ _ _ with ⟨pmn, mn, repl, res⟩ | ⟨none, res⟩
  · have chk : SameBy CMasternode.announced (list.updateFromNewBroadcast (context.signing texts verify) pmn mnb)
        ((list.updateFromNewBroadcast (context.signing texts verify) pmn mnb).modify pmn (·.check context.toMnClock)) :=
      SameBy.modify fun mn _ => steadfast_announced.check _ mn
    rw [res]
    change ((list.updateFromNewBroadcast ..).modify _ (·.check context.toMnClock)).Verifiable _ _ ↔ _
    rw [chk.verifiable_iff, verifiable.updateFromNewBroadcast_iff once (signed_of_checkBroadcast repl.passed)]
    constructor
    · intro same other mn' txIn held _ newer _ _ _
      cases repl.txIn.symm.trans txIn
      exact same _ held newer
    · intro same mn' held newer
      cases repl.found.symm.trans (entries_eq_some.mp held).2
      exact same _ mn repl.txIn held repl.passed newer repl.enabled repl.owner repl.due
  · rw [res]
    apply iff_of_true verifiable
    intro pmn mn txIn held passed newer enabled owner due
    exact absurd ⟨passed, txIn, (entries_eq_some.mp held).2, newer, enabled, owner, due⟩ (none _ mn)

lemma Verifiable.updateMasternodeList_iff (signed : mnb.checkSignature texts verify = true) :
    (list.updateMasternodeList texts.getID context mnb).Verifiable texts verify ↔
      (MnEvent.updateMasternodeList context mnb).Fits texts verify list := by
  unfold updateMasternodeList
  cases txIn : list.findTxIn _ with
  | none =>
    apply iff_of_true (Every.add verifiable fun _ => signed)
    intro pmn mn found
    cases txIn.symm.trans found
  | some pmn =>
    rw [verifiable.updateFromNewBroadcast_iff once signed]
    constructor
    · intro same other mn found held
      cases txIn.symm.trans found
      exact same mn held
    · intro same mn held
      exact same _ mn txIn held
end

lemma load_entries {getID} (listed : ScriptListed getID list) {kept}
    (holds : ∀ mn, mn ∈ kept ↔ ∃ pmn, list.entries pmn = some mn) (mns mn) :
    (∃ pmn, (load getID mns list).entries pmn = some mn) ↔ mn ∈ readBack getID kept mns := by
  induction mns generalizing list kept with
  | nil => exact (holds mn).symm
  | cons first mns ih =>
    unfold load readBack
    cases known : list.findScript _ with
    | some mnScript =>
      obtain ⟨owner, owned, same⟩ := (listed.scripts _ _).mp known
      rw [if_pos (mem_map.mpr ⟨_, (holds _).mpr ⟨_, owned⟩, same⟩)]
      rw [dropPointer_entries listed.nodup, mem_filter, holds]
      -- the script is the owner's only, so that the owner is the one that goes
      constructor
      · rintro ⟨pmn, held⟩
        by_cases own : pmn = mnScript
        · rw [own, update_self] at held
          cases held
        · rw [update_of_ne own] at held
          apply And.intro ⟨_, held⟩
          simp only [decide_eq_true_eq]
          intro payee
          exact own (Option.some.inj (((listed.scripts _ _).mpr ⟨mn, held, payee⟩).symm.trans known))
      · rintro ⟨⟨pmn, held⟩, payee⟩
        have own : pmn ≠ mnScript := by
          rintro rfl
          cases owned.symm.trans held
          simp [same] at payee
        exact ⟨_, by rw [update_of_ne own, held]⟩
    | none =>
      have unknown : first.payee getID ∉ kept.map (·.payee getID) := by
        intro mem
        obtain ⟨owner, kept_owner, same⟩ := mem_map.mp mem
        obtain ⟨pmn, held⟩ := (holds _).mp kept_owner
        cases known.symm.trans ((listed.scripts _ _).mpr ⟨_, held, same⟩)
      rw [if_neg unknown]
      apply ih (listed.push known)
      intro other
      rw [push_entries, mem_append, mem_singleton, holds]
      have fresh : list.entries list.newAddress = none := if_neg (new_notMem listed.live)
      constructor
      · rintro (⟨pmn, held⟩ | rfl)
        · have apart : pmn ≠ list.newAddress := by
            rintro rfl
            cases fresh.symm.trans held
          exact ⟨_, by rw [update_of_ne apart, held]⟩
        · exact ⟨_, update_self ..⟩
      · grind

lemma readBack_reread (getID : CPubKey → List UInt8) (mns kept) :
    readBack getID (kept.map reread) (mns.map reread) = (readBack getID kept mns).map reread := by
  have payee : (fun mn => mn.payee getID) ∘ reread = fun mn => mn.payee getID := rfl
  induction mns generalizing kept with
  | nil => rfl
  | cons mn mns ih =>
    unfold readBack
    rw [map_cons]
    dsimp only
    rw [map_map, apply_ite (List.map _), ← ih, filter_map, map_append]
    rfl

lemma readBack_subset {getID} (mns kept) (mem : mn ∈ readBack getID kept mns) :
    mn ∈ kept ∨ mn ∈ mns := by
  induction mns generalizing kept with
  | nil => exact .inl mem
  | cons first mns ih =>
    unfold readBack at mem
    split at mem
    · exact .inl (mem_filter.mp mem).1
    · rcases ih _ mem with pre | after
      · rcases mem_append.mp pre with old | new
        · exact .inl old
        · exact .inr (mem_cons.mpr (Or.inl (mem_singleton.mp new)))
      · exact .inr (mem_cons_of_mem _ after)

lemma mem_saved (held : mn ∈ list.saved) : ∃ pmn, list.entries pmn = some mn := by
  obtain ⟨pmn, mem, found⟩ := mem_filterMap.mp held
  exact ⟨_, entries_eq_some.mpr ⟨mem, found⟩⟩

lemma saveAndLoad_entries (getID : CPubKey → List UInt8) (list : MasternodeList) (mn) :
    (∃ pmn, (list.saveAndLoad getID).entries pmn = some mn) ↔ ∃ old ∈ readBack getID [] list.saved, old.reread = mn := by
  have nothing : ∀ mn, mn ∈ ([] : List CMasternode) ↔ ∃ pmn, empty.entries pmn = some mn := by
    intro mn
    apply iff_of_false not_mem_nil
    rintro ⟨pmn, held⟩
    cases held
  have start : ScriptListed getID empty := listed_empty.toScriptListed
  have loaded := load_entries start nothing (list.saved.map reread) mn
  have kept := readBack_reread getID list.saved []
  rw [map_nil] at kept
  rw [kept, mem_map] at loaded
  exact loaded

variable (once : VerifiesOnce verify) (verifiable : list.Verifiable texts verify)
include once verifiable

lemma Verifiable.saveAndLoad_iff :
    (list.saveAndLoad texts.getID).Verifiable texts verify ↔ MnEvent.saveAndLoad.Fits texts verify list := by
  have signed : ∀ mn ∈ readBack texts.getID [] list.saved, mn.checkSignature texts verify = true := by
    intro mn mem
    rcases readBack_subset _ _ mem with absent | file
    · cases absent
    · obtain ⟨pmn, held⟩ := mem_saved file
      exact verifiable _ mn held
  constructor
  · intro loaded mn mem
    obtain ⟨pmn, held⟩ := (saveAndLoad_entries ..).mpr ⟨mn, mem, rfl⟩
    exact (checkSignature_reread once (signed mn mem)).mp (loaded _ _ held)
  · intro fits pmn mn held
    obtain ⟨old, mem, rfl⟩ := (saveAndLoad_entries _ _ mn).mp ⟨_, held⟩
    exact (checkSignature_reread once (signed _ mem)).mpr (fits _ mem)

lemma Verifiable.apply_iff {event : MnEvent}
    (signed : event.Signed texts verify) :
    (event.apply texts verify list).Verifiable texts verify ↔ event.Fits texts verify list := by
  cases event with
  | checkAndUpdate context mnb => exact verifiable.checkAndUpdate_iff once _ _
  | checkInputsAndAdd context mnb => exact iff_of_true (Every.checkInputsAndAdd verifiable _ fun _ => signed) trivial
  | ping context mnp =>
    have pinged := (retouched_ping (context.signing texts verify) mnp true false list).sameBy steadfast_announced
    exact iff_of_true (pinged.verifiable_iff.mpr verifiable) trivial
  | updateMasternodeList context mnb => exact verifiable.updateMasternodeList_iff once _ signed
  | checkAndRemove clock forceExpiredRemoval =>
    have chk := ((retouched_check clock _).sameBy steadfast_announced).verifiable_iff.mpr verifiable
    exact iff_of_true (Every.deleteRemovable _ _ chk) trivial
  | saveAndLoad => exact verifiable.saveAndLoad_iff once

lemma Verifiable.run_iff (events : List MnEvent)
    (signed : ∀ event ∈ events, event.Signed texts verify) :
    VerifiableRun texts verify list events ↔ FitsRun texts verify list events := by
  induction events generalizing list with
  | nil => exact iff_of_true verifiable trivial
  | cons event events ih =>
    have step := verifiable.apply_iff once (signed _ mem_cons_self)
    have rest : ∀ other ∈ events, other.Signed texts verify := (forall_mem_cons.mp signed).2
    constructor
    · rintro ⟨-, run⟩
      have next : (event.apply texts verify list).Verifiable texts verify := by
        cases events with
        | nil => exact run
        | cons => exact run.1
      exact ⟨step.mp next, (ih next rest).mp run⟩
    · rintro ⟨fits, run⟩
      exact ⟨verifiable, (ih (step.mpr fits) rest).mpr run⟩

end MasternodeList

open MasternodeList in
/-- Updates keep the message version, and only masternodes of the hash version are read back. -/
theorem masternodes_verifiable_iff {Digest : Type} (texts : MessageTexts Digest)
    (verify : Digest → (keyID vchSig : List UInt8) → Bool)
    (once : VerifiesOnce verify) (events : List MnEvent) (signed : ∀ event ∈ events, event.Signed texts verify) :
    VerifiableRun texts verify empty events ↔ FitsRun texts verify empty events := by
  have none : empty.Verifiable texts verify := every_empty
  exact none.run_iff once events signed

def mnContext : MnContext where
  adjustedTime := 1700000000
  shutdownRequested := false
  checkPingSignature _ _ := true
  isRecentBlock _ := true
  checkSignature _ := true
  isDefaultPort _ := true
  isInputAssociatedWithPubkey _ := true
  isActiveMasternode _ := false
  acceptsInputs _ := true

def signedMn (nMessVersion : Int) : CMasternode :=
  { announcement 0 with
    pubKeyCollateralAddress := List.replicate 20 5, pubKeyMasternode := List.replicate 20 6, vchSig := [1],
    nMessVersion := nMessVersion }

def acceptAndRestart (mnb : CMasternode) : List MnEvent :=
  [.checkAndUpdate mnContext mnb, .checkInputsAndAdd mnContext mnb, .saveAndLoad]

lemma checkAndUpdate_empty {getID context} : (empty.checkAndUpdate getID context mnb).1 = empty := by
  unfold checkAndUpdate
  split
  · rfl
  · rfl

lemma exists_signing (nMessVersion : Int) : ∃ verify, VerifiesOnce verify ∧
    (signedMn nMessVersion).checkSignature plainTexts verify = true := by
  obtain ⟨msg, mem⟩ := exists_signed _ (signedMn _)
  obtain ⟨verify, once, signed, -⟩ := exists_signsBoth mem mem (fun _ => rfl) _
  exact ⟨_, once, signed⟩

theorem hash_version_verifiable : ∃ verify, VerifiesOnce verify ∧ (signedMn MESS_VER_HASH).checkSignature plainTexts verify = true ∧
    VerifiableRun plainTexts verify empty (acceptAndRestart (signedMn MESS_VER_HASH)) := by
  obtain ⟨verify, once, signed⟩ := exists_signing MESS_VER_HASH
  refine ⟨verify, once, signed, (masternodes_verifiable_iff plainTexts verify once _ ?_).mpr ⟨?_, trivial, ?_, trivial⟩⟩
  · intro event member
    simp only [acceptAndRestart, mem_cons, not_mem_nil, or_false] at member
    rcases member with rfl | rfl | rfl
    · trivial
    · exact signed
    · trivial
  · intro pmn mn found
    cases found
  · change ∀ mn ∈ readBack _ _ (checkInputsAndAdd _ (checkAndUpdate ..).1 _ _).saved, _
    rw [checkAndUpdate_empty]
    intro mn member
    cases mem_singleton.mp member
    rfl

/-- An accepted broadcast of the text version is rebuilt under the hash version, and its signature fails. -/
theorem text_version_fails : ∃ verify, VerifiesOnce verify ∧
    (empty.checkAndUpdate plainTexts.getID (mnContext.signing plainTexts verify) (signedMn MESS_VER_STRMESS)).2 = true ∧
      ∃ mn, ((acceptAndRestart (signedMn MESS_VER_STRMESS)).foldl (MnEvent.apply plainTexts verify) empty).entries 1 = some mn ∧
        mn.checkSignature plainTexts verify = false := by
  obtain ⟨verify, once, signed⟩ := exists_signing MESS_VER_STRMESS
  refine ⟨verify, once, ?_, (signedMn MESS_VER_STRMESS).reread, ?_, ?_⟩
  · have passed : empty.checkBroadcast plainTexts.getID (mnContext.signing plainTexts verify) (signedMn MESS_VER_STRMESS) =
        (signedMn MESS_VER_STRMESS).checkSignature plainTexts verify := Bool.and_true _
    unfold checkAndUpdate
    rw [passed, signed]
    rfl
  · change (saveAndLoad _ (checkInputsAndAdd _ (checkAndUpdate ..).1 _ _)).entries 1 = _
    rw [checkAndUpdate_empty]
    rfl
  · apply Bool.eq_false_iff.mpr
    intro good
    exact absurd ((checkSignature_reread once signed).mp good) (by decide)

end Peony
