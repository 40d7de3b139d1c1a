import Mathlib.Logic.Encodable.Basic
import Mathlib.Logic.Equiv.List
import Peony.Masternode.Registry
import Peony.Spork.Manager

namespace Peony
open List CMasternode

inductive HashItem where
  | number (n : Int)
  | bytes (b : List UInt8)
  deriving DecidableEq

structure HashWriter (Digest : Type) where
  getHash : List HashItem → Digest
  getHash_injective : Function.Injective getHash

def charColon : UInt8 := 58

/-- The hash with the texts of hashes, keys and addresses. A text is a `std::string`. -/
structure MessageTexts (Digest : Type) extends HashWriter Digest where
  getHex : Digest → List UInt8
  getID : CPubKey → List UInt8
  idToString : List UInt8 → List UInt8
  addrToString : List UInt8 → List UInt8
  getHex_injective : Function.Injective getHex
  getID_injective : Function.Injective getID
  colon_notMem_hex : ∀ digest, charColon ∉ getHex digest
  colon_mem_addr : ∀ addr, charColon ∈ addrToString addr

def asciiBytes (text : String) : List UInt8 := text.toList.map fun c => UInt8.ofNat c.toNat
def strMessageMagic : List UInt8 := asciiBytes "DarkNet Signed Message:\n"

section
variable {Digest : Type} (texts : MessageTexts Digest) (verify : Digest → (keyID vchSig : List UInt8) → Bool)
def getMessageHash (strMessage : List UInt8) : Digest := texts.getHash [.bytes strMessageMagic, .bytes strMessage]

def verifyMessage (pubkey : CPubKey) (vchSig strMessage : List UInt8) : Bool :=
  verify (getMessageHash texts strMessage) (texts.getID pubkey) vchSig

lemma getMessageHash_injective : Function.Injective (getMessageHash texts) := by
  intro first second same
  have items := texts.getHash_injective same
  simpa using items
end

namespace CMasternode
variable {Digest : Type} (texts : MessageTexts Digest) (verify : Digest → (keyID vchSig : List UInt8) → Bool) (mn : CMasternode)
def getSignatureHash : Digest :=
  texts.getHash [.number mn.nMessVersion, .bytes mn.addr, .number mn.sigTime, .bytes mn.pubKeyCollateralAddress,
    .bytes mn.pubKeyMasternode, .number mn.protocolVersion]

def getStrMessage : List UInt8 :=
  texts.addrToString mn.addr ++ asciiBytes (toString mn.sigTime) ++ texts.idToString (texts.getID mn.pubKeyCollateralAddress) ++
    texts.idToString (texts.getID mn.pubKeyMasternode) ++ asciiBytes (toString mn.protocolVersion)

def getOldStrMessage : List UInt8 :=
  texts.addrToString mn.addr ++ asciiBytes (toString mn.sigTime) ++ mn.pubKeyCollateralAddress ++ mn.pubKeyMasternode ++
    asciiBytes (toString mn.protocolVersion)

def checkSignature : Bool :=
  let strMessage := if mn.nMessVersion = MESS_VER_HASH then texts.getHex (mn.getSignatureHash texts) else mn.getStrMessage texts
  let oldStrMessage := if mn.nMessVersion = MESS_VER_HASH then texts.getHex (mn.getSignatureHash texts) else mn.getOldStrMessage texts
  verifyMessage texts verify mn.pubKeyCollateralAddress mn.vchSig oldStrMessage ||
    verifyMessage texts verify mn.pubKeyCollateralAddress mn.vchSig strMessage

def broadcastHash {Digest : Type} (writer : HashWriter Digest) (mn : CMasternode) : Digest :=
  writer.getHash [.number mn.sigTime, .bytes mn.pubKeyCollateralAddress]

def signedMessages {Digest : Type} (texts : MessageTexts Digest) (mn : CMasternode) : List (List UInt8) :=
  if mn.nMessVersion = MESS_VER_HASH then [texts.getHex (mn.getSignatureHash texts)]
  else [mn.getOldStrMessage texts, mn.getStrMessage texts]

variable {Digest : Type} {texts : MessageTexts Digest} {verify : Digest → (keyID vchSig : List UInt8) → Bool} {mn other : CMasternode}
lemma checkSignature_iff : mn.checkSignature texts verify = true ↔
      ∃ msg ∈ mn.signedMessages texts, verifyMessage texts verify mn.pubKeyCollateralAddress mn.vchSig msg = true := by
  grind [checkSignature, signedMessages]

lemma colon_mem_signed (version : mn.nMessVersion ≠ MESS_VER_HASH) {msg} (mem : msg ∈ mn.signedMessages texts) :
    charColon ∈ msg := by
  have colon := texts.colon_mem_addr mn.addr
  rw [signedMessages, if_neg version] at mem
  rcases mem_pair.mp mem with rfl | rfl
  · simp [getOldStrMessage, colon]
  · simp [getStrMessage, colon]

section
variable (version : mn.nMessVersion = MESS_VER_HASH)
include version

lemma eq_hex_of_mem {msg} (mem : msg ∈ mn.signedMessages texts) :
    msg = texts.getHex (mn.getSignatureHash texts) := by
  rw [signedMessages, if_pos version] at mem
  exact mem_singleton.mp mem

lemma signed_apart_of_version (other_version : other.nMessVersion ≠ MESS_VER_HASH) :
    List.Disjoint (mn.signedMessages texts) (other.signedMessages texts) := by
  intro msg mem shared
  have colon := colon_mem_signed other_version shared
  rw [eq_hex_of_mem version mem] at colon
  exact texts.colon_notMem_hex _ colon

lemma signed_apart_of_time (other_version : other.nMessVersion = MESS_VER_HASH)
    (times : mn.sigTime ≠ other.sigTime) : List.Disjoint (mn.signedMessages texts) (other.signedMessages texts) := by
  intro msg mem shared
  rw [eq_hex_of_mem version mem] at shared
  have items := texts.getHash_injective (texts.getHex_injective (eq_hex_of_mem other_version shared))
  simp only [List.cons.injEq, HashItem.number.injEq] at items
  exact times items.2.2.1
end

lemma broadcastHash_eq_iff (writer : HashWriter Digest) : mn.broadcastHash writer = other.broadcastHash writer ↔
      mn.sigTime = other.sigTime ∧ mn.pubKeyCollateralAddress = other.pubKeyCollateralAddress := by
  simp [broadcastHash, writer.getHash_injective.eq_iff]

end CMasternode

def VerifiesOnce {Digest : Type} (verify : Digest → (keyID vchSig : List UInt8) → Bool) : Prop :=
  ∀ hash hash' keyID vchSig, verify hash keyID vchSig = true → verify hash' keyID vchSig = true → hash = hash'

variable {Digest : Type} (texts : MessageTexts Digest)
def SignsBoth (verify : Digest → (keyID vchSig : List UInt8) → Bool) (first second : CMasternode) (vchSig : List UInt8) : Prop :=
  { first with vchSig := vchSig }.checkSignature texts verify = true ∧
    { second with vchSig := vchSig }.checkSignature texts verify = true

/-- Under any scheme they share neither a signature nor their inventory hash. -/
def ToldApart (first second : CMasternode) : Prop :=
  ∀ verify, VerifiesOnce verify → (∀ vchSig, ¬ SignsBoth texts verify first second vchSig) ∧
    first.broadcastHash texts.toHashWriter ≠ second.broadcastHash texts.toHashWriter

section
variable {Digest : Type} {texts : MessageTexts Digest} {verify : Digest → (keyID vchSig : List UInt8) → Bool}
  {first second : CMasternode}
  {vchSig : List UInt8}

lemma signsBoth_iff : SignsBoth texts verify first second vchSig ↔
      (∃ msg ∈ first.signedMessages texts, verifyMessage texts verify first.pubKeyCollateralAddress vchSig msg = true) ∧
        ∃ msg ∈ second.signedMessages texts, verifyMessage texts verify second.pubKeyCollateralAddress vchSig msg = true := by
  unfold SignsBoth
  rw [checkSignature_iff, checkSignature_iff]
  rfl

lemma not_signsBoth_of_disjoint (once : VerifiesOnce verify) (keys : first.pubKeyCollateralAddress = second.pubKeyCollateralAddress)
    (apart : List.Disjoint (first.signedMessages texts) (second.signedMessages texts)) :
    ¬ SignsBoth texts verify first second vchSig := by
  intro both
  obtain ⟨⟨msg, mem, good⟩, msg', mem', good'⟩ := signsBoth_iff.mp both
  rw [← keys] at good'
  have same := getMessageHash_injective _ (once _ _ _ _ good good')
  exact apart mem (same ▸ mem')

lemma exists_signsBoth {msg msg'} (mem : msg ∈ first.signedMessages texts)
    (mem' : msg' ∈ second.signedMessages texts)
    (single : first.pubKeyCollateralAddress = second.pubKeyCollateralAddress → msg = msg') (vchSig) :
    ∃ verify, VerifiesOnce verify ∧ SignsBoth texts verify first second vchSig := by
  classical
  refine ⟨fun hash keyID _ => decide (hash = getMessageHash texts msg ∧ keyID = texts.getID first.pubKeyCollateralAddress ∨
    hash = getMessageHash texts msg' ∧ keyID = texts.getID second.pubKeyCollateralAddress), ?_, ?_⟩
  · intro hash hash' keyID vchSig good good'
    rcases of_decide_eq_true good with ⟨rfl, rfl⟩ | ⟨rfl, rfl⟩
    · rcases of_decide_eq_true good' with ⟨rfl, -⟩ | ⟨rfl, keys⟩
      · rfl
      · rw [single (texts.getID_injective keys)]
    · rcases of_decide_eq_true good' with ⟨rfl, keys⟩ | ⟨rfl, -⟩
      · rw [single (texts.getID_injective keys).symm]
      · rfl
  · apply signsBoth_iff.mpr
    exact ⟨⟨_, mem, decide_eq_true (Or.inl ⟨rfl, rfl⟩)⟩, _, mem', decide_eq_true (Or.inr ⟨rfl, rfl⟩)⟩

lemma exists_signed (texts : MessageTexts Digest) (mn : CMasternode) : ∃ msg, msg ∈ mn.signedMessages texts := by
  unfold signedMessages
  split
  · simp
  · simp

lemma verifiesOnce_never : VerifiesOnce fun (_ : Digest) _ _ => false := by
  intro hash hash' keyID vchSig good
  cases good

/-- One collateral key, different times, and no text in common where both have the text version. -/
theorem broadcasts_toldApart_iff (texts : MessageTexts Digest) (first second : CMasternode) : (ToldApart texts first second ↔
      first.pubKeyCollateralAddress = second.pubKeyCollateralAddress ∧ first.sigTime ≠ second.sigTime ∧
        (first.nMessVersion ≠ MESS_VER_HASH → second.nMessVersion ≠ MESS_VER_HASH →
          List.Disjoint [first.getOldStrMessage texts, first.getStrMessage texts]
            [second.getOldStrMessage texts, second.getStrMessage texts])) ∧
      (first.pubKeyCollateralAddress ≠ second.pubKeyCollateralAddress →
        first.broadcastHash texts.toHashWriter ≠ second.broadcastHash texts.toHashWriter ∧
          ∀ verify, (∀ hash hash' keyID keyID' vchSig, verify hash keyID vchSig = true → verify hash' keyID' vchSig = true →
            keyID = keyID') →
            ∀ vchSig, ¬ SignsBoth texts verify first second vchSig) := by
  constructor
  · constructor
    · intro told
      obtain ⟨message, member⟩ := exists_signed _ _
      obtain ⟨message', member'⟩ := exists_signed _ _
      have keys : first.pubKeyCollateralAddress = second.pubKeyCollateralAddress := by
        by_contra differ
        obtain ⟨verify, once, both⟩ := exists_signsBoth member member' (fun same => absurd same differ) []
        exact (told _ once).1 [] both
      refine ⟨keys, ?_, ?_⟩
      · intro times
        exact (told _ verifiesOnce_never).2 ((broadcastHash_eq_iff _).mpr ⟨times, keys⟩)
      · intro version version' text shared shared'
        have inFirst : text ∈ first.signedMessages texts := by rwa [signedMessages, if_neg version]
        have inSecond : text ∈ second.signedMessages texts := by rwa [signedMessages, if_neg version']
        obtain ⟨verify, once, both⟩ := exists_signsBoth inFirst inSecond (fun _ => rfl) []
        exact (told _ once).1 [] both
    · rintro ⟨keys, times, old⟩ verify once
      constructor
      · intro vchSig
        apply not_signsBoth_of_disjoint once keys
        by_cases version : first.nMessVersion = MESS_VER_HASH
        · by_cases version' : second.nMessVersion = MESS_VER_HASH
          · exact signed_apart_of_time version version' times
          · exact signed_apart_of_version version version'
        · by_cases version' : second.nMessVersion = MESS_VER_HASH
          · exact (signed_apart_of_version version' version).symm
          · rw [signedMessages, signedMessages, if_neg version, if_neg version']
            exact old version version'
      · intro same
        exact times ((broadcastHash_eq_iff _).mp same).1
  · intro differ
    constructor
    · intro same
      exact differ ((broadcastHash_eq_iff _).mp same).2
    · intro verify oneKey vchSig both
      obtain ⟨⟨message, -, good⟩, message', -, good'⟩ := signsBoth_iff.mp both
      exact differ (texts.getID_injective (oneKey _ _ _ _ _ good good'))
end

/-! An instance: a digest is what was hashed, and its text counts it. -/

def HashItem.code : HashItem → Int ⊕ List Nat
  | .number n => .inl n
  | .bytes b => .inr (b.map UInt8.toNat)

def HashItem.ofCode : Int ⊕ List Nat → HashItem
  | .inl n => .number n
  | .inr b => .bytes (b.map UInt8.ofNat)

lemma HashItem.ofCode_code (item) : HashItem.ofCode item.code = item := by
  cases item with
  | number n => rfl
  | bytes b =>
    have bytewise : UInt8.ofNat ∘ UInt8.toNat = id := by
      funext byte
      exact UInt8.ofNat_toNat
    rw [code, ofCode, map_map, bytewise, map_id]

instance : Encodable HashItem := Encodable.ofLeftInverse HashItem.code HashItem.ofCode HashItem.ofCode_code

def plainTexts : MessageTexts (List HashItem) where
  getHash := id
  getHash_injective := Function.injective_id
  getHex digest := List.replicate (Encodable.encode digest) 48
  getID := id
  idToString := id
  addrToString addr := addr ++ [charColon]
  getHex_injective := by
    intro first second same
    have lengths := congrArg List.length same
    rw [length_replicate, length_replicate] at lengths
    exact Encodable.encode_injective lengths
  getID_injective := Function.injective_id
  colon_notMem_hex := by
    intro digest member
    cases eq_of_mem_replicate member
  colon_mem_addr addr := mem_append_right _ (mem_singleton_self _)

def announcement (n : Nat) : CMasternode where
  vin := ⟨⟨1, n⟩, [], 0xffffffff⟩
  addr := [127, 0, 0, 1]
  pubKeyCollateralAddress := [2, 5]
  pubKeyMasternode := [2, 6]
  vchSig := []
  nMessVersion := MESS_VER_HASH
  activeState := .enabled
  sigTime := 1700000000
  protocolVersion := 70220
  lastPing := ⟨⟨⟨1, n⟩, [], 0xffffffff⟩, 7, 1700000000, [], MESS_VER_HASH⟩

/-- Another collateral has the same signature and the same inventory hash. -/
theorem announcement_signs_other_collateral : (announcement 0).vin.prevout ≠ (announcement 1).vin.prevout ∧
      (announcement 0).broadcastHash plainTexts.toHashWriter = (announcement 1).broadcastHash plainTexts.toHashWriter ∧
      ∃ verify, VerifiesOnce verify ∧ SignsBoth plainTexts verify (announcement 0) (announcement 1) [1] := by
  have same : (announcement 1).signedMessages plainTexts = (announcement 0).signedMessages plainTexts := rfl
  obtain ⟨message, member⟩ := exists_signed plainTexts (announcement 0)
  exact ⟨by decide, rfl, exists_signsBoth member (same ▸ member) (fun _ => rfl) [1]⟩

end Peony
