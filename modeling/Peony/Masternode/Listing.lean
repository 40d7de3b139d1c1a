import Peony.Masternode.Registry

namespace Peony
open Function List CMasternode Option KeyedBy AList

namespace MasternodeList

section
def entries (list : MasternodeList) : Nat → Option CMasternode :=
  fun pmn => if pmn ∈ list.vMasternodes then list.heap.lookup pmn else none

structure ScriptListed (getID : CPubKey → List UInt8) (list : MasternodeList) : Prop where
  live : ∀ pmn ∈ list.vMasternodes, (list.heap.lookup pmn).isSome = true
  nodup : list.vMasternodes.Nodup
  scripts : KeyedBy (payee getID) list.entries list.findScript

/-- Each map finds exactly the masternodes of the vector, under their current keys. -/
structure Listed (getID : CPubKey → List UInt8) (list : MasternodeList) : Prop extends ScriptListed getID list where
  txIns : KeyedBy vin list.entries list.findTxIn
  pubKeys : KeyedBy pubKeyMasternode list.entries list.findPubKey

variable {getID : CPubKey → List UInt8} {list : MasternodeList} {pmn : Nat} {mn : CMasternode}
lemma newAddress_fresh (list : MasternodeList) : list.heap.lookup list.newAddress = none := by
  have bound : ∀ (keys : List Nat) (k : Nat), k ∈ keys → k ≤ keys.foldr max 0 := by
    intro keys
    induction keys with
    | nil => simp
    | cons key keys ih => grind
  apply lookup_eq_none.mpr
  intro mem
  have low := bound _ _ mem
  unfold newAddress at low
  omega

lemma new_notMem (live : ∀ pmn ∈ list.vMasternodes, (list.heap.lookup pmn).isSome = true) : list.newAddress ∉ list.vMasternodes := by
  intro mem
  have held := live _ mem
  rw [newAddress_fresh] at held
  cases held

lemma entries_eq_some : list.entries pmn = some mn ↔ pmn ∈ list.vMasternodes ∧ list.heap.lookup pmn = some mn := by simp [entries]
lemma push_entries : (list.push getID mn).entries = update list.entries list.newAddress (some mn) := by
  funext other
  unfold entries push
  by_cases own : other = list.newAddress
  · rw [own, update_self, if_pos (by simp), lookup_insert]
  · simp [own]

lemma dropPointer_entries (nodup : list.vMasternodes.Nodup) : (list.dropPointer pmn).entries = update list.entries pmn none := by
  funext other
  unfold entries dropPointer
  by_cases own : other = pmn
  · rw [own, update_self, if_neg nodup.not_mem_erase]
  · rw [update_of_ne own]
    simp [mem_erase_of_ne own]

lemma delete_entries (nodup : list.vMasternodes.Nodup) : (list.delete getID pmn mn).entries = update list.entries pmn none := by
  funext other
  unfold entries delete
  by_cases own : other = pmn
  · rw [own, update_self, if_neg nodup.not_mem_erase]
  · rw [update_of_ne own, lookup_erase_ne own]
    simp [mem_erase_of_ne own]

lemma modify_entries {f} (held : list.entries pmn = some mn) :
    (list.modify pmn f).entries = update list.entries pmn (some (f mn)) := by
  obtain ⟨mem, found⟩ := entries_eq_some.mp held
  unfold modify
  rw [found]
  funext other
  unfold entries
  by_cases own : other = pmn
  · rw [own, update_self, if_pos mem, lookup_insert]
  · rw [update_of_ne own, lookup_insert_ne own]

variable {getID : CPubKey → List UInt8} {list : MasternodeList} {pmn : Nat} {mn : CMasternode}
structure Unknown (getID : CPubKey → List UInt8) (list : MasternodeList) (mn : CMasternode) : Prop where
  script : list.findScript (mn.payee getID) = none
  txIn : list.findTxIn mn.vin = none
  pubKey : list.findPubKey mn.pubKeyMasternode = none

lemma push_keyed_iff {κ : Type} [DecidableEq κ] {key : CMasternode → κ} {index : AssocMap κ Nat}
    (live : ∀ pmn ∈ list.vMasternodes, (list.heap.lookup pmn).isSome = true)
    (keyed : KeyedBy key list.entries fun k => index.lookup k) :
    KeyedBy key (list.push getID mn).entries (fun k => (index.insert (key mn) list.newAddress).lookup k) ↔
      index.lookup (key mn) = none := by
  have fresh : list.entries list.newAddress = none := if_neg (new_notMem live)
  rw [push_entries, AssocMap.lookup_insert_eq_update]
  exact keyed.insert_iff fresh

lemma ScriptListed.push (listed : ScriptListed getID list) (unknown : list.findScript (mn.payee getID) = none) :
    ScriptListed getID (list.push getID mn) := by
  constructor
  · intro other mem
    unfold MasternodeList.push at mem ⊢
    rw [AssocMap.lookup_insert_ite]
    split
    · rfl
    · rcases mem_append.mp mem with mem | new
      · exact listed.live _ mem
      · grind
  · apply listed.nodup.append (nodup_singleton _)
    rw [disjoint_singleton]
    exact new_notMem listed.live
  · exact (push_keyed_iff listed.live listed.scripts).mpr unknown

lemma Listed.push_iff (listed : Listed getID list) : Listed getID (list.push getID mn) ↔ Unknown getID list mn := by
  constructor
  · intro pushed
    exact ⟨(push_keyed_iff listed.live listed.scripts).mp pushed.scripts, (push_keyed_iff listed.live listed.txIns).mp pushed.txIns,
      (push_keyed_iff listed.live listed.pubKeys).mp pushed.pubKeys⟩
  · intro unknown
    exact ⟨listed.toScriptListed.push unknown.script, (push_keyed_iff listed.live listed.txIns).mpr unknown.txIn,
      (push_keyed_iff listed.live listed.pubKeys).mpr unknown.pubKey⟩

lemma ScriptListed.not_dropPointer (listed : ScriptListed getID list) {payee} (found : list.findScript payee = some pmn) :
    ¬ Listed getID (list.dropPointer pmn) := by
  intro cut
  obtain ⟨mn, held, -⟩ := (listed.scripts _ _).mp found
  have keyed := cut.scripts
  rw [dropPointer_entries listed.nodup] at keyed
  exact listed.scripts.not_drop held keyed

lemma delete_keyed {κ : Type} [DecidableEq κ] {key : CMasternode → κ} {index : AssocMap κ Nat} (nodup : list.vMasternodes.Nodup)
    (held : list.entries pmn = some mn) (keyed : KeyedBy key list.entries fun k => index.lookup k) :
    KeyedBy key (list.delete getID pmn mn).entries fun k => (index.erase (key mn)).lookup k := by
  rw [delete_entries nodup, AssocMap.lookup_erase_eq_update]
  exact keyed.erase held

lemma Listed.delete (listed : Listed getID list) (held : list.entries pmn = some mn) : Listed getID (list.delete getID pmn mn) := by
  constructor
  · constructor
    · intro other mem
      have apart := (listed.nodup.mem_erase_iff).mp mem
      unfold MasternodeList.delete
      rw [lookup_erase_ne apart.1]
      exact listed.live _ apart.2
    · exact listed.nodup.erase _
    · exact delete_keyed listed.nodup held listed.scripts
  · exact delete_keyed listed.nodup held listed.txIns
  · exact delete_keyed listed.nodup held listed.pubKeys

variable {list list' list'' : MasternodeList} {pmn : Nat} {mn mn' : CMasternode} {κ : Type} {key : CMasternode → κ}
inductive Touched (mn : CMasternode) : CMasternode → Prop
  | same : Touched mn mn
  | checked {mn' : CMasternode} (clock : MnClock) : Touched mn mn' → Touched mn (mn'.check clock)
  | pinged {mn' : CMasternode} (lastPing : CMasternodePing) : Touched mn mn' → Touched mn { mn' with lastPing := lastPing }

structure Steadfast (key : CMasternode → κ) : Prop where
  check : ∀ clock mn, key (mn.check clock) = key mn
  ping : ∀ lastPing mn, key { mn with lastPing := lastPing } = key mn

lemma Touched.key_eq (steadfast : Steadfast key) (touched : Touched mn mn') : key mn' = key mn := by
  induction touched with
  | same => rfl
  | checked clock _ ih => rw [steadfast.check, ih]
  | pinged lastPing _ ih => rw [steadfast.ping, ih]

inductive Retouched (list : MasternodeList) : MasternodeList → Prop
  | refl : Retouched list list
  | modify {list' : MasternodeList} {f : CMasternode → CMasternode} (pmn : Nat) : Retouched list list' →
    (∀ mn, list'.heap.lookup pmn = some mn → Touched mn (f mn)) → Retouched list (list'.modify pmn f)

lemma Retouched.trans (first : Retouched list list') (snd : Retouched list' list'') : Retouched list list'' := by
  induction snd with
  | refl => exact first
  | modify pmn _ touches ih => exact ih.modify _ touches

lemma retouched_check (clock list) : Retouched list (list.check clock) := by
  have loop : ∀ (pmns : List Nat) (list : MasternodeList),
      Retouched list (pmns.foldl (fun list pmn => list.modify pmn (·.check clock)) list) := by
    intro pmns
    induction pmns with
    | nil => exact fun list => .refl
    | cons pmn pmns ih =>
      intro list
      have first : Retouched list (list.modify pmn (·.check clock)) := Retouched.refl.modify _ fun mn _ => Touched.same.checked _
      exact first.trans (ih _)
  exact loop _ _

lemma retouched_ping (ctx ping) (fRequireEnabled fCheckSigTimeOnly : Bool) (list) :
    Retouched list (list.pingCheckAndUpdate ctx ping fRequireEnabled fCheckSigTimeOnly).1 := by
  unfold pingCheckAndUpdate
  cases txIn : list.findTxIn _ with
  | none => split_ifs <;> exact .refl
  | some pmn =>
    dsimp only
    cases found : list.heap.lookup _ with
    | none => split_ifs <;> exact .refl
    | some mn =>
      dsimp only
      split_ifs
      iterate 6 exact .refl
      apply Retouched.refl.modify
      intro other other_found
      rw [found] at other_found
      cases other_found
      exact (Touched.same.pinged _).checked _

lemma retouched_update {mnb} (ctx) (found : list.heap.lookup pmn = some mn)
    (newer : mn.sigTime < mnb.sigTime) :
    Retouched (list.modify pmn (·.takeBroadcast mnb)) (list.updateFromNewBroadcast ctx pmn mnb) := by
  unfold updateFromNewBroadcast
  rw [found]
  dsimp only
  rw [if_pos newer]
  have pinged := retouched_ping ctx mnb.lastPing false false (list.modify pmn (·.takeBroadcast mnb))
  split
  · exact Retouched.refl.modify _ fun mn _ => Touched.same.pinged _
  · split <;> rename_i equal <;> rw [equal] at pinged
    · exact pinged.modify _ fun mn _ => Touched.same.pinged _
    · exact pinged

variable {getID : CPubKey → List UInt8} {list list' : MasternodeList} {pmn : Nat} {mn : CMasternode}
structure SameKeys (getID : CPubKey → List UInt8) (list list' : MasternodeList) : Prop where
  vector : list'.vMasternodes = list.vMasternodes
  findScript : list'.findScript = list.findScript
  findTxIn : list'.findTxIn = list.findTxIn
  findPubKey : list'.findPubKey = list.findPubKey
  keys : ∀ pmn, (list'.heap.lookup pmn).map (keys getID) = (list.heap.lookup pmn).map (keys getID)

lemma SameKeys.refl (list) : SameKeys getID list list := ⟨rfl, rfl, rfl, rfl, fun _ => rfl⟩

lemma SameKeys.trans {list''} (first : SameKeys getID list list') (snd : SameKeys getID list' list'') :
    SameKeys getID list list'' :=
  ⟨snd.vector.trans first.vector, snd.findScript.trans first.findScript, snd.findTxIn.trans first.findTxIn,
    snd.findPubKey.trans first.findPubKey, fun _ => (snd.keys _).trans (first.keys _)⟩

section
variable (same : SameKeys getID list list')
include same

lemma SameKeys.entries_keys {κ : Type} (part : CScript × CTxIn × CPubKey → κ) (pmn : Nat) :
    (list'.entries pmn).map (fun mn => part (mn.keys getID)) = (list.entries pmn).map fun mn => part (mn.keys getID) := by
  unfold entries
  rw [same.vector]
  split
  · have keys := congrArg (Option.map part) (same.keys pmn)
    rw [Option.map_map, Option.map_map] at keys
    exact keys
  · rfl

lemma SameKeys.listed (listed : Listed getID list) : Listed getID list' := by
  constructor
  · constructor
    · intro pmn mem
      rw [same.vector] at mem
      have keys := congrArg isSome (same.keys pmn)
      rw [isSome_map, isSome_map] at keys
      rw [keys]
      exact listed.live _ mem
    · rw [same.vector]
      exact listed.nodup
    · rw [same.findScript]
      exact (congr_keys (same.entries_keys (·.1))).mpr listed.scripts
  · rw [same.findTxIn]
    exact (congr_keys (same.entries_keys (·.2.1))).mpr listed.txIns
  · rw [same.findPubKey]
    exact (congr_keys (same.entries_keys (·.2.2))).mpr listed.pubKeys

lemma SameKeys.listed_iff : Listed getID list' ↔ Listed getID list := by
  have back : SameKeys getID list' list :=
    ⟨same.vector.symm, same.findScript.symm, same.findTxIn.symm, same.findPubKey.symm, fun pmn => (same.keys _).symm⟩
  exact ⟨back.listed, same.listed⟩
end

lemma SameKeys.modify {f}
    (keeps : ∀ mn, list.heap.lookup pmn = some mn → (f mn).keys getID = mn.keys getID) : SameKeys getID list (list.modify pmn f) := by
  unfold MasternodeList.modify
  cases found : list.heap.lookup _ with
  | none => exact SameKeys.refl _
  | some mn =>
    have keys : ∀ other, ((list.heap.insert pmn (f mn)).lookup other).map (CMasternode.keys getID) =
        (list.heap.lookup other).map (CMasternode.keys getID) := by
      intro other
      rw [AssocMap.lookup_insert_ite]
      split
      · rename_i own
        rw [own, found]
        exact congrArg some (keeps mn found)
      · rfl
    exact ⟨rfl, rfl, rfl, rfl, keys⟩

lemma Listed.modify_iff (listed : Listed getID list) {f} (held : list.entries pmn = some mn) :
    Listed getID (list.modify pmn f) ↔ (f mn).keys getID = mn.keys getID := by
  obtain ⟨-, found⟩ := entries_eq_some.mp held
  constructor
  · intro changed
    have rekeyed : ∀ {κ : Type} {key : CMasternode → κ} {index : κ → Option Nat}, KeyedBy key list.entries index →
        KeyedBy key (list.modify pmn f).entries index → key (f mn) = key mn := by
      intro κ key index keyed changed
      rw [modify_entries held] at changed
      exact (keyed.rekey_iff held).mp changed
    have finds : (list.modify pmn f).findScript = list.findScript ∧ (list.modify pmn f).findTxIn = list.findTxIn ∧
        (list.modify pmn f).findPubKey = list.findPubKey := by simpa [modify, found] using ⟨rfl, rfl, rfl⟩
    have payee := rekeyed listed.scripts (finds.1 ▸ changed.scripts)
    have vin := rekeyed listed.txIns (finds.2.1 ▸ changed.txIns)
    have pubKey := rekeyed listed.pubKeys (finds.2.2 ▸ changed.pubKeys)
    unfold CMasternode.keys
    rw [payee, vin, pubKey]
  · intro keys
    apply SameKeys.listed _ listed
    apply SameKeys.modify
    intro other other_found
    rw [found] at other_found
    cases other_found
    exact keys

lemma CMasternode.check_keys (clock : MnClock) (mn : CMasternode) : (mn.check clock).keys getID = mn.keys getID := by
  unfold CMasternode.check
  split_ifs <;> rfl

lemma Retouched.sameKeys (retouched : Retouched list list') : SameKeys getID list list' := by
  induction retouched with
  | refl => exact SameKeys.refl _
  | modify pmn _ touches ih => exact ih.trans (SameKeys.modify fun mn found => (touches mn found).key_eq
    ⟨CMasternode.check_keys, fun _ _ => rfl⟩)

lemma SameKeys.markVinSpent (scriptPubKey list) : SameKeys getID list (list.markVinSpent scriptPubKey) := by
  unfold MasternodeList.markVinSpent
  split
  · exact SameKeys.refl _
  · exact SameKeys.modify fun mn _ => rfl
end
section
variable {getID : CPubKey → List UInt8} {list : MasternodeList} {pmn : Nat}
lemma Listed.entries_of_mem (listed : Listed getID list) (mem : pmn ∈ list.vMasternodes) : ∃ mn, list.entries pmn = some mn := by
  obtain ⟨mn, found⟩ := isSome_iff_exists.mp (listed.live _ mem)
  exact ⟨mn, entries_eq_some.mpr ⟨mem, found⟩⟩

lemma Listed.deleteSome {step}
    (deletes : ∀ {list pmn mn}, list.entries pmn = some mn → step list pmn = list.delete getID pmn mn ∨ step list pmn = list)
    {pmns : List Nat} (nodup : pmns.Nodup) (listed : Listed getID list) (ins : ∀ pmn ∈ pmns, pmn ∈ list.vMasternodes) :
    Listed getID (pmns.foldl step list) := by
  induction pmns generalizing list with
  | nil => exact listed
  | cons pmn pmns ih =>
    obtain ⟨fresh, nodup⟩ := nodup_cons.mp nodup
    obtain ⟨mn, held⟩ := listed.entries_of_mem (ins pmn (by simp))
    rw [foldl_cons]
    rcases deletes held with deleted | same
    · rw [deleted]
      apply ih nodup (listed.delete held)
      intro other mem
      have apart : other ≠ pmn := by
        intro same
        exact fresh (same ▸ mem)
      exact (mem_erase_of_ne apart).mpr (ins _ (by simp [mem]))
    · rw [same]
      exact ih nodup listed (forall_mem_cons.mp ins).2

lemma Listed.checkAndRemove (listed : Listed getID list) (clock) (forceExpiredRemoval : Bool) :
    Listed getID (list.checkAndRemove getID clock forceExpiredRemoval) := by
  have checked := (retouched_check clock _).sameKeys.listed listed
  apply Listed.deleteSome _ checked.nodup checked fun pmn mem => mem
  intro list pmn mn held
  rw [(entries_eq_some.mp held).2]
  dsimp only
  split
  · exact .inl rfl
  · exact .inr rfl

lemma Listed.remove (listed : Listed getID list) (vin : CTxIn) : Listed getID (list.remove getID vin) := by
  unfold MasternodeList.remove
  cases found : list.vMasternodes.find? fun pmn => (list.heap.lookup _).any _ with
  | none => exact listed
  | some pmn =>
    obtain ⟨mn, held⟩ := listed.entries_of_mem (mem_of_find?_eq_some found)
    dsimp only
    rw [(entries_eq_some.mp held).2]
    exact listed.delete held

/-- The script is unknown and, with an unknown input, the key too. -/
def AddKeeps (getID : CPubKey → List UInt8) (list : MasternodeList) (mn : CMasternode) : Prop :=
  mn.isEnabled = true → list.findScript (mn.payee getID) = none ∧
    (list.findTxIn mn.vin = none → list.findPubKey mn.pubKeyMasternode = none)

lemma Listed.add_iff (listed : Listed getID list) (mn) : Listed getID (list.add getID mn) ↔ AddKeeps getID list mn := by
  unfold add AddKeeps
  cases enabled : mn.isEnabled with
  | false => simpa using listed
  | true =>
    cases script : list.findScript _ with
    | some mnScript =>
      have broken := listed.not_dropPointer script
      simpa using broken
    | none =>
      cases txIn : list.findTxIn _ with
      | some pmn => simpa using listed
      | none => simpa [listed.push_iff] using ⟨Unknown.pubKey, fun pubKey => ⟨script, txIn, pubKey⟩⟩

def UpdateKeeps (getID : CPubKey → List UInt8) (mn mnb : CMasternode) : Prop :=
  mn.sigTime < mnb.sigTime → mnb.payee getID = mn.payee getID ∧ mnb.pubKeyMasternode = mn.pubKeyMasternode

lemma Listed.updateFromNewBroadcast_iff {mn mnb} (listed : Listed getID list) (ctx)
    (held : list.entries pmn = some mn) :
    Listed getID (list.updateFromNewBroadcast ctx pmn mnb) ↔ UpdateKeeps getID mn mnb := by
  obtain ⟨-, found⟩ := entries_eq_some.mp held
  unfold UpdateKeeps
  by_cases newer : mn.sigTime < mnb.sigTime
  · rw [(retouched_update _ found newer).sameKeys.listed_iff, listed.modify_iff held]
    simp [newer, CMasternode.keys, CMasternode.takeBroadcast, CMasternode.payee]
  · have same : list.updateFromNewBroadcast ctx pmn mnb = list := by
      unfold updateFromNewBroadcast
      rw [found]
      exact if_neg newer
    rw [same]
    exact ⟨fun _ newer' => absurd newer' newer, fun _ => listed⟩

lemma Listed.held_of_findTxIn {vin} (listed : Listed getID list) (found : list.findTxIn vin = some pmn) :
    ∃ mn, list.entries pmn = some mn ∧ list.heap.lookup pmn = some mn := by
  obtain ⟨mn, held, -⟩ := (listed.txIns _ _).mp found
  exact ⟨mn, held, (entries_eq_some.mp held).2⟩

def ByTxIn (list : MasternodeList) (vin : CTxIn) (unknown : Prop) (known : CMasternode → Prop) : Prop :=
  match (list.findTxIn vin).bind list.heap.lookup with
  | none => unknown
  | some mn => known mn

lemma Listed.updateMasternodeList_iff (listed : Listed getID list) (ctx mnb) :
    Listed getID (list.updateMasternodeList getID ctx mnb) ↔
      ByTxIn list mnb.vin (AddKeeps getID list mnb) fun mn => UpdateKeeps getID mn mnb := by
  unfold updateMasternodeList ByTxIn
  cases txIn : list.findTxIn _ with
  | none => exact listed.add_iff _
  | some pmn =>
    obtain ⟨mn, held, found⟩ := listed.held_of_findTxIn txIn
    rw [bind_some, found]
    exact listed.updateFromNewBroadcast_iff _ held

structure Replaces (getID : CPubKey → List UInt8) (context : MnContext) (list : MasternodeList) (mnb : CMasternode) (pmn : Nat)
    (mn : CMasternode) : Prop where
  passed : list.checkBroadcast getID context mnb = true
  txIn : list.findTxIn mnb.vin = some pmn
  found : list.heap.lookup pmn = some mn
  newer : mn.sigTime < mnb.sigTime
  enabled : mn.isEnabled = true
  owner : mn.pubKeyCollateralAddress = mnb.pubKeyCollateralAddress
  due : mn.isBroadcastedWithin context.toMnClock MASTERNODE_MIN_MNB_SECONDS = false

lemma checkAndUpdate_cases (getID : CPubKey → List UInt8) (ctx list mnb) :
    (∃ pmn mn, Replaces getID ctx list mnb pmn mn ∧ (list.checkAndUpdate getID ctx mnb).1 =
      (list.updateFromNewBroadcast ctx pmn mnb).modify pmn (·.check ctx.toMnClock)) ∨
    (∀ pmn mn, ¬ Replaces getID ctx list mnb pmn mn) ∧ (list.checkAndUpdate getID ctx mnb).1 = list := by
  unfold checkAndUpdate
  cases passed : list.checkBroadcast _ _ _ with
  | false => exact .inr ⟨fun pmn mn repl => Bool.noConfusion (passed.symm.trans repl.passed), rfl⟩
  | true =>
    rw [if_neg (by simp)]
    cases txIn : list.findTxIn _ with
    | none =>
      refine .inr ⟨fun pmn mn repl => ?_, rfl⟩
      cases txIn.symm.trans repl.txIn
    | some pmn =>
      dsimp only
      cases found : list.heap.lookup _ with
      | none =>
        refine .inr ⟨fun other mn repl => ?_, rfl⟩
        cases txIn.symm.trans repl.txIn
        cases found.symm.trans repl.found
      | some mn =>
        dsimp only
        -- the broadcast can replace this one only
        have only : ∀ other mn', Replaces getID ctx list mnb other mn' → Replaces getID ctx list mnb pmn mn := by
          intro other mn' repl
          cases txIn.symm.trans repl.txIn
          cases found.symm.trans repl.found
          exact repl
        split_ifs with older disabled taken
        · exact .inr ⟨fun other mn' repl => absurd (only _ _ repl).newer (by omega), rfl⟩
        · exact .inr ⟨fun other mn' repl => by simp [(only _ _ repl).enabled] at disabled, rfl⟩
        · simp only [Bool.and_eq_true, beq_iff_eq, Bool.not_eq_true'] at taken
          exact .inl ⟨_, mn, ⟨passed, txIn, found, by omega, by simpa using disabled, taken.1, taken.2⟩, rfl⟩
        · refine .inr ⟨fun other mn' repl => taken ?_, rfl⟩
          simp [(only _ _ repl).owner, (only _ _ repl).due]

/-- A broadcast accepted for an enabled masternode may not bring another masternode key. -/
def BroadcastKeeps (getID : CPubKey → List UInt8) (context : MnContext) (list : MasternodeList) (mnb : CMasternode) : Prop :=
  ByTxIn list mnb.vin True fun mn =>
    list.checkBroadcast getID context mnb = true → mn.sigTime < mnb.sigTime → mn.isEnabled = true →
      mn.pubKeyCollateralAddress = mnb.pubKeyCollateralAddress →
      mn.isBroadcastedWithin context.toMnClock MASTERNODE_MIN_MNB_SECONDS = false → mnb.pubKeyMasternode = mn.pubKeyMasternode

lemma Listed.checkAndUpdate_iff (listed : Listed getID list) (ctx : MnContext) (mnb : CMasternode) :
    Listed getID (list.checkAndUpdate getID ctx mnb).1 ↔ BroadcastKeeps getID ctx list mnb := by
  unfold BroadcastKeeps ByTxIn
  rcases checkAndUpdate_cases _ _ _ _ with ⟨pmn, mn, repl, res⟩ | ⟨none, res⟩
  · have held : list.entries pmn = some mn := by
      obtain ⟨own, held, found⟩ := listed.held_of_findTxIn repl.txIn
      cases repl.found.symm.trans found
      exact held
    have checked : SameKeys getID (list.updateFromNewBroadcast ctx pmn mnb)
        ((list.updateFromNewBroadcast ctx pmn mnb).modify pmn (·.check ctx.toMnClock)) :=
      SameKeys.modify fun mn _ => CMasternode.check_keys _ mn
    rw [res, repl.txIn, bind_some, repl.found, checked.listed_iff, listed.updateFromNewBroadcast_iff _ held]
    constructor
    · intro keeps _ newer _ _ _
      exact (keeps newer).2
    · intro keeps newer
      have payee : mnb.payee getID = mn.payee getID := by simp [payee, repl.owner]
      exact ⟨payee, keeps repl.passed newer repl.enabled repl.owner repl.due⟩
  · rw [res]
    apply iff_of_true listed
    cases txIn : list.findTxIn _ with
    | none => trivial
    | some pmn =>
      obtain ⟨mn, held, found⟩ := listed.held_of_findTxIn txIn
      rw [bind_some, found]
      intro passed newer enabled owner due
      exact absurd ⟨passed, txIn, found, newer, enabled, owner, due⟩ (none _ mn)

def InputsKeep (getID : CPubKey → List UInt8) (context : MnContext) (list : MasternodeList) (mnb : CMasternode) : Prop :=
  ∀ room, list.makeRoom getID context mnb = some room → context.acceptsInputs mnb = true → AddKeeps getID room mnb

lemma Listed.makeRoom {room ctx mnb} (listed : Listed getID list)
    (made : list.makeRoom getID ctx mnb = some room) : Listed getID room := by
  unfold MasternodeList.makeRoom at made
  cases txIn : list.findTxIn mnb.vin with
  | none => grind
  | some pmn =>
    obtain ⟨mn, held, found⟩ := listed.held_of_findTxIn txIn
    simp only [txIn, found] at made
    split_ifs at made
    cases made
    exact listed.remove _

lemma Listed.checkInputsAndAdd_iff (listed : Listed getID list) {ctx mnb} :
    Listed getID (list.checkInputsAndAdd getID ctx mnb) ↔ InputsKeep getID ctx list mnb := by
  unfold checkInputsAndAdd InputsKeep
  cases made : list.makeRoom _ _ _ with
  | none => simpa using listed
  | some room =>
    have listed_room := listed.makeRoom made
    cases acc : ctx.acceptsInputs _ with
    | false => simpa using listed_room
    | true => simpa using listed_room.add_iff _

def LoadKeeps (getID : CPubKey → List UInt8) : List CMasternode → MasternodeList → Prop
  | [], _ => True
  | mn :: mns, list => Unknown getID list mn ∧ LoadKeeps getID mns (list.push getID mn)

def Shares {κ : Type} (key : CMasternode → κ) (list : MasternodeList) : Prop :=
  ∃ pmn pmn' mn mn', pmn ≠ pmn' ∧ list.entries pmn = some mn ∧ list.entries pmn' = some mn' ∧ key mn = key mn'

variable {κ : Type} {key : CMasternode → κ}
lemma not_shares {index} (keyed : KeyedBy key list.entries index) : ¬ Shares key list := by
  intro shares
  obtain ⟨pmn, pmn', first, snd, apart, held, held', same⟩ := shares
  exact apart (keyed.distinct held held' same)

variable {mn : CMasternode}
lemma ScriptListed.push_held (listed : ScriptListed getID list) (held : list.entries pmn = some mn)
    (new) : pmn ≠ list.newAddress ∧ (list.push getID new).entries pmn = some mn := by
  have old : pmn ≠ list.newAddress := by
    intro same
    exact new_notMem listed.live (same ▸ (entries_eq_some.mp held).1)
  rw [push_entries, update_of_ne old]
  exact ⟨old, held⟩

lemma ScriptListed.push_shares (listed : ScriptListed getID list) (shares : Shares key list) : Shares key (list.push getID mn) := by
  obtain ⟨pmn, pmn', first, snd, apart, held, held', same⟩ := shares
  exact ⟨_, _, _, _, apart, (listed.push_held held mn).2, (listed.push_held held' mn).2, same⟩

lemma ScriptListed.not_load_of_shares (apart : ∀ list, Listed getID list → ¬ Shares key list)
    (mns) : ∀ list, ScriptListed getID list → Shares key list → ¬ Listed getID (load getID mns list) := by
  induction mns with
  | nil =>
    intro list _ shares loaded
    exact apart _ loaded shares
  | cons mn mns ih =>
    intro list listed shares
    unfold load
    cases script : list.findScript _ with
    | some mnScript => exact listed.not_dropPointer script
    | none => exact ih _ (listed.push script) (listed.push_shares shares)

lemma ScriptListed.push_known {index}
    (listed : ScriptListed getID list) (keyed : KeyedBy key list.entries index) (known : index (key mn) = some pmn) :
    Shares key (list.push getID mn) := by
  obtain ⟨other, held, same⟩ := (keyed _ _).mp known
  obtain ⟨old, held⟩ := listed.push_held held mn
  have new : (list.push getID mn).entries list.newAddress = some mn := by rw [push_entries, update_self]
  exact ⟨_, _, _, mn, old, held, new, same⟩

lemma Listed.not_load_of_known {mns} (listed : Listed getID list)
    (known : ¬ Unknown getID list mn) : ¬ Listed getID (load getID (mn :: mns) list) := by
  unfold load
  cases script : list.findScript _ with
  | some mnScript => exact listed.not_dropPointer script
  | none =>
    have pushed := listed.toScriptListed.push script
    cases txIn : list.findTxIn _ with
    | some pmn =>
      apply ScriptListed.not_load_of_shares (fun list listed => not_shares listed.txIns) _ _ pushed
      exact listed.toScriptListed.push_known listed.txIns txIn
    | none =>
      cases pubKey : list.findPubKey _ with
      | some pmn =>
        apply ScriptListed.not_load_of_shares (fun list listed => not_shares listed.pubKeys) _ _ pushed
        exact listed.toScriptListed.push_known listed.pubKeys pubKey
      | none => exact absurd ⟨script, txIn, pubKey⟩ known

lemma Listed.load_iff (mns) :
    ∀ list, Listed getID list → (Listed getID (load getID mns list) ↔ LoadKeeps getID mns list) := by
  induction mns with
  | nil =>
    intro list listed
    exact ⟨fun _ => trivial, fun _ => listed⟩
  | cons mn mns ih =>
    intro list listed
    by_cases unknown : Unknown getID list mn
    · unfold load LoadKeeps
      rw [unknown.script]
      have pushed := listed.push_iff.mpr unknown
      exact ⟨fun loaded => ⟨unknown, (ih _ pushed).mp loaded⟩, fun keeps => (ih _ pushed).mpr keeps.2⟩
    · exact ⟨fun loaded => absurd loaded (listed.not_load_of_known unknown), fun keeps => absurd keeps.1 unknown⟩
end

/-- The calls that change the list; `ProcessMessage` makes two of them for a broadcast. -/
inductive MnOp where
  | add (mn : CMasternode)
  | remove (vin : CTxIn)
  | check (clock : MnClock)
  | checkAndRemove (clock : MnClock) (forceExpiredRemoval : Bool)
  | markVinSpent (scriptPubKey : CScript)
  | ping (context : MnContext) (mnp : CMasternodePing)
  | updateMasternodeList (context : MnContext) (mnb : CMasternode)
  | checkAndUpdate (context : MnContext) (mnb : CMasternode)
  | checkInputsAndAdd (context : MnContext) (mnb : CMasternode)
  | load (mns : List CMasternode)

variable (getID : CPubKey → List UInt8)
section
variable (list : MasternodeList)
def MnOp.apply : MnOp → MasternodeList
  | .add mn => list.add getID mn
  | .remove vin => list.remove getID vin
  | .check clock => list.check clock
  | .checkAndRemove clock forceExpiredRemoval => list.checkAndRemove getID clock forceExpiredRemoval
  | .markVinSpent scriptPubKey => list.markVinSpent scriptPubKey
  | .ping context mnp => (list.pingCheckAndUpdate context mnp true false).1
  | .updateMasternodeList context mnb => list.updateMasternodeList getID context mnb
  | .checkAndUpdate context mnb => (list.checkAndUpdate getID context mnb).1
  | .checkInputsAndAdd context mnb => list.checkInputsAndAdd getID context mnb
  | .load mns => MasternodeList.load getID mns list

/-- What a call may be given for the list and its maps to stay in agreement. -/
def MnOp.Keeps : MnOp → Prop
  | .add mn => AddKeeps getID list mn
  | .updateMasternodeList _ mnb => ByTxIn list mnb.vin (AddKeeps getID list mnb) fun mn => UpdateKeeps getID mn mnb
  | .checkAndUpdate context mnb => BroadcastKeeps getID context list mnb
  | .checkInputsAndAdd context mnb => InputsKeep getID context list mnb
  | .load mns => LoadKeeps getID mns list
  | _ => True

def run (ops : List MnOp) : MasternodeList := ops.foldl (MnOp.apply getID) list
end

def KeepsAll : MasternodeList → List MnOp → Prop
  | _, [] => True
  | list, op :: ops => op.Keeps getID list ∧ KeepsAll (op.apply getID list) ops

def empty : MasternodeList := ⟨∅, [], ∅, ∅, ∅⟩

variable {getID} {list : MasternodeList}
lemma Listed.apply_iff (listed : Listed getID list) (op : MnOp) : Listed getID (op.apply getID list) ↔ op.Keeps getID list := by
  cases op with
  | add mn => exact listed.add_iff mn
  | remove vin => exact iff_of_true (listed.remove _) trivial
  | check clock => exact iff_of_true ((retouched_check _ _).sameKeys.listed listed) trivial
  | checkAndRemove clock forceExpiredRemoval => exact iff_of_true (listed.checkAndRemove _ _) trivial
  | markVinSpent scriptPubKey => exact iff_of_true ((SameKeys.markVinSpent _ _).listed listed) trivial
  | ping ctx mnp => exact iff_of_true ((retouched_ping ..).sameKeys.listed listed) trivial
  | updateMasternodeList ctx mnb => exact listed.updateMasternodeList_iff _ _
  | checkAndUpdate ctx mnb => exact listed.checkAndUpdate_iff _ _
  | checkInputsAndAdd ctx mnb => exact listed.checkInputsAndAdd_iff
  | load mns => exact Listed.load_iff _ _ listed

lemma listed_empty : Listed getID empty :=
  ⟨⟨fun _ mem => (by cases mem), nodup_nil, KeyedBy.empty⟩, KeyedBy.empty, KeyedBy.empty⟩

lemma Listed.run_iff (ops) :
    ∀ list, Listed getID list → ((∀ n, Listed getID (run getID list (ops.take n))) ↔ KeepsAll getID list ops) := by
  induction ops with
  | nil =>
    intro list listed
    refine iff_of_true (fun n => ?_) trivial
    rw [take_nil]
    exact listed
  | cons op ops ih =>
    intro list listed
    constructor
    · intro always
      have keeps := (listed.apply_iff op).mp (always 1)
      exact ⟨keeps, (ih _ ((listed.apply_iff op).mpr keeps)).mp fun n => always (n + 1)⟩
    · intro keeps n
      cases n with
      | zero => exact listed
      | succ n => exact (ih _ ((listed.apply_iff op).mpr keeps.1)).mpr keeps.2 n

/-- Vector and maps agree exactly if no added masternode shares a key, and no update changes one. -/
theorem masternodeList_agrees_iff (getID : CPubKey → List UInt8) (ops : List MnOp) :
    (∀ n, Listed getID (run getID empty (ops.take n))) ↔ KeepsAll getID empty ops :=
  Listed.run_iff _ _ listed_empty

def sampleVin (n : Nat) : CTxIn := ⟨⟨1, n⟩, [], 0xffffffff⟩

def sampleMasternode (n : Nat) (collateralKey key : CPubKey) (sigTime : Int) : CMasternode where
  vin := sampleVin n
  addr := []
  pubKeyCollateralAddress := collateralKey
  pubKeyMasternode := key
  vchSig := []
  nMessVersion := 1
  activeState := .enabled
  sigTime := sigTime
  protocolVersion := 70000
  lastPing := ⟨sampleVin n, 7, 2000, [], 1⟩

def sampleContext : MnContext where
  adjustedTime := 2000
  shutdownRequested := false
  checkPingSignature _ _ := true
  isRecentBlock _ := true
  checkSignature _ := true
  isDefaultPort _ := true
  isInputAssociatedWithPubkey _ := true
  isActiveMasternode _ := false
  acceptsInputs _ := true

def sampleID (key : CPubKey) : List UInt8 := List.replicate 20 (key.headD 0)
def twoCollaterals : List MnOp := [.add (sampleMasternode 0 [5] [6] 1000), .add (sampleMasternode 1 [5] [7] 1000)]

def changedKey : List MnOp :=
  [.add (sampleMasternode 0 [5] [6] 1000), .updateMasternodeList sampleContext (sampleMasternode 0 [5] [8] 1500), .remove (sampleVin 0)]

/-- The second collateral takes the first masternode out of the vector and leaves it in the maps. -/
theorem masternodeMaps_left_behind : (run sampleID empty twoCollaterals).vMasternodes = [] ∧
      (run sampleID empty twoCollaterals).findScript (getScriptForDestination (sampleID [5])) = some 1 ∧
      (run sampleID empty (changedKey.take 2)).findPubKey [8] = none ∧
      (run sampleID empty (changedKey.take 2)).findPubKey [6] = some 1 ∧
      ((run sampleID empty (changedKey.take 2)).heap.lookup 1).map pubKeyMasternode = some [8] ∧
      (run sampleID empty changedKey).findPubKey [6] = some 1 ∧
      (run sampleID empty changedKey).heap.lookup 1 = none := by decide +kernel

end MasternodeList

end Peony
