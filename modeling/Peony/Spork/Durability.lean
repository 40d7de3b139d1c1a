import Peony.Spork.Manager

/-! The active sporks against the database, over runs of messages, local updates and restarts. -/

namespace Peony

namespace CSporkManager
variable (host : SporkHost) (manager : CSporkManager)
def loadSpork (sporkDef : CSporkDef) : CSporkManager :=
  match manager.sporkDB.lookup sporkDef.sporkId with
  | none => manager
  | some spork =>
    { manager with
      mapSporks := manager.mapSporks.insert (spork.getHash host) spork
      mapSporksActive := manager.mapSporksActive.insert spork.nSporkID spork }

def loadSporksFromDB : CSporkManager := sporkDefs.foldl (loadSpork host) manager
def restart : CSporkManager := loadSporksFromDB host ⟨∅, ∅, manager.sporkDB⟩

end CSporkManager

open CSporkManager

inductive SporkEvent where
  | process (receipt : Receipt)
  | update (sign : CSporkMessage → Option (List UInt8 × Int)) (nTime : Int) (nSporkID : SporkId) (nValue : Int)
  | load | restart

namespace CSporkManager
variable (host : SporkHost) (params : SporkParams)
def step (manager : CSporkManager) : SporkEvent → CSporkManager
  | .process receipt => receive host params manager receipt
  | .update sign nTime nSporkID nValue => (updateSpork host sign nTime manager nSporkID nValue).1
  | .load => loadSporksFromDB host manager
  | .restart => restart host manager

end CSporkManager

def CSporkMessage.Authentic (host : SporkHost) (params : SporkParams) (spork : CSporkMessage) : Prop :=
  spork.checkSignature host params = true ∨
    spork.nTimeSigned < params.nTime_EnforceNewSporkKey ∧ spork.checkSignatureOf host params.sporkPubKeyOld = true

namespace CSporkManager
variable (host : SporkHost) (params : SporkParams)
structure Durable (manager : CSporkManager) : Prop where
  authentic : ∀ nSporkID spork, manager.mapSporksActive.lookup nSporkID = some spork → spork.Authentic host params
  stored : ∀ nSporkID spork, manager.mapSporksActive.lookup nSporkID = some spork → manager.sporkDB.lookup nSporkID = some spork
  reloaded : ∀ nSporkID, (restart host manager).mapSporksActive.lookup nSporkID = manager.mapSporksActive.lookup nSporkID

def DurableRun : CSporkManager → List SporkEvent → Prop
  | manager, [] => manager.Durable host params
  | manager, event :: events => manager.Durable host params ∧ DurableRun (step host params manager event) events

/-- The update fails, or signs over the database's message for the spork. -/
def Persisted (manager : CSporkManager) : SporkEvent → Prop
  | .update sign nTime nSporkID nValue =>
    ∀ vchSig nMessVersion, sign ⟨nSporkID, nValue, nTime, [], MESS_VER_HASH⟩ = some (vchSig, nMessVersion) →
      manager.sporkDB.lookup nSporkID = some ⟨nSporkID, nValue, nTime, vchSig, nMessVersion⟩
  | _ => True

def PersistedRun : CSporkManager → List SporkEvent → Prop
  | _, [] => True
  | manager, event :: events => manager.Persisted event ∧ PersistedRun (step host params manager event) events

/-- The active map is the database, with authentic messages under their ids. -/
structure Recorded (manager : CSporkManager) : Prop where
  same : ∀ nSporkID, manager.mapSporksActive.lookup nSporkID = manager.sporkDB.lookup nSporkID
  listed : ∀ nSporkID spork, manager.sporkDB.lookup nSporkID = some spork →
    spork.nSporkID = nSporkID ∧ isUnknown spork = false ∧ spork.Authentic host params

variable {host params} {manager : CSporkManager}

lemma sporkDB_loadSpork (host manager sporkDef) :
    (loadSpork host manager sporkDef).sporkDB = manager.sporkDB := by
  unfold loadSpork
  split <;> rfl

lemma lookup_loadSpork {host sporkDef}
    (keyed : ∀ nSporkID spork, manager.sporkDB.lookup nSporkID = some spork → spork.nSporkID = nSporkID) (nSporkID) :
    (loadSpork host manager sporkDef).mapSporksActive.lookup nSporkID =
      if nSporkID = sporkDef.sporkId then (manager.sporkDB.lookup nSporkID).or (manager.mapSporksActive.lookup nSporkID)
      else manager.mapSporksActive.lookup nSporkID := by
  unfold loadSpork
  cases found : manager.sporkDB.lookup _ with
  | none => grind
  | some spork =>
    rw [AssocMap.lookup_insert_ite, keyed _ _ found]
    by_cases own : nSporkID = sporkDef.sporkId
    · rw [if_pos own, if_pos own, own, found, Option.some_or]
    · rw [if_neg own, if_neg own]

section
variable (host : SporkHost) (defs : List CSporkDef) (manager : CSporkManager)
lemma sporkDB_foldl_loadSpork : (defs.foldl (loadSpork host) manager).sporkDB = manager.sporkDB := by
  induction defs generalizing manager with
  | nil => rfl
  | cons sporkDef defs ih =>
    rw [List.foldl_cons, ih]
    exact sporkDB_loadSpork ..

lemma lookup_foldl_loadSpork (keyed : ∀ nSporkID spork, manager.sporkDB.lookup nSporkID = some spork →
    spork.nSporkID = nSporkID) (nSporkID) :
    (defs.foldl (loadSpork host) manager).mapSporksActive.lookup nSporkID =
      if nSporkID ∈ defs.map CSporkDef.sporkId then (manager.sporkDB.lookup nSporkID).or (manager.mapSporksActive.lookup nSporkID)
      else manager.mapSporksActive.lookup nSporkID := by
  induction defs generalizing manager with
  | nil => rfl
  | cons sporkDef defs ih =>
    have db := sporkDB_loadSpork host manager sporkDef
    rw [List.foldl_cons, ih, db, lookup_loadSpork keyed]
    · by_cases own : nSporkID = sporkDef.sporkId
      · subst own
        -- a second entry for the id would read the same message again
        cases manager.sporkDB.lookup _ <;> simp
      · simp [own]
    · rw [db]
      exact keyed
end

lemma mem_sporkDefs_of_known {spork} (known : isUnknown spork = false) :
    spork.nSporkID ∈ sporkDefs.map CSporkDef.sporkId := by
  cases found : sporkDefsById spork.nSporkID with
  | none => simp [isUnknown, getSporkNameByID, found] at known
  | some sporkDef =>
    have own := List.find?_some found
    exact List.mem_map.mpr ⟨_, List.mem_of_find?_eq_some found, beq_iff_eq.mp own⟩

lemma Recorded.lookup_load (recorded : manager.Recorded host params) {active}
    (within : ∀ nSporkID, active.lookup nSporkID = none ∨ active.lookup nSporkID = manager.sporkDB.lookup nSporkID)
    (pool : AssocMap UInt256 CSporkMessage) (nSporkID) :
    (loadSporksFromDB host ⟨pool, active, manager.sporkDB⟩).mapSporksActive.lookup nSporkID = manager.sporkDB.lookup nSporkID := by
  have keyed : ∀ nSporkID spork, manager.sporkDB.lookup nSporkID = some spork → spork.nSporkID = nSporkID :=
    fun nSporkID spork found => (recorded.listed _ _ found).1
  rw [loadSporksFromDB, lookup_foldl_loadSpork _ _ ⟨_, active, _⟩ keyed]
  cases found : manager.sporkDB.lookup _ with
  | none =>
    have absent : active.lookup nSporkID = none := by
      rcases within _ with absent | same
      · exact absent
      · rw [same, found]
    simp [absent]
  | some spork =>
    obtain ⟨own, known, -⟩ := recorded.listed _ _ found
    rw [← own, if_pos (mem_sporkDefs_of_known known), Option.some_or]

lemma sporkDB_loadSporksFromDB (host manager) :
    (loadSporksFromDB host manager).sporkDB = manager.sporkDB := sporkDB_foldl_loadSpork ..

lemma Recorded.durable (recorded : manager.Recorded host params) : manager.Durable host params where
  authentic nSporkID spork active := by
    rw [recorded.same] at active
    exact (recorded.listed _ _ active).2.2
  stored nSporkID spork active := by
    rw [← recorded.same]
    exact active
  reloaded nSporkID := by
    rw [recorded.same]
    exact recorded.lookup_load (fun _ => Or.inl rfl) _ _

lemma authentic_of_hasValidSignature {spork : CSporkMessage} {nAdjustedTime}
    (valid : spork.hasValidSignature host params nAdjustedTime = true) : spork.Authentic host params := by
  unfold CSporkMessage.hasValidSignature at valid
  simp only [Bool.or_eq_true, Bool.and_eq_true, decide_eq_true_eq] at valid
  rcases valid with current | ⟨⟨early, -⟩, old⟩
  · exact .inl current
  · exact .inr ⟨early, old⟩

lemma receive_cases (host : SporkHost) (params) (manager) (receipt) :
    receive host params manager receipt = manager ∨
      isUnknown receipt.message = false ∧ receipt.message.Authentic host params ∧
        (receive host params manager receipt).mapSporksActive = manager.mapSporksActive.insert receipt.message.nSporkID receipt.message ∧
        (receive host params manager receipt).sporkDB = manager.sporkDB.insert receipt.message.nSporkID receipt.message := by
  unfold receive processSpork
  split
  · exact .inl rfl
  split
  · exact .inl rfl
  next known =>
  split
  · exact .inl rfl
  split
  · exact .inl rfl
  split
  · exact .inl rfl
  split
  · exact .inl rfl
  · next signed =>
    right
    exact ⟨by simpa using known, authentic_of_hasValidSignature (by simpa using signed), rfl, rfl⟩

section
variable (recorded : manager.Recorded host params)
include recorded

lemma Recorded.receive (receipt) : (receive host params manager receipt).Recorded host params := by
  rcases receive_cases host params manager receipt with unchanged | ⟨known, authentic, active, db⟩
  · grind
  · constructor
    · simp [active, db, AssocMap.lookup_insert_ite, recorded.same]
    · rw [db]
      exact AssocMap.forall_insert recorded.listed ⟨rfl, known, authentic⟩

lemma Recorded.update_iff (sign nTime nSporkID nValue) :
    ((updateSpork host sign nTime manager nSporkID nValue).1.Durable host params ↔ manager.Persisted (.update sign nTime nSporkID nValue)) ∧
      (manager.Persisted (.update sign nTime nSporkID nValue) →
        (updateSpork host sign nTime manager nSporkID nValue).1.Recorded host params) := by
  unfold updateSpork
  cases signed : sign _ with
  | none =>
    have nothing : manager.Persisted (.update sign nTime nSporkID nValue) := by
      intro vchSig nMessVersion succeeded
      cases signed.symm.trans succeeded
    exact ⟨iff_of_true recorded.durable nothing, fun _ => recorded⟩
  | some signature =>
    obtain ⟨vchSig, nMessVersion⟩ := signature
    have kept : manager.sporkDB.lookup nSporkID = some ⟨nSporkID, nValue, nTime, vchSig, nMessVersion⟩ →
      Recorded host params { manager with
            mapSporks := manager.mapSporks.insert (CSporkMessage.getHash host ⟨nSporkID, nValue, nTime, vchSig, nMessVersion⟩)
              ⟨nSporkID, nValue, nTime, vchSig, nMessVersion⟩
            mapSporksActive := manager.mapSporksActive.insert nSporkID ⟨nSporkID, nValue, nTime, vchSig, nMessVersion⟩ } := by
      intro had
      constructor
      · intro other
        rw [AssocMap.lookup_insert_ite]
        split
        · grind
        · exact recorded.same _
      · exact recorded.listed
    constructor
    · constructor
      · intro durable vchSig' nMessVersion' again
        cases signed.symm.trans again
        exact durable.stored _ _ (AList.lookup_insert _)
      · intro persisted
        exact (kept (persisted _ _ signed)).durable
    · intro persisted
      exact kept (persisted _ _ signed)

lemma Recorded.step {event} (persisted : manager.Persisted event) :
    (step host params manager event).Recorded host params := by
  cases event with
  | process receipt => exact recorded.receive _
  | update sign nTime nSporkID nValue => exact (recorded.update_iff ..).2 persisted
  | load =>
    constructor
    · intro nSporkID
      change (loadSporksFromDB _ _).mapSporksActive.lookup _ = (loadSporksFromDB _ _).sporkDB.lookup _
      rw [sporkDB_loadSporksFromDB]
      exact recorded.lookup_load (fun nSporkID => Or.inr (recorded.same _)) _ _
    · change ∀ nSporkID spork, (loadSporksFromDB _ _).sporkDB.lookup _ = some _ → _
      rw [sporkDB_loadSporksFromDB]
      exact recorded.listed
  | restart =>
    constructor
    · intro nSporkID
      change (restart _ _).mapSporksActive.lookup _ = (restart _ _).sporkDB.lookup _
      rw [restart, sporkDB_loadSporksFromDB]
      exact recorded.lookup_load (fun _ => Or.inl rfl) _ _
    · change ∀ nSporkID spork, (loadSporksFromDB host ⟨∅, ∅, manager.sporkDB⟩).sporkDB.lookup _ = some _ → _
      rw [sporkDB_loadSporksFromDB]
      exact recorded.listed
end

lemma recorded_emptySporks : emptySporks.Recorded host params :=
  ⟨fun _ => rfl, fun _ _ found => by cases found⟩

lemma Recorded.durableRun_iff (recorded : manager.Recorded host params) {events} :
    DurableRun host params manager events ↔ PersistedRun host params manager events := by
  induction events generalizing manager with
  | nil => exact iff_of_true recorded.durable trivial
  | cons event events ih =>
    constructor
    · rintro ⟨-, run⟩
      have persisted : manager.Persisted event := by
        cases event with
        | update sign nTime nSporkID nValue =>
          apply (recorded.update_iff ..).1.mp
          cases events with
          | nil => exact run
          | cons next events => exact run.1
        | process receipt => trivial
        | load => trivial
        | restart => trivial
      exact ⟨persisted, (ih (recorded.step persisted)).mp run⟩
    · rintro ⟨persisted, run⟩
      exact ⟨recorded.durable, (ih (recorded.step persisted)).mpr run⟩

/-- Authentic and durable exactly when no local update sets a message that the database lacks. -/
theorem sporks_durable_iff (host : SporkHost) (params : SporkParams) (events : List SporkEvent) :
    DurableRun host params emptySporks events ↔ PersistedRun host params emptySporks events :=
  recorded_emptySporks.durableRun_iff

/-- A host that accepts the signature `[1]` only. -/
def strictHost : SporkHost := { trustingHost with verifyHash := fun _ _ vchSig => vchSig == [1] }

/-- A value set with the key is lost in a restart; one is set without the key. -/
theorem updated_spork_lost :
    (step strictHost mainSporks emptySporks (.update (fun _ => some ([1], MESS_VER_HASH)) 1000 10103 7)).getSporkValue 10103 = 7 ∧
      (step strictHost mainSporks (step strictHost mainSporks emptySporks (.update (fun _ => some ([1], MESS_VER_HASH)) 1000 10103 7))
        .restart).getSporkValue 10103 = 4070908800 ∧
      ¬ DurableRun strictHost mainSporks emptySporks [.update (fun _ => some ([1], MESS_VER_HASH)) 1000 10103 7] ∧
      (step strictHost mainSporks emptySporks (.update (fun _ => some ([2], MESS_VER_HASH)) 1000 10103 7)).mapSporksActive.lookup 10103 =
        some ⟨10103, 7, 1000, [2], MESS_VER_HASH⟩ ∧
      ¬ CSporkMessage.Authentic strictHost mainSporks ⟨10103, 7, 1000, [2], MESS_VER_HASH⟩ := by
  refine ⟨by decide, by decide, ?_, by decide, ?_⟩
  · rintro ⟨-, durable⟩
    have stored := durable.stored 10103 ⟨10103, 7, 1000, [1], MESS_VER_HASH⟩ (by decide)
    exact absurd stored (by decide)
  · rintro (current | ⟨early, -⟩)
    · exact absurd current (by decide)
    · exact absurd early (by decide)

end CSporkManager

end Peony
