import Mathlib.Data.List.Nodup
import Peony.Library.AssocMap
import Peony.Primitives.Transaction

/-! The blocks requested from peers. A list iterator is the address of the element it points to. -/

namespace Peony
open List AssocMap Option

abbrev NodeId := Int

structure QueuedBlock where
  address : Nat
  hash : UInt256
  (nTime nValidatedQueuedBefore : Int)
  fValidatedHeaders : Bool
  deriving DecidableEq

structure CNodeState where
  vBlocksInFlight : List QueuedBlock
  (nBlocksInFlight nStallingSince : Int)

structure InFlight where
  mapNodeState : AssocMap NodeId CNodeState
  mapBlocksInFlight : AssocMap UInt256 (NodeId × Nat)
  nQueuedValidatedHeaders : Int
  -- addresses from here on have not been used
  nextAddress : Nat

def noneInFlight : InFlight := ⟨∅, ∅, 0, 0⟩
def CNodeState.fresh : CNodeState := ⟨[], 0, 0⟩

namespace InFlight
variable (state : InFlight)
def initializeNode (nodeid : NodeId) : InFlight :=
  if (state.mapNodeState.lookup nodeid).isSome then state
  else { state with mapNodeState := state.mapNodeState.insert nodeid CNodeState.fresh }

def finalizeNode (nodeid : NodeId) : Option InFlight := do
  let node ← state.mapNodeState.lookup nodeid
  return { state with
    mapBlocksInFlight := node.vBlocksInFlight.foldl (fun map entry => map.erase entry.hash) state.mapBlocksInFlight
    mapNodeState := state.mapNodeState.erase nodeid }

def markBlockAsReceived (hash : UInt256) : Option InFlight :=
  match state.mapBlocksInFlight.lookup hash with
  | none => some state
  | some (nodeid, iterator) => do
    let node ← state.mapNodeState.lookup nodeid
    let entry ← node.vBlocksInFlight.find? fun entry => entry.address == iterator
    return { state with
      nQueuedValidatedHeaders := state.nQueuedValidatedHeaders - entry.fValidatedHeaders.toNat
      mapNodeState := state.mapNodeState.insert nodeid
        { vBlocksInFlight := node.vBlocksInFlight.filter fun entry => entry.address != iterator
          nBlocksInFlight := node.nBlocksInFlight - 1
          nStallingSince := 0 }
      mapBlocksInFlight := state.mapBlocksInFlight.erase hash }

def markBlockAsInFlight (nodeid : NodeId) (hash : UInt256) (fHeader : Bool) (nTime : Int) : Option InFlight := do
  -- the assertion
  let _ ← state.mapNodeState.lookup nodeid
  let state ← state.markBlockAsReceived hash
  let node ← state.mapNodeState.lookup nodeid
  let newentry : QueuedBlock := ⟨state.nextAddress, hash, nTime, state.nQueuedValidatedHeaders, fHeader⟩
  return {
    nQueuedValidatedHeaders := state.nQueuedValidatedHeaders + newentry.fValidatedHeaders.toNat
    mapNodeState := state.mapNodeState.insert nodeid
      { node with vBlocksInFlight := node.vBlocksInFlight ++ [newentry], nBlocksInFlight := node.nBlocksInFlight + 1 }
    mapBlocksInFlight := state.mapBlocksInFlight.insert hash (nodeid, newentry.address)
    nextAddress := state.nextAddress + 1 }

end InFlight

inductive FlightCall where
  | initializeNode (nodeid : NodeId)
  | finalizeNode (nodeid : NodeId)
  | markBlockAsReceived (hash : UInt256)
  | markBlockAsInFlight (nodeid : NodeId) (hash : UInt256) (fHeader : Bool) (nTime : Int)

namespace InFlight

def step (state : InFlight) : FlightCall → Option InFlight
  | .initializeNode nodeid => some (state.initializeNode nodeid)
  | .finalizeNode nodeid => state.finalizeNode nodeid
  | .markBlockAsReceived hash => state.markBlockAsReceived hash
  | .markBlockAsInFlight nodeid hash fHeader nTime => state.markBlockAsInFlight nodeid hash fHeader nTime

def validated (node : CNodeState) : Int := node.vBlocksInFlight.countP QueuedBlock.fValidatedHeaders
def inFlightValidated (state : InFlight) : Int := total (fun _ node => validated node) state.mapNodeState

/-- Map and lists hold the same pairs, and the nodes' counters are right. -/
structure Matched (state : InFlight) : Prop where
  same : ∀ nodeid hash, (∃ iterator, state.mapBlocksInFlight.lookup hash = some (nodeid, iterator)) ↔
    ∃ node, state.mapNodeState.lookup nodeid = some node ∧ ∃ entry ∈ node.vBlocksInFlight, entry.hash = hash
  once : ∀ nodeid node, state.mapNodeState.lookup nodeid = some node → (node.vBlocksInFlight.map QueuedBlock.hash).Nodup
  counts : ∀ nodeid node, state.mapNodeState.lookup nodeid = some node → node.nBlocksInFlight = node.vBlocksInFlight.length

structure Accounted (state : InFlight) : Prop where
  matched : state.Matched
  queued : state.nQueuedValidatedHeaders = state.inFlightValidated

def Clean (state : InFlight) : FlightCall → Prop
  | .finalizeNode nodeid => ∀ node, state.mapNodeState.lookup nodeid = some node →
    ∀ entry ∈ node.vBlocksInFlight, entry.fValidatedHeaders = false
  | _ => True

def AccountedRun : InFlight → List FlightCall → Prop
  | state, [] => state.Accounted
  | state, call :: calls => state.Accounted ∧ ∀ next, state.step call = some next → AccountedRun next calls

def CleanRun : InFlight → List FlightCall → Prop
  | _, [] => True
  | state, call :: calls => ∀ next, state.step call = some next → state.Clean call ∧ CleanRun next calls

/-- List elements and pointers of the map lead to each other. -/
structure Linked (state : InFlight) : Prop where
  pointed : ∀ nodeid node, state.mapNodeState.lookup nodeid = some node → ∀ entry ∈ node.vBlocksInFlight,
    state.mapBlocksInFlight.lookup entry.hash = some (nodeid, entry.address)
  leads : ∀ hash nodeid iterator, state.mapBlocksInFlight.lookup hash = some (nodeid, iterator) →
    ∃ node, state.mapNodeState.lookup nodeid = some node ∧ ∃ entry ∈ node.vBlocksInFlight, entry.hash = hash ∧
      entry.address = iterator
  distinct : ∀ nodeid node, state.mapNodeState.lookup nodeid = some node → (node.vBlocksInFlight.map QueuedBlock.address).Nodup
  used : ∀ nodeid node, state.mapNodeState.lookup nodeid = some node →
    ∀ entry ∈ node.vBlocksInFlight, entry.address < state.nextAddress
  counts : ∀ nodeid node, state.mapNodeState.lookup nodeid = some node → node.nBlocksInFlight = node.vBlocksInFlight.length

def drift (state : InFlight) : Int := state.nQueuedValidatedHeaders - state.inFlightValidated

variable {state state' : InFlight} {nodeid : NodeId} {hash : UInt256}
lemma linked_none : noneInFlight.Linked := by
  constructor
  · exact fun _ _ found => by cases found
  · exact fun _ _ _ found => by cases found
  · exact fun _ _ found => by cases found
  · exact fun _ _ found => by cases found
  · exact fun _ _ found => by cases found

lemma Linked.matched (linked : state.Linked) : state.Matched := by
  constructor
  · intro nodeid hash
    constructor
    · rintro ⟨iterator, found⟩
      obtain ⟨node, listed, entry, member, own, -⟩ := linked.leads _ _ _ found
      exact ⟨_, listed, _, member, own⟩
    · rintro ⟨node, listed, entry, member, rfl⟩
      exact ⟨_, linked.pointed _ _ listed _ member⟩
  · intro nodeid node listed
    have addresses := linked.distinct _ _ listed
    apply (List.Nodup.of_map _ addresses).map_on
    intro a memberA b memberB same
    apply inj_on_of_nodup_map addresses memberA memberB
    have first := linked.pointed _ _ listed a memberA
    have snd := linked.pointed _ _ listed b memberB
    rw [same, snd] at first
    exact (congrArg Prod.snd (Option.some.inj first)).symm
  · exact linked.counts

lemma find_address {blocks : List QueuedBlock} {entry} (addresses : (blocks.map QueuedBlock.address).Nodup)
    (member : entry ∈ blocks) : blocks.find? (fun other => other.address == entry.address) = some entry := by
  cases found : blocks.find? _ with
  | none =>
    have miss := find?_eq_none.mp found _ member
    simp at miss
  | some other =>
    have equal : other.address = entry.address := by simpa using find?_some found
    rw [inj_on_of_nodup_map addresses (mem_of_find?_eq_some found) member equal]

def without (state : InFlight) (nodeid : NodeId) (node : CNodeState) (entry : QueuedBlock) : InFlight :=
  { state with
    nQueuedValidatedHeaders := state.nQueuedValidatedHeaders - entry.fValidatedHeaders.toNat
    mapNodeState := state.mapNodeState.insert nodeid
      { vBlocksInFlight := node.vBlocksInFlight.filter fun other => other.address != entry.address
        nBlocksInFlight := node.nBlocksInFlight - 1
        nStallingSince := 0 }
    mapBlocksInFlight := state.mapBlocksInFlight.erase entry.hash }

lemma Linked.received_cases (linked : state.Linked) (hash : UInt256) :
    state.mapBlocksInFlight.lookup hash = none ∧ state.markBlockAsReceived hash = some state ∨
      ∃ nodeid node entry, state.mapNodeState.lookup nodeid = some node ∧ entry ∈ node.vBlocksInFlight ∧ entry.hash = hash ∧
        state.markBlockAsReceived hash = some (state.without nodeid node entry) := by
  unfold InFlight.markBlockAsReceived
  cases found : state.mapBlocksInFlight.lookup _ with
  | none => exact .inl ⟨rfl, rfl⟩
  | some pair =>
    obtain ⟨nodeid, iterator⟩ := pair
    obtain ⟨node, listed, entry, member, rfl, rfl⟩ := linked.leads _ _ _ found
    refine .inr ⟨_, _, _, listed, member, rfl, ?_⟩
    dsimp only
    rw [listed, bind_eq_bind, bind_some, find_address (linked.distinct _ _ listed) member]
    rfl

section
variable {node : CNodeState} {entry : QueuedBlock} (linked : state.Linked) (listed : state.mapNodeState.lookup nodeid = some node)
  (member : entry ∈ node.vBlocksInFlight)

include linked listed member

lemma Linked.owner {other node' block} (listed' : state.mapNodeState.lookup other = some node')
    (ins : block ∈ node'.vBlocksInFlight) (same : block.hash = entry.hash) : other = nodeid ∧ block.address = entry.address := by
  have first := linked.pointed _ _ listed' _ ins
  rw [same, linked.pointed _ _ listed _ member] at first
  have pair := Prod.mk.inj (Option.some.inj first)
  exact ⟨pair.1.symm, pair.2.symm⟩

lemma Linked.without : (state.without nodeid node entry).Linked := by
  have addresses := linked.distinct _ _ listed
  have perm := perm_without addresses member
  have kept : ∀ block, block ∈ node.vBlocksInFlight.filter (fun other => other.address != entry.address) ↔
      block ∈ node.vBlocksInFlight ∧ block.address ≠ entry.address := by
    intro block
    rw [mem_filter, bne_iff_ne]
  -- what is listed after the receipt was listed before, under another hash
  have pre : ∀ other node', (state.without nodeid node entry).mapNodeState.lookup other = some node' →
      ∃ old, state.mapNodeState.lookup other = some old ∧ node'.vBlocksInFlight.Sublist old.vBlocksInFlight ∧
        ∀ block ∈ node'.vBlocksInFlight, block.hash ≠ entry.hash := by
    intro other node' found
    change (state.mapNodeState.insert _ _).lookup _ = some _ at found
    rw [lookup_insert_ite] at found
    split at found
    · next own =>
      cases found
      refine ⟨_, own ▸ listed, filter_sublist, ?_⟩
      intro block ins same
      obtain ⟨ins, apart⟩ := (kept _).mp ins
      exact apart (linked.owner listed member listed ins same).2
    · next other' =>
      refine ⟨_, found, List.Sublist.refl _, ?_⟩
      intro block ins same
      exact other' (linked.owner listed member found ins same).1
  constructor
  · intro other node' found block ins
    obtain ⟨old, listed', sub, apart⟩ := pre _ _ found
    change (state.mapBlocksInFlight.erase _).lookup _ = _
    rw [lookup_erase_ite, if_neg (apart _ ins)]
    exact linked.pointed _ _ listed' _ (sub.subset ins)
  · intro hash other iterator found
    change (state.mapBlocksInFlight.erase _).lookup _ = _ at found
    rw [lookup_erase_ite] at found
    split at found
    · cases found
    · next apart =>
      obtain ⟨old, listed', block, ins, own, at'⟩ := linked.leads _ _ _ found
      change ∃ node', (state.mapNodeState.insert _ _).lookup _ = some _ ∧ _
      rw [lookup_insert_ite]
      split
      · next same =>
        subst same
        cases listed.symm.trans listed'
        refine ⟨_, rfl, _, (kept _).mpr ⟨ins, ?_⟩, own, at'⟩
        intro equal
        rw [inj_on_of_nodup_map addresses ins member equal] at own
        exact apart own.symm
      · exact ⟨_, listed', _, ins, own, at'⟩
  · intro other node' found
    obtain ⟨old, listed', sub, -⟩ := pre _ _ found
    exact (linked.distinct _ _ listed').sublist (sub.map _)
  · intro other node' found block ins
    obtain ⟨old, listed', sub, -⟩ := pre _ _ found
    exact linked.used _ _ listed' _ (sub.subset ins)
  · intro other node' found
    change (state.mapNodeState.insert _ _).lookup _ = some _ at found
    rw [lookup_insert_ite] at found
    split at found
    · cases found
      have length := perm.length_eq
      rw [length_cons] at length
      have count := linked.counts _ _ listed
      dsimp only
      omega
    · exact linked.counts _ _ found

lemma Linked.drift_without : (state.without nodeid node entry).drift = state.drift := by
  have count := (perm_without (linked.distinct _ _ listed) member).countP_eq QueuedBlock.fValidatedHeaders
  have total : (state.without nodeid node entry).inFlightValidated =
      state.inFlightValidated - weigh (fun node => validated node) (state.mapNodeState.lookup nodeid) +
        weigh (fun node => validated node) (some _) :=
    total_of_update _ fun other => lookup_insert_ite ..
  simp only [weigh, validated] at total
  unfold drift
  change state.nQueuedValidatedHeaders - entry.fValidatedHeaders.toNat - _ = _
  cases header : entry.fValidatedHeaders with
  | true => grind
  | false => grind
end

lemma Linked.markBlockAsReceived (linked : state.Linked) (hash) :
    ∃ state', state.markBlockAsReceived hash = some state' ∧ state'.Linked ∧ state'.drift = state.drift ∧
      state'.mapBlocksInFlight.lookup hash = none := by
  rcases linked.received_cases hash with ⟨absent, same⟩ | ⟨nodeid, node, entry, listed, member, rfl, done⟩
  · exact ⟨_, same, linked, rfl, absent⟩
  · exact ⟨_, done, linked.without listed member, linked.drift_without listed member, AList.lookup_erase _ _⟩

def withNew (state : InFlight) (nodeid : NodeId) (node : CNodeState) (newentry : QueuedBlock) : InFlight :=
  { nQueuedValidatedHeaders := state.nQueuedValidatedHeaders + newentry.fValidatedHeaders.toNat
    mapNodeState := state.mapNodeState.insert nodeid
      { node with vBlocksInFlight := node.vBlocksInFlight ++ [newentry], nBlocksInFlight := node.nBlocksInFlight + 1 }
    mapBlocksInFlight := state.mapBlocksInFlight.insert newentry.hash (nodeid, newentry.address)
    nextAddress := state.nextAddress + 1 }

section
variable {node : CNodeState} {newentry : QueuedBlock} (linked : state.Linked) (listed : state.mapNodeState.lookup nodeid = some node)
include linked listed

lemma Linked.withNew (absent : state.mapBlocksInFlight.lookup newentry.hash = none) (address : newentry.address = state.nextAddress) :
    (state.withNew nodeid node newentry).Linked := by
  have lookup : ∀ other, (state.withNew nodeid node newentry).mapNodeState.lookup other =
      if other = nodeid then
        some { node with vBlocksInFlight := node.vBlocksInFlight ++ [newentry], nBlocksInFlight := node.nBlocksInFlight + 1 }
      else state.mapNodeState.lookup other := fun other => lookup_insert_ite ..
  have pointer : ∀ hash, (state.withNew nodeid node newentry).mapBlocksInFlight.lookup hash =
      if hash = newentry.hash then some (nodeid, newentry.address) else state.mapBlocksInFlight.lookup hash :=
    fun hash => lookup_insert_ite ..
  have apart : ∀ other node', state.mapNodeState.lookup other = some node' → ∀ block ∈ node'.vBlocksInFlight,
      block.hash ≠ newentry.hash := by
    intro other node' found block ins same
    have present := linked.pointed _ _ found _ ins
    rw [same, absent] at present
    cases present
  constructor
  · intro other node' found block ins
    rw [lookup] at found
    rw [pointer]
    split at found
    · next own =>
      cases found
      rcases mem_append.mp ins with old | new
      · simpa [(apart _ _ listed _ old), own] using linked.pointed _ _ listed _ old
      · rw [mem_singleton.mp new, if_pos rfl, own]
    · rw [if_neg (apart _ _ found _ ins)]
      exact linked.pointed _ _ found _ ins
  · intro hash other iterator found
    rw [pointer] at found
    split at found
    · next own =>
      cases found
      rw [lookup, if_pos rfl]
      exact ⟨_, rfl, _, mem_append_right _ (mem_singleton_self _), own.symm, rfl⟩
    · obtain ⟨old, listed', block, ins, own, at'⟩ := linked.leads _ _ _ found
      rw [lookup]
      split
      · grind
      · exact ⟨_, listed', _, ins, own, at'⟩
  · intro other node' found
    rw [lookup] at found
    split at found
    · cases found
      rw [map_append]
      apply (linked.distinct _ _ listed).append (nodup_singleton _)
      intro a old new
      obtain ⟨block, ins, rfl⟩ := mem_map.mp old
      have below := linked.used _ _ listed _ ins
      have equal := mem_singleton.mp new
      omega
    · exact linked.distinct _ _ found
  · intro other node' found block ins
    rw [lookup] at found
    split at found
    · cases found
      rcases mem_append.mp ins with old | new
      · exact Nat.lt_succ_of_lt (linked.used _ _ listed _ old)
      · rw [mem_singleton.mp new, address]
        exact Nat.lt_succ_self _
    · exact Nat.lt_succ_of_lt (linked.used _ _ found _ ins)
  · intro other node' found
    rw [lookup] at found
    split at found
    · cases found
      have count := linked.counts _ _ listed
      rw [length_append, count]
      rfl
    · exact linked.counts _ _ found

omit linked in
lemma drift_withNew {newentry} : (state.withNew nodeid node newentry).drift = state.drift := by
  have total : (state.withNew nodeid node newentry).inFlightValidated =
      state.inFlightValidated - weigh (fun node => validated node) (state.mapNodeState.lookup nodeid) +
        weigh (fun node => validated node) (some _) :=
    total_of_update (fun _ node => validated node) fun other => lookup_insert_ite ..
  rw [listed] at total
  simp only [weigh, validated, countP_append, countP_singleton] at total
  unfold drift
  rw [total]
  change state.nQueuedValidatedHeaders + newentry.fValidatedHeaders.toNat - _ = _
  cases newentry.fValidatedHeaders with
  | true =>
    simp only [Bool.toNat_true, if_true]
    push_cast
    omega
  | false =>
    simp only [Bool.toNat_false, Bool.false_eq_true, if_false]
    push_cast
    omega
end

lemma Linked.markBlockAsInFlight (linked : state.Linked) {fHeader nTime}
    (done : state.markBlockAsInFlight nodeid hash fHeader nTime = some state') : state'.Linked ∧ state'.drift = state.drift := by
  obtain ⟨received, receipt, linked', drift, absent⟩ := linked.markBlockAsReceived _
  obtain ⟨_, -, done⟩ := bind_eq_some_iff.mp done
  obtain ⟨_, receipt', done⟩ := bind_eq_some_iff.mp done
  cases receipt.symm.trans receipt'
  obtain ⟨node, listed, done⟩ := bind_eq_some_iff.mp done
  cases done
  constructor
  · exact linked'.withNew listed absent rfl
  · rw [← drift]
    exact drift_withNew listed

lemma lookup_eraseAll (blocks : List QueuedBlock) (map : AssocMap UInt256 (NodeId × Nat)) (hash) :
    (blocks.foldl (fun map entry => map.erase entry.hash) map).lookup hash =
      if hash ∈ blocks.map QueuedBlock.hash then none else map.lookup hash := by
  induction blocks generalizing map with
  | nil => rfl
  | cons block blocks ih =>
    rw [foldl_cons, ih, lookup_erase_ite]
    by_cases own : hash = block.hash
    · simp [own]
    · simp [own]

lemma Linked.finalizeNode (linked : state.Linked) (done : state.finalizeNode nodeid = some state') :
    ∃ node, state.mapNodeState.lookup nodeid = some node ∧ state'.Linked ∧ state'.drift = state.drift + validated node := by
  obtain ⟨node, listed, done⟩ := bind_eq_some_iff.mp done
  cases done
  refine ⟨_, listed, ?_, ?_⟩
  · constructor
    · intro other node' found block ins
      rw [lookup_erase_ite] at found
      split at found
      · cases found
      · next apart =>
        rw [lookup_eraseAll, if_neg]
        · exact linked.pointed _ _ found _ ins
        · intro erased
          obtain ⟨entry, member, same⟩ := mem_map.mp erased
          exact apart (linked.owner listed member found ins same.symm).1
    · intro hash other iterator found
      rw [lookup_eraseAll] at found
      split at found
      · cases found
      · next kept =>
        obtain ⟨old, listed', block, ins, own, at'⟩ := linked.leads _ _ _ found
        rw [lookup_erase_ite, if_neg]
        · exact ⟨_, listed', _, ins, own, at'⟩
        · rintro rfl
          cases listed.symm.trans listed'
          exact kept (own ▸ mem_map_of_mem ins)
    · exact forall_erase _ linked.distinct
    · exact forall_erase _ linked.used
    · exact forall_erase _ linked.counts
  · unfold drift inFlightValidated
    rw [total_erase_of_present _ _ _ _ listed]
    dsimp only
    omega

lemma Linked.initializeNode (linked : state.Linked) (nodeid : NodeId) :
    (state.initializeNode nodeid).Linked ∧ (state.initializeNode nodeid).drift = state.drift := by
  unfold InFlight.initializeNode
  cases found : state.mapNodeState.lookup _ with
  | some node => exact ⟨linked, rfl⟩
  | none =>
    rw [isSome_none, if_neg Bool.false_ne_true]
    constructor
    · constructor
      · exact forall_insert linked.pointed fun _ ins => absurd ins not_mem_nil
      · intro hash other iterator pointed
        obtain ⟨node, listed, rest⟩ := linked.leads _ _ _ pointed
        refine ⟨_, ?_, rest⟩
        rw [lookup_insert_ite, if_neg]
        · exact listed
        · rintro rfl
          cases found.symm.trans listed
      · exact forall_insert linked.distinct nodup_nil
      · exact forall_insert linked.used fun _ ins => absurd ins not_mem_nil
      · exact forall_insert linked.counts rfl
    · unfold drift inFlightValidated
      rw [total_insert_of_absent _ _ _ _ found]
      simp [validated, CNodeState.fresh]

section
variable (linked : state.Linked)
include linked

lemma Linked.step {call} (done : state.step call = some state') :
    state'.Linked ∧ (state'.drift = state.drift ↔ state.Clean call) := by
  cases call with
  | initializeNode nodeid =>
    cases done
    obtain ⟨linked', drift⟩ := linked.initializeNode _
    exact ⟨linked', iff_of_true drift trivial⟩
  | finalizeNode nodeid =>
    obtain ⟨node, listed, linked', drift⟩ := linked.finalizeNode done
    refine ⟨linked', ?_⟩
    rw [drift]
    have none_validated : validated node = 0 ↔ ∀ entry ∈ node.vBlocksInFlight, entry.fValidatedHeaders = false := by
      unfold validated
      rw [Int.natCast_eq_zero, countP_eq_zero]
      simp
    constructor
    · intro same other found
      cases listed.symm.trans found
      exact none_validated.mp (by omega)
    · intro clean
      rw [none_validated.mpr (clean _ listed), add_zero]
  | markBlockAsReceived hash =>
    obtain ⟨received, receipt, linked', drift, -⟩ := linked.markBlockAsReceived _
    cases receipt.symm.trans done
    exact ⟨linked', iff_of_true drift trivial⟩
  | markBlockAsInFlight nodeid hash fHeader nTime =>
    obtain ⟨linked', drift⟩ := linked.markBlockAsInFlight done
    exact ⟨linked', iff_of_true drift trivial⟩

lemma Linked.accounted_iff : state.Accounted ↔ state.drift = 0 := by
  unfold drift
  constructor
  · intro accounted
    rw [accounted.queued, sub_self]
  · intro none
    exact ⟨linked.matched, by omega⟩

lemma Linked.accountedRun_iff (exact_count : state.drift = 0) {calls} :
    AccountedRun state calls ↔ CleanRun state calls := by
  induction calls generalizing state with
  | nil => exact iff_of_true (linked.accounted_iff.mpr exact_count) trivial
  | cons call calls ih =>
    constructor
    · rintro ⟨-, run⟩ next done
      obtain ⟨linked', clean⟩ := linked.step done
      have accounted : next.Accounted := by
        have later := run _ done
        cases calls with
        | nil => exact later
        | cons => exact later.1
      have still := linked'.accounted_iff.mp accounted
      exact ⟨clean.mp (still.trans exact_count.symm), (ih linked' still).mp (run _ done)⟩
    · intro run
      refine ⟨linked.accounted_iff.mpr exact_count, fun next done => ?_⟩
      obtain ⟨linked', clean⟩ := linked.step done
      obtain ⟨tidy, later⟩ := run _ done
      exact (ih linked' ((clean.mpr tidy).trans exact_count)).mpr later
end

def runFlight (state : InFlight) (calls : List FlightCall) : Option InFlight := calls.foldlM step state

lemma Linked.runFlight (linked : state.Linked) {calls} (done : state.runFlight calls = some state') : state'.Linked := by
  induction calls generalizing state with
  | nil =>
    cases done
    exact linked
  | cons call calls ih =>
    obtain ⟨next, first, rest⟩ := bind_eq_some_iff.mp done
    exact ih (linked.step first).1 rest

/-- Map, lists and node counters agree; the global one does exactly when no node departs with a validated request. -/
theorem inFlight_accounted_iff (calls : List FlightCall) : (∀ state, noneInFlight.runFlight calls = some state → state.Matched) ∧
      (AccountedRun noneInFlight calls ↔ CleanRun noneInFlight calls) := by
  constructor
  · intro state done
    exact (linked_none.runFlight done).matched
  · exact linked_none.accountedRun_iff rfl

theorem departed_node_still_counted : (noneInFlight.runFlight [.initializeNode 1, .markBlockAsInFlight 1 7 true 0, .finalizeNode 1]).map
      (fun state => (state.nQueuedValidatedHeaders, state.inFlightValidated, state.mapBlocksInFlight.entries.length)) = some (1, 0, 0) := by
  decide

end InFlight

end Peony
