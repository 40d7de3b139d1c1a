import Peony.Masternode.Messages
import Peony.Masternode.Payments

/-! `CheckAndRemove` on the messages seen: the loop over the announcements erases an entry before it reads the hash of the entry at
hand, which by then is the next one. -/

namespace Peony
open List MnManager
variable {Digest : Type}
/-- The maps of the messages seen, in the order of their keys. -/
structure SeenMaps (Digest : Type) where
  mapSeenMasternodeBroadcast : List (Digest × CMasternode)
  mapSeenMasternodePing : List (Digest × CMasternodePing)
  mapSeenSyncMNB : List (Digest × Int)

def isOutdated (now sigTime : Int) : Bool := decide (sigTime < now - MASTERNODE_REMOVAL_SECONDS * 2)

def keysOf (erased : CMasternode → Bool) (entries : List (Digest × CMasternode)) : List Digest :=
  (entries.filter fun entry => erased entry.2).map Prod.fst

lemma mem_keysOf {erased : CMasternode → Bool} {entries} {key : Digest} :
    key ∈ keysOf erased entries ↔ ∃ mnb, (key, mnb) ∈ entries ∧ erased mnb = true := by simp [keysOf]

variable [DecidableEq Digest]
def eraseKeys (keys : List Digest) (sync : List (Digest × Int)) : List (Digest × Int) :=
  sync.filter fun entry => decide (entry.1 ∉ keys)

/-- What is erased for one masternode that is removed. -/
def SeenMaps.forget (maps : SeenMaps Digest) (vin : CTxIn) : SeenMaps Digest :=
  { maps with
    mapSeenMasternodeBroadcast := maps.mapSeenMasternodeBroadcast.filter fun entry => entry.2.vin != vin
    mapSeenSyncMNB := eraseKeys (keysOf (·.vin == vin) maps.mapSeenMasternodeBroadcast) maps.mapSeenSyncMNB }

/-- `erase(it3++)`, then `(*it3).second.GetHash()`. -/
def dropOutdated (writer : HashWriter Digest) (now : Int) : List (Digest × CMasternode) → List (Digest × Int) →
    Except Failure (List (Digest × CMasternode) × List (Digest × Int))
  | [], sync => .ok ([], sync)
  | entry :: rest, sync =>
    if isOutdated now entry.2.lastPing.sigTime then
      match rest with
      | [] => .error (.fault "(*it3).second.GetHash()")
      | next :: _ => dropOutdated writer now rest (eraseKeys [next.2.broadcastHash writer] sync)
    else do
      let (kept, sync) ← dropOutdated writer now rest sync
      return (entry :: kept, sync)

def MasternodeList.removedInputs (list : MasternodeList) (clock : MnClock) (forceExpiredRemoval : Bool) : List CTxIn :=
  ((list.check clock).masternodes.filter (isRemovable forceExpiredRemoval)).map (·.vin)

variable (writer : HashWriter Digest) (now : Int)
def SeenMaps.checkAndRemove (removed : List CTxIn) (maps : SeenMaps Digest) : Except Failure (SeenMaps Digest) := do
  let maps := removed.foldl SeenMaps.forget maps
  let (broadcasts, sync) ← dropOutdated writer now maps.mapSeenMasternodeBroadcast maps.mapSeenSyncMNB
  return ⟨broadcasts, maps.mapSeenMasternodePing.filter fun entry => !isOutdated now entry.2.sigTime, sync⟩

/-- The cleanup as it is meant. -/
def SeenMaps.cleaned (now : Int) (removed : List CTxIn) (maps : SeenMaps Digest) : SeenMaps Digest :=
  let erased (mnb : CMasternode) : Bool := removed.contains mnb.vin || isOutdated now mnb.lastPing.sigTime
  ⟨maps.mapSeenMasternodeBroadcast.filter fun entry => !erased entry.2,
    maps.mapSeenMasternodePing.filter fun entry => !isOutdated now entry.2.sigTime,
    eraseKeys (keysOf erased maps.mapSeenMasternodeBroadcast) maps.mapSeenSyncMNB⟩

/-- The hashes of the announcements that come next after an outdated one. -/
def followers (writer : HashWriter Digest) (now : Int) : List (Digest × CMasternode) → List Digest
  | entry :: next :: rest =>
    (if isOutdated now entry.2.lastPing.sigTime then [next.2.broadcastHash writer] else []) ++ followers writer now (next :: rest)
  | _ => []

lemma eraseKeys_append (first snd : List Digest) (sync) :
    eraseKeys (first ++ snd) sync = eraseKeys snd (eraseKeys first sync) := by simp [eraseKeys, filter_filter, Bool.and_comm]

lemma eraseKeys_congr_iff {keys keys' : List Digest} {sync} :
    eraseKeys keys sync = eraseKeys keys' sync ↔ ∀ entry ∈ sync, entry.1 ∈ keys ↔ entry.1 ∈ keys' := by
  constructor
  · intro same entry mem
    have kept := congrArg (entry ∈ ·) same
    simpa [eraseKeys, mem, not_iff_not] using kept
  · intro alike
    apply filter_congr
    intro entry mem
    simp [alike _ mem]

lemma dropOutdated_eq (entries : List (Digest × CMasternode)) (sync) : dropOutdated writer now entries sync =
      if entries.getLast?.any fun last => isOutdated now last.2.lastPing.sigTime then .error (.fault "(*it3).second.GetHash()")
      else .ok (entries.filter fun entry => !isOutdated now entry.2.lastPing.sigTime, eraseKeys (followers writer now entries) sync) := by
  induction entries generalizing sync with
  | nil => simp [dropOutdated, followers, eraseKeys]
  | cons entry rest ih =>
    cases outdated : isOutdated now entry.2.lastPing.sigTime with
    | true =>
      cases rest with
      | nil => simp [dropOutdated, outdated]
      | cons next rest =>
        rw [dropOutdated, if_pos outdated, ih, followers, if_pos outdated, eraseKeys_append]
        simp [outdated]
    | false =>
      simp only [dropOutdated, outdated, Bool.false_eq_true, if_false]
      rw [ih]
      cases rest with
      | nil => simp [outdated, followers, bind, Except.bind, pure, Except.pure]
      | cons next rest =>
        simp only [getLast?_cons_cons, followers, outdated]
        split <;> simp [bind, Except.bind, pure, Except.pure, outdated]

lemma foldl_forget (gone : List CTxIn) (maps : SeenMaps Digest) : gone.foldl SeenMaps.forget maps = { maps with
        mapSeenMasternodeBroadcast := maps.mapSeenMasternodeBroadcast.filter fun entry => !gone.contains entry.2.vin
        mapSeenSyncMNB := eraseKeys (keysOf (gone.contains ·.vin) maps.mapSeenMasternodeBroadcast) maps.mapSeenSyncMNB } := by
  induction gone generalizing maps with
  | nil => simp [eraseKeys, keysOf]
  | cons vin gone ih =>
    rw [foldl_cons, ih]
    simp only [SeenMaps.forget, SeenMaps.mk.injEq, filter_filter, true_and]
    constructor
    · apply filter_congr
      grind
    · rw [← eraseKeys_append, eraseKeys_congr_iff]
      simp only [mem_append, mem_keysOf]
      grind

/-- The last announcement is not outdated, and the keys of outdated ones are those of the announcements that follow one. -/
theorem seenMaps_cleaned_iff (writer : HashWriter Digest) (now : Int) (list : MasternodeList) (clock : MnClock)
    (forceExpiredRemoval : Bool) (maps : SeenMaps Digest) :
    let removed := list.removedInputs clock forceExpiredRemoval
    let listed := maps.mapSeenMasternodeBroadcast.filter fun entry => !removed.contains entry.2.vin
    maps.checkAndRemove writer now removed = .ok (maps.cleaned now removed) ↔
      (listed.getLast?.any fun last => isOutdated now last.2.lastPing.sigTime) = false ∧
        ∀ entry ∈ maps.mapSeenSyncMNB, entry.1 ∉ keysOf (removed.contains ·.vin) maps.mapSeenMasternodeBroadcast →
          (entry.1 ∈ followers writer now listed ↔ entry.1 ∈ keysOf (fun mnb => isOutdated now mnb.lastPing.sigTime) listed) := by
  intro removed listed
  have keys : ∀ key, key ∈ keysOf (fun mnb => removed.contains mnb.vin || isOutdated now mnb.lastPing.sigTime)
      maps.mapSeenMasternodeBroadcast ↔ key ∈ keysOf (removed.contains ·.vin) maps.mapSeenMasternodeBroadcast ∨
        key ∈ keysOf (fun mnb => isOutdated now mnb.lastPing.sigTime) listed := by
    simp only [listed, mem_keysOf, mem_filter]
    grind
  rw [SeenMaps.checkAndRemove, foldl_forget]
  dsimp only
  rw [dropOutdated_eq]
  cases listed.getLast?.any fun last => isOutdated _ _ with
  | true => simp [bind, Except.bind]
  | false =>
    change Except.ok _ = Except.ok _ ↔ _
    rw [Except.ok.injEq, SeenMaps.cleaned, SeenMaps.mk.injEq, ← eraseKeys_append, eraseKeys_congr_iff]
    simp only [filter_filter, keys, mem_append, Bool.not_or, Bool.and_comm, true_and]
    grind

def seenAnnouncements (mnbs : List CMasternode) : SeenMaps (List HashItem) :=
  ⟨mnbs.map fun mnb => (mnb.broadcastHash startContext.writer, mnb), [],
    mnbs.map fun mnb => (mnb.broadcastHash startContext.writer, 1)⟩

def outdatedAnnouncement : CMasternode :=
  { announcement 0 with sigTime := 0, lastPing := { (announcement 0).lastPing with sigTime := 0 } }

/-- The first of two announcements is outdated, and the second is erased; alone, the end of the map is read. -/
theorem cleanup_erases_next : (seenAnnouncements [outdatedAnnouncement, announcement 1]).checkAndRemove startContext.writer 1700000000 [] =
        .ok { seenAnnouncements [outdatedAnnouncement] with
          mapSeenMasternodeBroadcast := (seenAnnouncements [announcement 1]).mapSeenMasternodeBroadcast } ∧
      (seenAnnouncements [outdatedAnnouncement]).checkAndRemove startContext.writer 1700000000 [] =
        .error (.fault "(*it3).second.GetHash()") :=
  ⟨rfl, rfl⟩

end Peony
