import Peony.Masternode.Listing

namespace Peony

namespace MasternodeList
variable {mnb : CMasternode}
section
variable {κ : Type} {key : CMasternode → κ} {list list' list'' : MasternodeList} {pmn : Nat} {mn : CMasternode}
structure SameBy (key : CMasternode → κ) (list list' : MasternodeList) : Prop where
  vector : list'.vMasternodes = list.vMasternodes
  keys : ∀ pmn, (list'.heap.lookup pmn).map key = (list.heap.lookup pmn).map key

lemma SameBy.refl (list) : SameBy key list list := ⟨rfl, fun _ => rfl⟩
lemma SameBy.symm (same : SameBy key list list') : SameBy key list' list := ⟨same.vector.symm, fun _ => (same.keys _).symm⟩

lemma SameBy.trans (first : SameBy key list list') (snd : SameBy key list' list'') : SameBy key list list'' :=
  ⟨snd.vector.trans first.vector, fun _ => (snd.keys _).trans (first.keys _)⟩

lemma SameBy.modify {f} (keeps : ∀ mn, list.heap.lookup pmn = some mn → key (f mn) = key mn) :
    SameBy key list (list.modify pmn f) := by
  unfold MasternodeList.modify
  cases found : list.heap.lookup _ with
  | none => exact SameBy.refl _
  | some mn =>
    refine ⟨rfl, fun other => ?_⟩
    rw [AssocMap.lookup_insert_ite]
    split
    · grind
    · rfl

lemma Retouched.sameBy (steadfast : Steadfast key) (retouched : Retouched list list') : SameBy key list list' := by
  induction retouched with
  | refl => exact SameBy.refl _
  | modify pmn _ touches ih => exact ih.trans (SameBy.modify fun mn found => (touches mn found).key_eq steadfast)

lemma updateFromNewBroadcast_absent (ctx) (absent : list.heap.lookup pmn = none) :
    list.updateFromNewBroadcast ctx pmn mnb = list := by
  unfold MasternodeList.updateFromNewBroadcast
  rw [absent]

lemma updateFromNewBroadcast_older (ctx) (found : list.heap.lookup pmn = some mn)
    (older : ¬ mn.sigTime < mnb.sigTime) : list.updateFromNewBroadcast ctx pmn mnb = list := by
  unfold MasternodeList.updateFromNewBroadcast
  rw [found]
  exact if_neg older

variable (steadfast : Steadfast key) (takes : ∀ mn, key (mn.takeBroadcast mnb) = key mn)
include steadfast takes

lemma SameBy.update
    (ctx pmn list) : SameBy key list (list.updateFromNewBroadcast ctx pmn mnb) := by
  cases found : list.heap.lookup _ with
  | none =>
    rw [updateFromNewBroadcast_absent _ found]
    exact SameBy.refl _
  | some mn =>
    by_cases newer : mn.sigTime < mnb.sigTime
    · have taken : SameBy key list (list.modify pmn (·.takeBroadcast mnb)) := SameBy.modify fun mn _ => takes mn
      exact taken.trans ((retouched_update _ found newer).sameBy steadfast)
    · rw [updateFromNewBroadcast_older _ found newer]
      exact SameBy.refl _

lemma SameBy.checkAndUpdate (getID ctx list) :
    SameBy key list (list.checkAndUpdate getID ctx mnb).1 := by
  rcases checkAndUpdate_cases _ _ _ _ with ⟨pmn, mn, -, res⟩ | ⟨-, res⟩
  · rw [res]
    exact (SameBy.update steadfast takes _ _ _).trans (SameBy.modify fun mn _ => steadfast.check _ mn)
  · rw [res]
    exact SameBy.refl _
end

variable {good : CMasternode → Prop} {getID : CPubKey → List UInt8} {list list' : MasternodeList} {pmn : Nat} {mn : CMasternode}
def Every (good : CMasternode → Prop) (list : MasternodeList) : Prop := ∀ pmn mn, list.entries pmn = some mn → good mn

lemma SameBy.every_iff {κ : Type} {key : CMasternode → κ} (keyed : ∀ mn mn', key mn = key mn' → (good mn ↔ good mn'))
    (same : SameBy key list list') : list'.Every good ↔ list.Every good := by
  have transfer : ∀ {first snd : MasternodeList}, SameBy key first snd → first.Every good → snd.Every good := by
    intro first snd same every pmn mn held
    obtain ⟨mem, found⟩ := entries_eq_some.mp held
    have keys := same.keys pmn
    rw [found] at keys
    obtain ⟨old, old_found, equal⟩ := Option.map_eq_some_iff.mp keys.symm
    exact (keyed _ mn equal).mp (every _ _ (entries_eq_some.mpr ⟨same.vector ▸ mem, old_found⟩))
  exact ⟨transfer same.symm, transfer same⟩

lemma every_empty : empty.Every good := by
  intro pmn mn held
  cases held

section
variable (every : list.Every good)
include every

lemma Every.mono (fewer : ∀ pmn mn, list'.entries pmn = some mn → list.entries pmn = some mn) : list'.Every good :=
  fun _ mn held => every _ mn (fewer _ mn held)

lemma Every.dropPointer (pmn) : (list.dropPointer pmn).Every good := by
  apply every.mono
  intro other mn held
  obtain ⟨mem, found⟩ := entries_eq_some.mp held
  exact entries_eq_some.mpr ⟨List.mem_of_mem_erase mem, found⟩

lemma Every.delete (pmn mn) : (list.delete getID pmn mn).Every good := by
  apply every.mono
  intro other mn' held
  obtain ⟨mem, found⟩ := entries_eq_some.mp held
  change (list.heap.erase _).lookup _ = some _ at found
  rw [AssocMap.lookup_erase_ite] at found
  split at found
  · cases found
  · exact entries_eq_some.mpr ⟨List.mem_of_mem_erase mem, found⟩

lemma Every.push (new : good mn) : (list.push getID mn).Every good := by
  intro other mn' held
  obtain ⟨mem, found⟩ := entries_eq_some.mp held
  change (list.heap.insert _ mn).lookup _ = some _ at found
  rw [AssocMap.lookup_insert_ite] at found
  split at found
  · cases found
    exact new
  · next apart =>
    have old : other ∈ list.vMasternodes := by
      rcases List.mem_append.mp mem with old | last
      · exact old
      · grind
    exact every _ _ (entries_eq_some.mpr ⟨old, found⟩)

lemma Every.add (new : mn.isEnabled = true → good mn) : (list.add getID mn).Every good := by
  unfold MasternodeList.add
  split
  · exact every
  · next enabled =>
    split
    · exact every.dropPointer _
    · split
      · exact every.push (new (by simpa using enabled))
      · exact every

lemma Every.remove (vin) : (list.remove getID vin).Every good := by
  unfold MasternodeList.remove
  split
  · exact every
  · split
    · exact every
    · exact every.delete _ _
end

lemma Every.deleteRemovable (forceExpiredRemoval) (pmns : List Nat) (every : list.Every good) : (pmns.foldl (fun list pmn =>
      match list.heap.lookup pmn with
      | none => list
      | some mn => if isRemovable forceExpiredRemoval mn then list.delete getID pmn mn else list) list).Every good := by
  induction pmns generalizing list with
  | nil => exact every
  | cons pmn pmns ih =>
    apply ih
    dsimp only
    split
    · exact every
    · split
      · exact every.delete _ _
      · exact every

lemma Every.makeRoom {room ctx} (every : list.Every good)
    (made : list.makeRoom getID ctx mnb = some room) : room.Every good := by
  unfold MasternodeList.makeRoom at made
  split_ifs at made
  split at made
  · cases made
    exact every
  · split at made
    · cases made
    · split_ifs at made
      cases made
      exact every.remove _

lemma Every.checkInputsAndAdd (every : list.Every good) (ctx) (new : mnb.isEnabled = true → good mnb) :
    (list.checkInputsAndAdd getID ctx mnb).Every good := by
  unfold MasternodeList.checkInputsAndAdd
  cases made : list.makeRoom _ _ _ with
  | none => exact every
  | some room =>
    have roomy := every.makeRoom made
    dsimp only
    split
    · exact roomy.add new
    · exact roomy

end MasternodeList

end Peony
