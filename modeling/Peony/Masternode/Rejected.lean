import Peony.Masternode.Messages
import Peony.Masternode.Payments

/-! What a rejected broadcast leaves of the list: the old entry of its input goes before the inputs are checked, and `Add` takes
the entry of a known script out of the vector before it returns false. -/

namespace Peony
open List MasternodeList

namespace MasternodeList

/-- The two lists look alike through the vector and through every overload of `Find`. -/
structure SeesSame (list list' : MasternodeList) : Prop where
  vector : list'.masternodes = list.masternodes
  byScript : ∀ payee, (list'.findScript payee).bind list'.heap.lookup = (list.findScript payee).bind list.heap.lookup
  byTxIn : ∀ vin, (list'.findTxIn vin).bind list'.heap.lookup = (list.findTxIn vin).bind list.heap.lookup
  byPubKey : ∀ key, (list'.findPubKey key).bind list'.heap.lookup = (list.findPubKey key).bind list.heap.lookup

def adds (getID : CPubKey → List UInt8) (list : MasternodeList) (mn : CMasternode) : Bool :=
  mn.isEnabled && (list.findScript (mn.payee getID)).isNone && (list.findTxIn mn.vin).isNone

variable {list : MasternodeList}
lemma SeesSame.refl (list) : SeesSame list list := ⟨rfl, fun _ => rfl, fun _ => rfl, fun _ => rfl⟩

lemma SeesSame.count {list'} (same : SeesSame list list') :
    list'.vMasternodes.countP (fun pmn => (list'.heap.lookup pmn).isSome) =
      list.vMasternodes.countP fun pmn => (list.heap.lookup pmn).isSome := by
  rw [← length_filterMap_eq_countP, ← length_filterMap_eq_countP]
  exact congrArg _ same.vector

lemma countP_erase_lt {pmn mn} (mem : pmn ∈ list.vMasternodes) (live : list.heap.lookup pmn = some mn) :
    (list.vMasternodes.erase pmn).countP (fun pmn => (list.heap.lookup pmn).isSome) <
      list.vMasternodes.countP fun pmn => (list.heap.lookup pmn).isSome := by
  have some : (list.heap.lookup pmn).isSome = true := by simp [live]
  rw [countP_erase, if_pos ⟨mem, some⟩]
  exact Nat.sub_lt (countP_pos_iff.mpr ⟨_, mem, some⟩) (by decide)

lemma sees_dropPointer_iff (pmn) :
    SeesSame list (list.dropPointer pmn) ↔ ∀ mn, pmn ∈ list.vMasternodes → list.heap.lookup pmn ≠ some mn := by
  constructor
  · intro same mn mem live
    exact (countP_erase_lt mem live).ne same.count
  · intro dead
    refine ⟨?_, fun _ => rfl, fun _ => rfl, fun _ => rfl⟩
    change (list.vMasternodes.erase _).filterMap list.heap.lookup = list.vMasternodes.filterMap _
    by_cases mem : pmn ∈ list.vMasternodes
    · obtain ⟨front, back, -, whole, rest⟩ := exists_erase_eq mem
      have none : list.heap.lookup pmn = none := Option.eq_none_iff_forall_ne_some.mpr fun mn => dead mn mem
      rw [rest, whole]
      simp [none]
    · rw [erase_of_not_mem mem]

lemma sees_remove_iff (getID vin) :
    SeesSame list (list.remove getID vin) ↔ ∀ mn ∈ list.masternodes, mn.vin ≠ vin := by
  unfold remove
  split
  · next absent =>
    simp only [find?_eq_none] at absent
    refine iff_of_true (SeesSame.refl _) ?_
    intro mn listed other
    obtain ⟨pmn, mem, live⟩ := mem_filterMap.mp listed
    exact absent _ mem (by simp [live, other])
  · next pmn found =>
    have mem := mem_of_find?_eq_some found
    have input := find?_some found
    cases live : list.heap.lookup _ with
    | none => simp [live] at input
    | some mn =>
      simp only [live, Option.any_some, beq_iff_eq] at input
      refine iff_of_false ?_ fun apart => apart mn (mem_filterMap.mpr ⟨_, mem, live⟩) input
      intro same
      -- the other pointers to the deleted masternode, if there are any, lead nowhere
      apply (countP_erase_lt mem live).not_ge
      rw [← same.count]
      apply countP_mono_left
      intro other _ live
      change (AList.lookup _ (AList.erase _ _)).isSome = true at live
      rw [AssocMap.lookup_erase_ite] at live
      grind

end MasternodeList

namespace MnManager
variable {Digest : Type} [DecidableEq Digest] {context : ManagerContext Digest} {manager : MnManager Digest} {mnb : CMasternode}
/-- The ping is right, and the input is known for a masternode that is not enabled. -/
def Replaces (context : ManagerContext Digest) (list : MasternodeList) (mnb mn : CMasternode) : Prop :=
  mnb.lastPing.isNull = false ∧ (list.pingCheckAndUpdate context.toMnContext mnb.lastPing false true).2 = true ∧
    list.find mnb.vin = some mn ∧ mn.isEnabled = false

lemma checkInputsAndAdd_rejected (rejected : (manager.checkInputsAndAdd context mnb).2 = false) :
    ((manager.checkInputsAndAdd context mnb).1.list = manager.list ∧ ∀ mn, ¬ Replaces context manager.list mnb mn) ∨
      ∃ mn, Replaces context manager.list mnb mn ∧
        (manager.checkInputsAndAdd context mnb).1.list = manager.list.remove context.getID mn.vin := by
  unfold checkInputsAndAdd at rejected ⊢
  grind [addChecked, Replaces, find]

/-- A rejected broadcast changes nothing exactly if no listed masternode has the input of one that it replaces, a
rejected `Add` exactly if the known masternode is not in the vector. -/
theorem rejected_unchanged_iff (context : ManagerContext Digest) (manager : MnManager Digest) (mnb : CMasternode) :
    ((manager.checkInputsAndAdd context mnb).2 = false →
      (manager.list.SeesSame (manager.checkInputsAndAdd context mnb).1.list ↔
        ∀ mn, Replaces context manager.list mnb mn → ∀ other ∈ manager.list.masternodes, other.vin ≠ mn.vin)) ∧
    (manager.list.adds context.getID mnb = false →
      (manager.list.SeesSame (manager.list.add context.getID mnb) ↔
        ∀ mn pmn, mnb.isEnabled = true → manager.list.findScript (mnb.payee context.getID) = some pmn →
          pmn ∈ manager.list.vMasternodes → manager.list.heap.lookup pmn ≠ some mn)) := by
  constructor
  · intro rejected
    rcases checkInputsAndAdd_rejected rejected with ⟨same, none⟩ | ⟨mn, replaces, removed⟩
    · rw [same]
      exact iff_of_true (.refl _) fun mn replaces => absurd replaces (none mn)
    · rw [removed, sees_remove_iff]
      constructor
      · intro apart mn' replaces'
        cases replaces.2.2.1.symm.trans replaces'.2.2.1
        exact apart
      · intro apart
        exact apart mn replaces
  · intro rejected
    unfold adds at rejected
    unfold add
    cases enabled : mnb.isEnabled with
    | false => simpa using MasternodeList.SeesSame.refl _
    | true =>
      cases script : manager.list.findScript _ with
      | some pmn => simpa using @MasternodeList.sees_dropPointer_iff _ _
      | none =>
        cases input : manager.list.findTxIn _ with
        | none => simp [enabled, script, input] at rejected
        | some pmn => simpa using MasternodeList.SeesSame.refl _

def expiredManager : MnManager (List HashItem) :=
  ⟨(⟨∅, [], ∅, ∅, ∅⟩ : MasternodeList).push startContext.getID { announcement 0 with activeState := .expired }, ∅, ∅⟩

/-- An announcement for an expired masternode is rejected with its inputs, and takes the masternode along; so does an
`Add` for another input of one owner. -/
theorem rejected_broadcast_removes :
    (expiredManager.checkInputsAndAdd { startContext with acceptsInputs := fun _ => false, checkPingSignature := fun _ _ => true }
        (announcement 0)).2 = false ∧
      (expiredManager.checkInputsAndAdd { startContext with acceptsInputs := fun _ => false, checkPingSignature := fun _ _ => true }
        (announcement 0)).1.list.masternodes = [] ∧
      expiredManager.list.adds startContext.getID (announcement 1) = false ∧
      (expiredManager.list.add startContext.getID (announcement 1)).masternodes = [] ∧
      expiredManager.list.masternodes ≠ [] := by decide

end MnManager

end Peony
