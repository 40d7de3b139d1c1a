import Peony.BlockIndex.Shape

/-! The invariant behind `CheckBlockIndex`, and the calls that keep it whatever they are given. -/

namespace Peony
open BlockTree

/-- Work and counts. The blocks of `queue` have data and linked parents, but are not linked yet. -/
structure Counted (queue : List UInt256) (tree : BlockTree) : Prop where
  work : ∀ h p, h ∈ tree.mapBlockIndex → (tree.entry h).pprev = some p → (tree.entry p).nChainWork < (tree.entry h).nChainWork
  data : ∀ h ∈ tree.mapBlockIndex, ((tree.entry h).fHaveData = true ↔ (tree.entry h).nTx ≠ 0)
  linked : ∀ h ∈ tree.mapBlockIndex, h ∉ queue →
    ((tree.entry h).nChainTx ≠ 0 ↔ (tree.entry h).fHaveData = true ∧ ∀ p, (tree.entry h).pprev = some p → (tree.entry p).nChainTx ≠ 0)
  queued : ∀ h ∈ queue, h ∈ tree.mapBlockIndex ∧ (tree.entry h).nChainTx = 0 ∧ (tree.entry h).fHaveData = true ∧
    ∀ p, (tree.entry h).pprev = some p → (tree.entry p).nChainTx ≠ 0
  queuedOnce : queue.Nodup
  sequence : ∀ h ∈ tree.mapBlockIndex, (tree.entry h).nChainTx = 0 → (tree.entry h).nSequenceId = 0
  waits : ∀ p h, (p, h) ∈ tree.mapBlocksUnlinked →
    (tree.entry h).pprev = some p ∧ (tree.entry h).fHaveData = true ∧ (tree.entry h).nChainTx = 0 ∧ h ∉ queue
  waiting : ∀ h p, h ∈ tree.mapBlockIndex → (tree.entry h).pprev = some p → (tree.entry h).fHaveData = true →
    (tree.entry h).nChainTx = 0 → h ∉ queue → (p, h) ∈ tree.mapBlocksUnlinked
  waitsOnce : tree.mapBlocksUnlinked.Nodup

/-- From `BLOCK_VALID_CHAIN` on a level is one of the parent too, the genesis block aside. -/
structure Levelled (tree : BlockTree) : Prop where
  valid : ∀ h ∈ tree.mapBlockIndex, BLOCK_VALID_TREE ≤ (tree.entry h).nValid
  transactions : ∀ h ∈ tree.mapBlockIndex, (BLOCK_VALID_TRANSACTIONS ≤ (tree.entry h).nValid ↔ (tree.entry h).nTx ≠ 0)
  inherited : ∀ h p, h ∈ tree.mapBlockIndex → (tree.entry h).pprev = some p → ∀ n, BLOCK_VALID_CHAIN ≤ n → n ≤ (tree.entry h).nValid →
    (tree.entry p).pprev = none ∨ n ≤ (tree.entry p).nValid
  active : ∀ h ∈ tree.chainActive, (tree.entry h).pprev = none ∨ BLOCK_VALID_SCRIPTS ≤ (tree.entry h).nValid

/-- What could be the tip and is not failed is a candidate. -/
structure Selected (tree : BlockTree) : Prop where
  active : ∀ h ∈ tree.chainActive, (tree.entry h).failed = false ∧ (tree.entry h).nChainTx ≠ 0
  failed : ∀ h ∈ tree.mapBlockIndex, (tree.entry h).failed = true → ∃ a ∈ tree.lineage h, (tree.entry a).fFailedValid = true
  linked : ∀ c ∈ tree.setBlockIndexCandidates, (tree.entry c).nChainTx ≠ 0
  best : ∀ c ∈ tree.setBlockIndexCandidates, tree.belowTip c = false
  all : ∀ h ∈ tree.mapBlockIndex, (tree.entry h).nChainTx ≠ 0 → (tree.entry h).failed = false → tree.belowTip h = false →
    h ∈ tree.setBlockIndexCandidates

structure Linking (queue : List UInt256) (tree : BlockTree) : Prop where
  formed : WellFormed tree
  counted : Counted queue tree
  levelled : Levelled tree
  selected : Selected tree

abbrev Consistent (tree : BlockTree) : Prop := Linking [] tree

namespace Linking
variable {queue : List UInt256} {tree : BlockTree} {h a : UInt256}
section
variable (sound : Linking queue tree) (held : h ∈ tree.mapBlockIndex) (member : a ∈ tree.lineage h)
include sound held member

lemma work_of_mem : a = h ∨ (tree.entry a).nChainWork < (tree.entry h).nChainWork :=
  sound.formed.graded.lt_of_mem sound.counted.work held member

lemma rank_of_mem : tree.rank a ≤ tree.rank h := by
  rcases sound.work_of_mem held member with rfl | less
  · exact le_refl _
  · exact (tree.rank_lt_of_work less).le
end

lemma tip_mem (sound : Linking queue tree) {tip} (top : tree.tip = some tip) : tip ∈ tree.mapBlockIndex := by
  obtain ⟨tip', held, top', -⟩ := sound.formed.exists_tip
  cases top.symm.trans top'
  exact held

lemma tip_active {tip} (top : tree.tip = some tip) : tip ∈ tree.chainActive := List.mem_of_head? top
lemma active_mem (sound : Linking queue tree) (member : a ∈ tree.chainActive) : a ∈ tree.mapBlockIndex := by
  obtain ⟨tip, held, chain⟩ := sound.formed.chain
  rw [chain] at member
  exact sound.formed.graded.known_of_mem held member

end Linking

namespace Consistent
open Linking
variable {tree : BlockTree} {h a : UInt256}
section
variable (sound : Consistent tree) (held : h ∈ tree.mapBlockIndex)
include sound held

lemma linked_of_mem (link : (tree.entry h).nChainTx ≠ 0) (member : a ∈ tree.lineage h) : (tree.entry a).nChainTx ≠ 0 := by
  apply sound.formed.graded.all_of_up _ held link a member
  intro b p held up link
  exact ((sound.counted.linked b held List.not_mem_nil).mp link).2 p up

lemma data_of_linked (link : (tree.entry h).nChainTx ≠ 0) :
    (tree.entry h).fHaveData = true := ((sound.counted.linked h held List.not_mem_nil).mp link).1

lemma linked_iff : (tree.entry h).nChainTx ≠ 0 ↔ ∀ a ∈ tree.lineage h, (tree.entry a).fHaveData = true := by
  constructor
  · intro link a member
    exact sound.data_of_linked (sound.formed.graded.known_of_mem held member) (sound.linked_of_mem held link member)
  · apply sound.formed.graded.induct _ _ held
    · intro h held top complete
      apply (sound.counted.linked h held List.not_mem_nil).mpr
      exact ⟨complete h (sound.formed.graded.self_mem held), fun p up => by cases top.symm.trans up⟩
    · intro h p held up ih complete
      apply (sound.counted.linked h held List.not_mem_nil).mpr
      refine ⟨complete h (sound.formed.graded.self_mem held), ?_⟩
      intro q up'
      cases up.symm.trans up'
      apply ih
      intro a member
      exact complete a ((sound.formed.graded.mem_iff held).mpr (Or.inr ⟨p, up, member⟩))
end

lemma tip_candidate (sound : Consistent tree) {tip} (top : tree.tip = some tip) : tip ∈ tree.setBlockIndexCandidates := by
  obtain ⟨good, link⟩ := sound.selected.active _ (tip_active top)
  apply sound.selected.all _ (sound.tip_mem top) link good
  exact (not_belowTip_iff top _).mpr (le_refl _)

end Consistent

structure SameButFlags (tree tree' : BlockTree) : Prop where
  known : tree'.mapBlockIndex = tree.mapBlockIndex
  entry : ∀ h, (tree'.entry h).clearFailed = (tree.entry h).clearFailed
  unlinked : tree'.mapBlocksUnlinked = tree.mapBlocksUnlinked

namespace SameButFlags
variable {tree tree' tree'' : BlockTree} (same : SameButFlags tree tree')
lemma refl (tree) : SameButFlags tree tree := ⟨rfl, fun _ => rfl, rfl⟩

lemma trans (first : SameButFlags tree tree') (snd : SameButFlags tree' tree'') : SameButFlags tree tree'' where
  known := snd.known.trans first.known
  entry h := (snd.entry h).trans (first.entry h)
  unlinked := snd.unlinked.trans first.unlinked

include same

lemma core : SameCore tree tree' := by
  refine ⟨same.known, ?_⟩
  intro h
  have equal := congrArg BlockEntry.core (same.entry h)
  exact equal

lemma nValid (h) : (tree'.entry h).nValid = (tree.entry h).nValid := by
  have equal := congrArg BlockEntry.nValid (same.entry h)
  exact equal

end SameButFlags

namespace BlockTree
variable {change : BlockEntry → BlockEntry} (tree : BlockTree)
lemma sameButFlags_modify (h)
    (flags : ∀ pindex, (change pindex).clearFailed = pindex.clearFailed) : SameButFlags tree (tree.modify h change) := by
  refine ⟨rfl, ?_, rfl⟩
  intro a
  by_cases own : a = h <;> simp [modify, own, flags]

lemma sameButFlags_change (hs)
    (flags : ∀ pindex, (change pindex).clearFailed = pindex.clearFailed) : SameButFlags tree (tree.change hs change) := by
  refine ⟨rfl, ?_, rfl⟩
  intro a
  by_cases listed : a ∈ hs <;> simp [BlockTree.change, listed, flags]

end BlockTree

variable {tree tree' : BlockTree}
lemma Counted.of_sameCore {queue} (cnt : Counted queue tree) (same : SameCore tree tree')
    (unlinked : tree'.mapBlocksUnlinked = tree.mapBlocksUnlinked) : Counted queue tree' := by
  constructor
  · simpa only [same.known, same.pprev, same.nChainWork] using cnt.work
  · simpa only [same.known, same.fHaveData, same.nTx] using cnt.data
  · simpa only [same.known, same.fHaveData, same.nChainTx, same.pprev] using cnt.linked
  · simpa only [same.known, same.fHaveData, same.nChainTx, same.pprev] using cnt.queued
  · exact cnt.queuedOnce
  · simpa only [same.known, same.nChainTx, same.nSequenceId] using cnt.sequence
  · simpa only [unlinked, same.fHaveData, same.nChainTx, same.pprev] using cnt.waits
  · simpa only [unlinked, same.known, same.fHaveData, same.nChainTx, same.pprev] using cnt.waiting
  · rw [unlinked]
    exact cnt.waitsOnce

lemma Levelled.congr (levelled : Levelled tree) (shape : SameShape tree tree')
    (valid : ∀ a, (tree'.entry a).nValid = (tree.entry a).nValid) (full : ∀ a, (tree'.entry a).nTx = (tree.entry a).nTx)
    (shorter : ∀ a ∈ tree'.chainActive, a ∈ tree.chainActive) : Levelled tree' := by
  constructor
  · simpa only [shape.known, valid] using levelled.valid
  · simpa only [shape.known, valid, full] using levelled.transactions
  · simpa only [shape.known, valid, shape.pprev] using levelled.inherited
  · intro a member
    rw [shape.pprev, valid]
    exact levelled.active a (shorter a member)

lemma Selected.congr (sel : Selected tree) (shape : SameShape tree tree')
    (chain : tree'.chainActive = tree.chainActive) (candidates : tree'.setBlockIndexCandidates = tree.setBlockIndexCandidates)
    (failed : ∀ a, (tree'.entry a).failed = (tree.entry a).failed)
      (invalid : ∀ a, (tree'.entry a).fFailedValid = (tree.entry a).fFailedValid)
    (link : ∀ a, (tree'.entry a).nChainTx = (tree.entry a).nChainTx) (rank : ∀ a, tree'.rank a = tree.rank a) : Selected tree' := by
  have below : ∀ a, tree'.belowTip a = tree.belowTip a := by
    intro a
    have top : tree'.tip = tree.tip := congrArg List.head? chain
    cases tip : tree.tip with
    | none => simp [belowTip, top, tip]
    | some t => rw [Bool.eq_iff_iff, belowTip_iff (top.trans tip), belowTip_iff tip, rank, rank]
  constructor
  · simpa only [chain, failed, link] using sel.active
  · simpa only [shape.known, failed, invalid, shape.lineage] using sel.failed
  · simpa only [candidates, link] using sel.linked
  · simpa only [candidates, below] using sel.best
  · simpa only [shape.known, candidates, failed, link, below] using sel.all

end Peony
