import Peony.BlockIndex.Growth
import Peony.BlockIndex.Verdicts

/-! What `CheckBlockIndex` asserts, along every run of calls that edit the index. -/

namespace Peony

namespace BlockTree
variable (tree : BlockTree) (h : UInt256)
def firstInvalid : Bool := (tree.lineage h).any fun a => (tree.entry a).fFailedValid
def firstMissing : Bool := (tree.lineage h).any fun a => !(tree.entry a).fHaveData
def allReach (n : Nat) (h : UInt256) : Prop := ∀ a ∈ tree.lineage h, (tree.entry a).pprev = none ∨ n ≤ (tree.entry a).nValid
def foundInUnlinked : Prop := ∃ pair ∈ tree.mapBlocksUnlinked, (tree.entry h).pprev = some pair.1 ∧ pair.2 = h

def checkEntry : Prop :=
  ((tree.entry h).pprev = none → tree.chainActive.getLast? = some h) ∧
  ((tree.entry h).fHaveData = true ↔ (tree.entry h).nTx ≠ 0) ∧
  (BLOCK_VALID_TRANSACTIONS ≤ (tree.entry h).nValid ↔ 0 < (tree.entry h).nTx) ∧
  ((tree.entry h).nChainTx = 0 → (tree.entry h).nSequenceId = 0) ∧
  (tree.firstMissing h = true ↔ (tree.entry h).nChainTx = 0) ∧
  (tree.entry h).nHeight + 1 = (tree.lineage h).length ∧
  ((tree.entry h).pprev.all fun p => decide ((tree.entry p).nChainWork ≤ (tree.entry h).nChainWork)) = true ∧
  tree.allReach BLOCK_VALID_TREE h ∧
  (BLOCK_VALID_CHAIN ≤ (tree.entry h).nValid → tree.allReach BLOCK_VALID_CHAIN h) ∧
  (BLOCK_VALID_SCRIPTS ≤ (tree.entry h).nValid → tree.allReach BLOCK_VALID_SCRIPTS h) ∧
  (tree.firstInvalid h = false → (tree.entry h).failed = false) ∧
  (if tree.belowTip h = false ∧ tree.firstMissing h = false then tree.firstInvalid h = false → h ∈ tree.setBlockIndexCandidates
    else h ∉ tree.setBlockIndexCandidates) ∧
  (if (tree.entry h).pprev ≠ none ∧ (tree.entry h).fHaveData = true ∧ tree.firstMissing h = true then
      tree.firstInvalid h = false → tree.foundInUnlinked h
    else ¬ tree.foundInUnlinked h)

def checkBlockIndex : Prop :=
  (∃ g ∈ tree.mapBlockIndex, (tree.entry g).pprev = none ∧ ∀ h ∈ tree.mapBlockIndex, (tree.entry h).pprev = none → h = g) ∧
    ∀ h ∈ tree.mapBlockIndex, tree.checkEntry h

end BlockTree

-- over hashes the instances for bit vectors would try every hash
instance (tree : BlockTree) (n : Nat) (h : UInt256) : Decidable (tree.allReach n h) := List.decidableBAll _ _

instance (tree : BlockTree) (h : UInt256) : Decidable (tree.foundInUnlinked h) := List.decidableBEx _ _

instance (tree : BlockTree) (h : UInt256) : Decidable (tree.checkEntry h) := inferInstanceAs (Decidable (_ ∧ _))

/-- The assertions, and what the marks, the candidates and the waiting blocks stand for. -/
structure TreeInvariant (tree : BlockTree) : Prop where
  check : tree.checkBlockIndex
  failedChild : ∀ h ∈ tree.mapBlockIndex, (tree.entry h).fFailedChild = true →
    ∃ a ∈ tree.lineage h, (tree.entry a).fFailedValid = true
  candidates : ∀ h ∈ tree.mapBlockIndex, (tree.entry h).failed = false →
    (h ∈ tree.setBlockIndexCandidates ↔ (∀ a ∈ tree.lineage h, (tree.entry a).fHaveData = true) ∧ tree.belowTip h = false)
  tip : ∃ tip, tree.tip = some tip ∧ tip ∈ tree.setBlockIndexCandidates
  unlinked : ∀ p h, (p, h) ∈ tree.mapBlocksUnlinked ↔ h ∈ tree.mapBlockIndex ∧ (tree.entry h).pprev = some p ∧
    (tree.entry h).fHaveData = true ∧ ∃ a ∈ tree.lineage h, (tree.entry a).fHaveData = false

open BlockTree List
variable {tree : BlockTree} {h : UInt256}
namespace Consistent

section
variable (sound : Consistent tree) (held : h ∈ tree.mapBlockIndex)
include sound held

lemma firstMissing_iff : tree.firstMissing h = true ↔ (tree.entry h).nChainTx = 0 := by
  rw [← not_iff_not, ← ne_eq (tree.entry h).nChainTx, sound.linked_iff held, firstMissing]
  simp

lemma unfailed_of_firstInvalid (valid : tree.firstInvalid h = false) : (tree.entry h).failed = false := by
  rw [← Bool.not_eq_true]
  intro failed
  obtain ⟨a, mem, invalid⟩ := sound.selected.failed h held failed
  rw [firstInvalid, any_eq_false] at valid
  exact valid a mem invalid

lemma foundInUnlinked_iff :
    tree.foundInUnlinked h ↔ (tree.entry h).pprev ≠ none ∧ (tree.entry h).fHaveData = true ∧ (tree.entry h).nChainTx = 0 := by
  constructor
  · rintro ⟨⟨p, c⟩, mem, up, rfl⟩
    obtain ⟨-, data, low, -⟩ := sound.counted.waits p c mem
    exact ⟨fun top => (by cases up.symm.trans top), data, low⟩
  · rintro ⟨inner, data, low⟩
    obtain ⟨p, up⟩ := Option.ne_none_iff_exists'.mp inner
    exact ⟨_, sound.counted.waiting h p held up data low not_mem_nil, up, rfl⟩

lemma allReach {n} (chain : BLOCK_VALID_CHAIN ≤ n) (run : n ≤ (tree.entry h).nValid) : tree.allReach n h := by
  apply sound.formed.graded.all_of_up (P := fun a => (tree.entry a).pprev = none ∨ n ≤ (tree.entry a).nValid) _ held (Or.inr run)
  intro a p known up run
  rcases run with top | run
  · cases top.symm.trans up
  · exact sound.levelled.inherited a p known up n chain run

lemma checkEntry : tree.checkEntry h := by
  refine ⟨?_, sound.counted.data h held, ?_, sound.counted.sequence h held, sound.firstMissing_iff held, ?_, ?_, ?_, ?_, ?_,
    sound.unfailed_of_firstInvalid held, ?_, ?_⟩
  · intro top
    obtain ⟨tip, known, chain⟩ := sound.formed.chain
    obtain ⟨g, last, listed, top'⟩ := sound.formed.graded.getLast_lineage known
    rw [chain, sound.formed.root h g held listed top top']
    exact last
  · rw [Nat.pos_iff_ne_zero]
    exact sound.levelled.transactions h held
  · exact (sound.formed.graded.length_lineage held).symm
  · rw [Option.all_eq_true]
    intro p up
    exact decide_eq_true (sound.counted.work h p held up).le
  · intro a mem
    exact .inr (sound.levelled.valid a (sound.formed.graded.known_of_mem held mem))
  · exact sound.allReach held (Nat.le_refl _)
  · exact sound.allReach held (Nat.le_succ _)
  · have link : tree.firstMissing h = false ↔ (tree.entry h).nChainTx ≠ 0 := by rw [← Bool.not_eq_true, sound.firstMissing_iff held]
    split
    · next ready =>
      intro valid
      exact sound.selected.all h held (link.mp ready.2) (sound.unfailed_of_firstInvalid held valid) ready.1
    · next other =>
      intro mem
      exact other ⟨sound.selected.best h mem, link.mpr (sound.selected.linked h mem)⟩
  · rw [sound.foundInUnlinked_iff held]
    have low := sound.firstMissing_iff held
    split
    · grind
    · grind
end

lemma treeInvariant (sound : Consistent tree) : TreeInvariant tree where
  check := by
    obtain ⟨tip, known, -⟩ := sound.formed.chain
    obtain ⟨g, -, listed, top⟩ := sound.formed.graded.getLast_lineage known
    exact ⟨⟨g, listed, top, fun h held top' => sound.formed.root h g held listed top' top⟩, fun h held => sound.checkEntry held⟩
  failedChild h held failed := by
    apply sound.selected.failed h held
    rw [BlockEntry.failed, failed, Bool.or_true]
  candidates h held good := by
    rw [← sound.linked_iff held]
    constructor
    · exact fun mem => ⟨sound.selected.linked h mem, sound.selected.best h mem⟩
    · exact fun ready => sound.selected.all h held ready.1 good ready.2
  tip := by
    obtain ⟨tip, -, top, -⟩ := sound.formed.exists_tip
    exact ⟨_, top, sound.tip_candidate top⟩
  unlinked p h := by
    have miss : h ∈ tree.mapBlockIndex → ((tree.entry h).nChainTx = 0 ↔ ∃ a ∈ tree.lineage h, (tree.entry a).fHaveData = false) := by
      intro held
      rw [← sound.firstMissing_iff held, firstMissing]
      simp
    constructor
    · intro mem
      have held := sound.formed.unlinked _ mem
      obtain ⟨up, data, low, -⟩ := sound.counted.waits p h mem
      exact ⟨held, up, data, (miss held).mp low⟩
    · rintro ⟨held, up, data, gap⟩
      exact sound.counted.waiting h p held up data ((miss held).mpr gap) not_mem_nil

end Consistent

/-- A header brings work, data comes once, a switch that disconnects meets no failure, and a reconsidered block has no failed ancestor. -/
def IndexCall.Safe (tree : BlockTree) : IndexCall → Prop
  | .acceptBlockHeader header => 0 < header.nProof
  | .receivedBlockTransactions h nTx => (tree.entry h).fHaveData = false ∧ (tree.entry h).failed = false ∧ nTx ≠ 0 ∧
      ∀ p ∈ (tree.entry h).pprev.toList, (tree.entry p).nChainTx ≠ 0 ∨ (tree.entry p).failed = false
  | .activateBestChainStep calls => ∀ c ∈ tree.setBlockIndexCandidates, (∀ a ∈ tree.offChain c, tree.usable a = true) →
    calls.Reaches tree c
  | .invalidateBlock calls h => ∀ a ∈ tree.chainActive, h ∈ tree.lineage a → calls.disconnects a = true ∧ (tree.entry a).pprev ≠ none
  | .reconsiderBlock h => ∀ a ∈ tree.lineage h, a ≠ h → (tree.entry a).failed = false

lemma Consistent.call (sound : Consistent tree) (nMaxReorgDepth) {call} (safe : call.Safe tree) :
    Consistent (tree.call nMaxReorgDepth call) := by
  cases call with
  | acceptBlockHeader header => exact sound.acceptBlockHeader _ safe
  | receivedBlockTransactions h nTx =>
    obtain ⟨miss, good, full, parent⟩ := safe
    dsimp only [BlockTree.call]
    split
    · next held => exact sound.receivedBlockTransactions held miss good full fun p up => parent p (Option.mem_toList.mpr up)
    · exact sound
  | activateBestChainStep calls => exact sound.activateBestChain safe
  | invalidateBlock calls h =>
    dsimp only [BlockTree.call]
    split
    · next held => exact sound.invalidateBlock held safe
    · exact sound
  | reconsiderBlock h =>
    dsimp only [BlockTree.call]
    split
    · exact sound.reconsiderBlock safe
    · exact sound

def BlockTree.runCalls (nMaxReorgDepth : Int) (tree : BlockTree) (calls : List IndexCall) : BlockTree :=
  calls.foldl (BlockTree.call nMaxReorgDepth) tree

def SafeRun (nMaxReorgDepth : Int) : BlockTree → List IndexCall → Prop
  | _, [] => True
  | tree, call :: calls => call.Safe tree ∧ SafeRun nMaxReorgDepth (tree.call nMaxReorgDepth call) calls

lemma Consistent.runCalls {nMaxReorgDepth calls} (sound : Consistent tree)
    (safe : SafeRun nMaxReorgDepth tree calls) : Consistent (tree.runCalls nMaxReorgDepth calls) := by
  induction calls generalizing tree with
  | nil => exact sound
  | cons call calls ih => exact ih (sound.call _ safe.1) safe.2

variable (hashGenesisBlock : UInt256) (nProof : Nat)
/-- The index once `InitBlockIndex` has connected the genesis block. -/
def freshIndex : BlockTree where
  mapBlockIndex := [hashGenesisBlock]
  entry _ :=
    { pprev := none, nHeight := 0, nChainWork := nProof, nTx := 1, nChainTx := 1, nSequenceId := 1, nValid := BLOCK_VALID_TRANSACTIONS,
      fHaveData := true, fFailedValid := false, fFailedChild := false }
  chainActive := [hashGenesisBlock]
  setBlockIndexCandidates := [hashGenesisBlock]
  mapBlocksUnlinked := []
  nBlockSequenceId := 2

lemma consistent_freshIndex : Consistent (freshIndex hashGenesisBlock nProof) := by
  have only : ∀ a ∈ (freshIndex hashGenesisBlock nProof).mapBlockIndex, a = hashGenesisBlock := fun a mem => mem_singleton.mp mem
  refine ⟨⟨⟨fun _ up => (by cases up), fun _ _ => rfl⟩, ?_, ⟨_, mem_singleton_self _, rfl⟩, fun _ mem => mem, ?_⟩,
    ?_, ?_, ?_⟩
  · exact fun a b first snd _ _ => (only a first).trans (only b snd).symm
  · exact fun _ mem => absurd mem not_mem_nil
  · constructor <;> simp [freshIndex]
  · constructor <;> simp [freshIndex, BLOCK_VALID_TREE, BLOCK_VALID_TRANSACTIONS]
  · constructor <;> simp [freshIndex, BlockEntry.failed, belowTip, workComparator, BlockTree.tip]

def smoothCalls : TipCalls := ⟨fun _ => true, fun _ => .connected⟩
def plainHeader (hash hashPrevBlock : UInt256) : HeaderCall := ⟨hash, hashPrevBlock, 1, false, true, true⟩

/-- Block 2 is connected, declared invalid, and reconsidered. -/
def invalidatedRun : List IndexCall :=
  [.acceptBlockHeader (plainHeader 2 1), .receivedBlockTransactions 2 1, .activateBestChainStep smoothCalls,
    .invalidateBlock smoothCalls 2, .reconsiderBlock 2, .activateBestChainStep smoothCalls]

lemma smoothCalls_reaches {tree m} : smoothCalls.Reaches tree m := Or.inr ⟨fun _ _ _ => rfl, fun _ _ _ => rfl⟩

/-- Block 2, the parent of 3 and 4, is declared invalid; then block 3 is reconsidered. -/
def reconsideredRun : List IndexCall :=
  [.acceptBlockHeader (plainHeader 2 1), .receivedBlockTransactions 2 1, .activateBestChainStep smoothCalls,
    .acceptBlockHeader (plainHeader 3 2), .receivedBlockTransactions 3 1, .activateBestChainStep smoothCalls,
    .acceptBlockHeader (plainHeader 4 2), .receivedBlockTransactions 4 1,
    .invalidateBlock smoothCalls 2, .activateBestChainStep smoothCalls, .reconsiderBlock 3]

/-- Blocks 4, 5 and 6 overtake the chain 1, 2, 3, but block 4 turns out invalid. -/
def failedSwitchRun : List IndexCall :=
  [.acceptBlockHeader (plainHeader 2 1), .receivedBlockTransactions 2 1, .activateBestChainStep smoothCalls,
    .acceptBlockHeader (plainHeader 3 2), .receivedBlockTransactions 3 1, .activateBestChainStep smoothCalls,
    .acceptBlockHeader (plainHeader 4 1), .receivedBlockTransactions 4 1, .acceptBlockHeader (plainHeader 5 4),
    .receivedBlockTransactions 5 1, .acceptBlockHeader (plainHeader 6 5), .receivedBlockTransactions 6 1,
    .activateBestChainStep ⟨fun _ => true, fun h => if h = 4 then .invalid else .connected⟩]

end Peony
