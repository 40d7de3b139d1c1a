import Peony.BlockIndex.CheckBlockIndex

/-! How deep a switch of the active chain goes, and what `-maxreorg` has to do with it. -/

namespace Peony
open BlockTree List

inductive BlockVerdict where
  | passed
  -- `state.IsInvalid() && !state.CorruptionPossible()`
  | invalid | refused
  deriving DecidableEq

/-- A block as `AcceptBlock` meets it. `fStakeInputs` stands for the checks of the coinstake inputs. -/
structure BlockCall where
  header : HeaderCall
  nTx : Nat
  (fProofOfStake fCheckpoint fWork fStakeProof : Bool)
  verdict : BlockVerdict
  (fStakeInputs fWritten : Bool)

/-- Whether `readBlock` reaches the limit on the way back to the split. -/
def walkTooLong (nMaxReorgDepth : Int) : Nat → List UInt256 → Bool
  | _, [] => false
  | readBlock, _ :: prev => if ((readBlock + 1 : Nat) : Int) = nMaxReorgDepth then true else walkTooLong nMaxReorgDepth (readBlock + 1) prev

namespace BlockTree

def acceptBlock (nMaxReorgDepth : Int) (tree : BlockTree) (block : BlockCall) : Bool × BlockTree :=
  let pindexPrev := block.header.hashPrevBlock
  -- the genesis block, which has no parent, is in the index with its data from the start
  if pindexPrev ∉ tree.mapBlockIndex then (false, tree)
  else if (tree.entry pindexPrev).failed then
    -- `ActivateBestChain` follows, as the next rounds of the run
    if block.fCheckpoint then (true, tree.reconsiderBlock pindexPrev) else (false, tree)
  else if !block.fWork then (false, tree)
  else if block.fProofOfStake && !block.fStakeProof then (false, tree)
  else
    match tree.acceptBlockHeader nMaxReorgDepth block.header with
    | (false, tree) => (false, tree)
    | (true, tree) =>
      if (tree.entry block.header.hash).fHaveData then (true, tree)
      else
        match block.verdict with
        | .refused => (false, tree)
        | .invalid => (false, tree.modify block.header.hash BlockEntry.setFailedValid)
        | .passed =>
          if block.fProofOfStake && decide (tree.tip ≠ some pindexPrev) && walkTooLong nMaxReorgDepth 0 (tree.offChain pindexPrev) then
            (false, tree)
          else if block.fProofOfStake && !block.fStakeInputs then (false, tree)
          else if !block.fWritten then (false, tree)
          else (true, tree.receivedBlockTransactions block.header.hash block.nTx)

def switchDepth (tree : BlockTree) (calls : TipCalls) : Option Nat :=
  match findMostWorkChain (tree.setBlockIndexCandidates.length + 1) tree with
  | (none, _) => none
  | (some m, tree) =>
    if tree.tip = some m then none
    else some (tree.chainActive.length - (disconnectTo calls (tree.findFork m) tree.chainActive.length tree).2.chainActive.length)

end BlockTree

inductive ChainEvent where
  | accept (block : BlockCall)
  | activate (calls : TipCalls)

def BlockTree.next (nMaxReorgDepth : Int) (tree : BlockTree) : ChainEvent → BlockTree
  | .accept block => (tree.acceptBlock nMaxReorgDepth block).2
  | .activate calls => (tree.activateBestChain calls).2

def switchDepths (nMaxReorgDepth : Int) : BlockTree → List ChainEvent → List Nat
  | _, [] => []
  | tree, .accept block :: events => switchDepths nMaxReorgDepth (tree.next nMaxReorgDepth (.accept block)) events
  | tree, .activate calls :: events =>
    (tree.switchDepth calls).toList ++ switchDepths nMaxReorgDepth (tree.next nMaxReorgDepth (.activate calls)) events

namespace BlockTree
variable (tree : BlockTree)
def BranchUsable (h : UInt256) : Prop := ∀ a ∈ tree.lineage h, a ∉ tree.chainActive → tree.usable a = true

structure MostWork (m : UInt256) : Prop where
  candidate : m ∈ tree.setBlockIndexCandidates
  branch : tree.BranchUsable m
  most : ∀ c ∈ tree.setBlockIndexCandidates, tree.BranchUsable c → tree.rank c ≤ tree.rank m

/-- The fork is at most `nMaxReorgDepth` below the tip, or a block on the way down is not disconnected. -/
def Shallow (nMaxReorgDepth : Int) (calls : TipCalls) : Prop :=
  ∀ m, tree.MostWork m → tree.tip ≠ some m →
    (∃ a ∈ tree.lineage m, a ∈ tree.chainActive ∧ (tree.chainActive.length : Int) - 1 - (tree.entry a).nHeight ≤ nMaxReorgDepth) ∨
      ∃ a ∈ tree.chainActive.take (nMaxReorgDepth + 1).toNat, calls.disconnects a = false

end BlockTree

def ShallowRun (nMaxReorgDepth : Int) : BlockTree → List ChainEvent → Prop
  | _, [] => True
  | tree, .accept block :: events => ShallowRun nMaxReorgDepth (tree.next nMaxReorgDepth (.accept block)) events
  | tree, .activate calls :: events =>
    tree.Shallow nMaxReorgDepth calls ∧ ShallowRun nMaxReorgDepth (tree.next nMaxReorgDepth (.activate calls)) events

variable {tree tree' : BlockTree} {h : UInt256} {nMaxReorgDepth : Int} {header : HeaderCall}
lemma mem_of_acceptBlockHeader (acc : tree.acceptBlockHeader nMaxReorgDepth header = (true, tree')) :
    header.hash ∈ tree'.mapBlockIndex := by
  by_cases listed : header.hash ∈ tree.mapBlockIndex
  · unfold BlockTree.acceptBlockHeader at acc
    rw [if_pos listed] at acc
    rw [← (Prod.mk.inj acc).2]
    exact listed
  · obtain ⟨-, -, rfl⟩ : header.hashPrevBlock ∈ tree.mapBlockIndex ∧
      tree.contextualCheckBlockHeader nMaxReorgDepth header = true ∧ tree' =
      tree.addToBlockIndex header := by
      unfold BlockTree.acceptBlockHeader at acc
      rw [if_neg listed] at acc
      split_ifs at acc with unchecked unknown failed ctx
      all_goals cases acc
      exact ⟨unknown, by simpa using ctx, rfl⟩
    exact mem_cons_self

section
variable (formed : WellFormed tree) (nMaxReorgDepth : Int)
include formed

lemma WellFormed.acceptBlock (block) : WellFormed (tree.acceptBlock nMaxReorgDepth block).2 := by
  have wf' := formed.acceptBlockHeader nMaxReorgDepth block.header
  unfold BlockTree.acceptBlock
  dsimp only
  split
  · exact formed
  split
  · split
    · exact formed.reconsiderBlock _
    · exact formed
  split
  · exact formed
  split
  · exact formed
  split
  · grind
  · next acc =>
    rw [acc] at wf'
    split
    · exact wf'
    split
    · exact wf'
    · apply wf'.of_fewer (sameCore_modify _).shape rfl (fun _ mem => mem) rfl
      exact fun _ => rfl
    · split
      · exact wf'
      split
      · exact wf'
      split
      · exact wf'
      · exact wf'.receivedBlockTransactions (mem_of_acceptBlockHeader acc) _

lemma WellFormed.next (event) : WellFormed (tree.next nMaxReorgDepth event) := by
  cases event with
  | accept block => exact formed.acceptBlock _ _
  | activate calls => exact formed.activateBestChain _
end

section
variable (formed : WellFormed tree) (held : h ∈ tree.mapBlockIndex)
include formed held

lemma WellFormed.mem_offChain_iff {a} : a ∈ tree.offChain h ↔ a ∈ tree.lineage h ∧ a ∉ tree.chainActive := by
  constructor
  · intro mem
    have off := formed.mem_offChain held mem
    exact ⟨off.1, off.2.2⟩
  · rintro ⟨line, off⟩
    obtain ⟨fork, -, shared, -, split⟩ := formed.exists_fork held
    rw [split] at line
    refine (mem_append.mp line).resolve_right fun below => off ?_
    obtain ⟨tip, top, chain⟩ := formed.chain
    rw [chain] at shared ⊢
    exact formed.graded.mem_trans top shared below

lemma WellFormed.branchUsable_iff : tree.BranchUsable h ↔ ∀ a ∈ tree.offChain h, tree.usable a = true := by
  simp only [BranchUsable, formed.mem_offChain_iff held, and_imp]
end
section
variable (tree : BlockTree) (pindexTest : UInt256) (above : List UInt256)
lemma sameCore_dropBranch : SameCore tree (tree.dropBranch pindexTest above) := by
  unfold dropBranch
  split
  · have same : SameCore tree (tree.change above BlockEntry.setFailedChild) := sameCore_change fun _ => rfl
    exact ⟨rfl, same.core⟩
  · exact ⟨rfl, fun _ => rfl⟩

lemma chainActive_dropBranch : (tree.dropBranch pindexTest above).chainActive = tree.chainActive := by
  unfold dropBranch
  split <;> rfl

lemma usable_dropBranch (a) : ((tree.dropBranch pindexTest above).usable a = true → tree.usable a = true) ∧
      (a ∉ above → (tree.dropBranch pindexTest above).usable a = tree.usable a) := by
  by_cases failed : (tree.entry pindexTest).failed = true
  · have entry : (tree.dropBranch pindexTest above).entry a = if a ∈ above then (tree.entry a).setFailedChild else tree.entry a := by
      rw [dropBranch_eq failed]
      rfl
    unfold usable
    rw [entry]
    by_cases listed : a ∈ above
    · simp [listed, BlockEntry.failed, BlockEntry.setFailedChild]
    · simp [listed]
  · have entry : (tree.dropBranch pindexTest above).entry a = tree.entry a := by
      rw [dropBranch, if_neg failed]
      rfl
    simp [usable, entry]
end

lemma WellFormed.mostWork_dropBest (formed : WellFormed tree) {pindexTest rest} (held : h ∈ tree.mapBlockIndex)
    (bad : (tree.offChain h).dropWhile tree.usable = pindexTest :: rest) (m) :
    (tree.dropBranch pindexTest ((tree.offChain h).takeWhile tree.usable)).MostWork m ↔ tree.MostWork m := by
  obtain ⟨⟨-, testHeld, off⟩, unusable, descend, -⟩ := formed.stopsAt held bad
  generalize (tree.offChain h).takeWhile _ = above at descend ⊢
  have same := sameCore_dropBranch tree pindexTest above
  -- whatever is marked or taken out has the bad block on its branch
  have spoiled : ∀ c ∈ tree.mapBlockIndex, tree.BranchUsable c → ∀ a ∈ pindexTest :: above, a ∉ tree.lineage c := by
    intro c listed branch a cut line
    have through : pindexTest ∈ tree.lineage c := by
      rcases mem_cons.mp cut with rfl | cut
      · exact line
      · exact formed.graded.mem_trans listed line (descend a cut).2.2
    rw [branch _ through off] at unusable
    cases unusable
  have branches : ∀ c ∈ tree.mapBlockIndex, ((tree.dropBranch pindexTest above).BranchUsable c ↔ tree.BranchUsable c) := by
    intro c listed
    unfold BranchUsable
    rw [same.shape.lineage, chainActive_dropBranch]
    constructor
    · exact fun branch a line out => (usable_dropBranch _ _ _ a).1 (branch a line out)
    · intro branch a line out
      have apart : a ∉ above := fun marked => spoiled c listed branch a (mem_cons_of_mem _ marked) line
      rw [(usable_dropBranch _ _ _ a).2 apart]
      exact branch a line out
  have kept : ∀ c, tree.BranchUsable c → c ∈ tree.setBlockIndexCandidates →
      c ∈ (tree.dropBranch pindexTest above).setBlockIndexCandidates := by
    intro c branch cand
    have listed := formed.candidates c cand
    rw [WellFormed.candidates_dropBranch]
    apply mem_filter.mpr ⟨cand, _⟩
    exact decide_eq_true fun cut => spoiled c listed branch c cut (formed.graded.self_mem listed)
  have fewer : ∀ c ∈ (tree.dropBranch pindexTest above).setBlockIndexCandidates, c ∈ tree.setBlockIndexCandidates := by
    intro c mem
    rw [WellFormed.candidates_dropBranch] at mem
    exact mem_of_mem_filter mem
  constructor
  · rintro ⟨cand, branch, most⟩
    have pre := fewer m cand
    refine ⟨pre, (branches m (formed.candidates m pre)).mp branch, ?_⟩
    intro c listed usable
    have after := most c (kept c usable listed) ((branches c (formed.candidates c listed)).mpr usable)
    rwa [same.rank, same.rank] at after
  · rintro ⟨cand, branch, most⟩
    refine ⟨kept m branch cand, (branches m (formed.candidates m cand)).mpr branch, ?_⟩
    intro c listed usable
    rw [same.rank, same.rank]
    have pre := fewer c listed
    exact most c pre ((branches c (formed.candidates c pre)).mp usable)

lemma WellFormed.findMostWorkChain_spec (formed : WellFormed tree) {fuel} (enough : tree.setBlockIndexCandidates.length < fuel) :
    (∀ m, (BlockTree.findMostWorkChain fuel tree).1 = some m ↔ tree.MostWork m) ∧
      SameCore tree (BlockTree.findMostWorkChain fuel tree).2 ∧
      (BlockTree.findMostWorkChain fuel tree).2.chainActive = tree.chainActive := by
  induction fuel generalizing tree with
  | zero => omega
  | succ fuel ih =>
    unfold BlockTree.findMostWorkChain
    cases best : tree.bestCandidate with
    | none =>
      refine ⟨fun m => ⟨fun found => (by cases found), fun most => ?_⟩, SameCore.refl _, rfl⟩
      have mem := most.candidate
      rw [tree.bestCandidate_none best] at mem
      cases mem
    | some pindexNew =>
      obtain ⟨cand, last⟩ := tree.bestCandidate_spec best
      have listed := formed.candidates _ cand
      cases bad : (tree.offChain _).dropWhile _ with
      | nil =>
        have branch := (formed.branchUsable_iff listed).mpr (dropWhile_eq_nil_iff.mp bad)
        simp only [bad]
        refine ⟨fun m => ⟨?_, fun most => ?_⟩, SameCore.refl _, trivial⟩
        · intro found
          cases found
          exact ⟨cand, branch, fun c mem _ => last c mem⟩
        · have equal := le_antisymm (most.most _ cand branch) (last m most.candidate)
          rw [tree.rank_injective equal]
      | cons pindexTest rest =>
        have fewer := formed.length_dropBest best bad
        obtain ⟨found, same, chain⟩ := ih (formed.dropBest best pindexTest) (by omega)
        simp only [bad]
        refine ⟨fun m => (found m).trans (formed.mostWork_dropBest listed bad m), ?_, chain.trans (chainActive_dropBranch ..)⟩
        exact (sameCore_dropBranch _ _ _).trans same

section
variable (formed : WellFormed tree)
include formed

lemma WellFormed.disconnectTo_rest {calls fork} (shared : fork ∈ tree.chainActive) :
    ∃ above rest, tree.chainActive = above ++ rest ∧ (∀ a ∈ above, calls.disconnects a = true) ∧
      (BlockTree.disconnectTo calls (some fork) tree.chainActive.length tree).2.chainActive = rest ∧
      (tree.entry fork).nHeight + 1 ≤ rest.length ∧
      (rest.length = (tree.entry fork).nHeight + 1 ∨ ∃ a, rest.head? = some a ∧ calls.disconnects a = false) := by
  obtain ⟨above, rest, chain, apart, all, run, success, failure⟩ := formed.disconnectTo_spec _ _ shared (Nat.le_refl _)
  have wf' := formed.disconnectTo calls (some fork) tree.chainActive.length
  rw [run] at wf'
  obtain ⟨tip, held, top, line⟩ := wf'.exists_tip
  have length : rest.length = (tree.entry tip).nHeight + 1 := (congrArg _ line).trans (wf'.graded.length_lineage held)
  have ins : fork ∈ rest := by
    rw [chain] at shared
    exact (mem_append.mp shared).resolve_left apart
  have lower : (tree.entry fork).nHeight ≤ (tree.entry tip).nHeight := by
    change rest = tree.lineage _ at line
    rw [line] at ins
    rcases wf'.graded.height_of_mem held ins with same | less
    · rw [same]
    · exact less.le
  refine ⟨_, _, chain, all, by rw [run], by omega, ?_⟩
  cases ended : (BlockTree.disconnectTo _ _ _ _).1 with
  | true =>
    cases top.symm.trans (success ended)
    exact .inl length
  | false =>
    obtain ⟨a, head, -, bad⟩ := failure ended
    exact .inr ⟨a, head, bad⟩

lemma WellFormed.disconnected_le_iff (calls) {m} (held : m ∈ tree.mapBlockIndex) (nMaxReorgDepth) :
    ((tree.chainActive.length -
      (BlockTree.disconnectTo calls (tree.findFork m) tree.chainActive.length tree).2.chainActive.length : Nat) : Int)
        ≤ nMaxReorgDepth ↔
      (∃ a ∈ tree.lineage m, a ∈ tree.chainActive ∧ (tree.chainActive.length : Int) - 1 - (tree.entry a).nHeight ≤ nMaxReorgDepth) ∨
        ∃ a ∈ tree.chainActive.take (nMaxReorgDepth + 1).toNat, calls.disconnects a = false := by
  obtain ⟨fork, found, shared, forkHeld, split⟩ := formed.exists_fork held
  obtain ⟨above, rest, chain, all, run, long, ends⟩ := formed.disconnectTo_rest shared
  have total : tree.chainActive.length = above.length + rest.length := by rw [chain, length_append]
  rw [found, run, total]
  constructor
  · intro short
    rcases ends with exact_fork | ⟨a, head, bad⟩
    · refine .inl ⟨_, ?_, shared, by omega⟩
      rw [split]
      exact mem_append_right _ (formed.graded.self_mem forkHeld)
    · refine .inr ⟨a, ?_, bad⟩
      obtain ⟨rest', rfl⟩ := head?_eq_some_iff.mp head
      rw [chain, take_append]
      apply mem_append_right
      rw [show (nMaxReorgDepth + 1).toNat - above.length = ((nMaxReorgDepth + 1).toNat - above.length - 1) + 1 by omega]
      exact mem_cons_self
  · rintro (⟨a, onBranch, active, near⟩ | ⟨a, early, bad⟩)
    · have below : a ∈ tree.lineage fork := by
        rw [split] at onBranch
        refine (mem_append.mp onBranch).resolve_left fun off => ?_
        exact (formed.mem_offChain held off).2.2 active
      have lower : (tree.entry a).nHeight ≤ (tree.entry fork).nHeight := by
        rcases formed.graded.height_of_mem forkHeld below with same | less
        · rw [same]
        · exact less.le
      omega
    · by_contra deep
      have ins : a ∈ above := by grind
      rw [all a ins] at bad
      cases bad

lemma WellFormed.switchDepth_le_iff (nMaxReorgDepth calls) :
    (∀ d ∈ tree.switchDepth calls, (d : Int) ≤ nMaxReorgDepth) ↔ tree.Shallow nMaxReorgDepth calls := by
  have wf' := formed.findMostWorkChain (tree.setBlockIndexCandidates.length + 1)
  obtain ⟨found, same, chain⟩ := formed.findMostWorkChain_spec (Nat.lt_succ_self _)
  unfold switchDepth Shallow
  cases chosen : BlockTree.findMostWorkChain _ _ with
  | mk res tree' =>
    rw [chosen] at found wf' same chain
    dsimp only at found wf' same chain
    have top : tree'.tip = tree.tip := congrArg List.head? chain
    cases res with
    | none =>
      constructor
      · exact fun _ m most => absurd ((found m).mpr most) (by simp)
      · exact fun _ d mem => absurd mem (by simp)
    | some m =>
      have most := (found m).mp rfl
      -- no other candidate has the most work
      have only : ∀ m', tree.MostWork m' → m' = m := fun m' other => (Option.some.inj ((found m').mpr other)).symm
      have held : m ∈ tree'.mapBlockIndex := by simpa [same.known] using formed.candidates m most.candidate
      have depth := wf'.disconnected_le_iff calls held nMaxReorgDepth
      simp only [chain, same.shape.lineage, same.nHeight] at depth
      dsimp only
      rw [top, chain]
      by_cases stays : tree.tip = some m
      · simp only [stays, if_true]
        constructor
        · intro _ m' other moves
          exact absurd (congrArg _ (only m' other).symm) moves
        · exact fun _ d mem => absurd mem (by simp)
      · rw [if_neg stays]
        constructor
        · intro bounded m' other _
          rw [only m' other]
          exact depth.mp (bounded _ rfl)
        · intro shallow d mem
          cases Option.some.inj (Option.mem_def.mp mem)
          exact depth.mpr (shallow m most stays)
end

def plainBlock (fProofOfStake : Bool) (hash hashPrevBlock : UInt256) (nProof : Nat) : ChainEvent :=
  .accept ⟨⟨hash, hashPrevBlock, nProof, false, true, true⟩, 1, fProofOfStake, false, true, true, .passed, true, true⟩

/-- Block 3 replaces block 2 once block 4 is built on it. -/
def shortRun : List ChainEvent :=
  [plainBlock false 2 1 1, .activate smoothCalls, plainBlock true 3 1 1, .activate smoothCalls, plainBlock true 4 3 1,
    .activate smoothCalls]

/-- Blocks 10 to 14 grow beside 2 to 5 and overtake them at last. -/
def workRun : List ChainEvent :=
  [plainBlock false 2 1 1, .activate smoothCalls, plainBlock false 3 2 1, .activate smoothCalls, plainBlock false 10 1 1,
    plainBlock false 4 3 1, .activate smoothCalls, plainBlock false 11 10 1, plainBlock false 5 4 1, .activate smoothCalls,
    plainBlock false 12 11 1, plainBlock false 13 12 1, plainBlock false 14 13 1, .activate smoothCalls]

/-- The stake block 10 is accepted on tip 3, and 11 above it outweighs the blocks 2, 3 and 4. -/
def stakeRun : List ChainEvent :=
  [plainBlock true 2 1 2, .activate smoothCalls, plainBlock true 3 2 2, .activate smoothCalls, plainBlock true 10 1 4,
    .activate smoothCalls, plainBlock true 4 3 2, .activate smoothCalls, plainBlock true 11 10 4, .activate smoothCalls]

end Peony
