import Peony.Stake.Depth

namespace Peony
open List Option CPivStake

abbrev Branch := List (CBlockIndex × CBlock)

structure IsBranch (host : Host) (branch : Branch) (pindexPrev : CBlockIndex) : Prop where
  tip : branch.getLast?.map Prod.fst = some pindexPrev
  heights : ∀ (i : Nat) (entry : CBlockIndex × CBlock), branch[i]? = some entry → entry.1.nHeight = i
  hashes : ∀ entry ∈ branch, host.getBlockHash entry.2.toCBlockHeader = entry.1.hash
  linked : ∀ (i : Nat) (parent child : CBlockIndex × CBlock), branch[i]? = some parent →
    branch[i + 1]? = some child → child.1.pprev = some parent.1.hash

structure HoldsBranch (node : NodeState) (branch : Branch) : Prop where
  indexed : ∀ entry ∈ branch, node.mapBlockIndex.lookup entry.1.hash = some entry.1
  stored : ∀ entry ∈ branch, node.blockFiles.lookup entry.1.hash = some entry.2

def findInBranch (host : Host) (branch : Branch) (hash : UInt256) : Option (CTransaction × CBlockIndex) :=
  branch.findSome? fun entry => (entry.2.vtx.find? fun tx => host.getHash tx == hash).map (·, entry.1)

def branchVerdict (host : Host) (params : CChainParams) (branch : Branch) (block : CBlock) (pindexPrev : CBlockIndex) :
    Except String Unit :=
  if block.nTime ≤ params.checkpoints.nTimeLastCheckpoint then .ok ()
  else match stakeTxIn block pindexPrev with
    | none => .error "stake input initialization failed"
    | some txin =>
      match findInBranch host branch txin.prevout.hash with
      | none => .error "stake input initialization failed"
      | some (txFrom, pindexFrom) => checkStakeInput host params.consensus block pindexPrev ⟨txFrom, txin.prevout.n, pindexFrom⟩
          (kernelModifier params.consensus (branch.map Prod.fst) pindexPrev pindexFrom)

structure StakeVisible (host : Host) (params : CChainParams) (node : NodeState) (branch : Branch) (pindexPrev : CBlockIndex)
    (hash : UInt256) (txFrom : CTransaction) (pindexFrom : CBlockIndex) : Prop where
  inBranch : findInBranch host branch hash = some (txFrom, pindexFrom)
  notInMempool : node.mempool.lookup hash = none
  located : node.findConfirmed host hash = some (txFrom, pindexFrom.hash)
  active : node.chainActive.contains pindexFrom = true
  modifier : params.consensus.networkUpgradeActive (pindexPrev.nHeight + 1) .stakeModifierV2 = true ∨
    getOldStakeModifier params.consensus node.chainActive.vChain pindexFrom =
      getOldStakeModifier params.consensus (branch.map Prod.fst) pindexFrom

def StakeHidden (host : Host) (node : NodeState) (hash : UInt256) : Prop :=
  ∀ txPrev hashBlock pindex, node.getTransaction host hash = some (txPrev, hashBlock) →
    node.mapBlockIndex.lookup hashBlock = some pindex → node.chainActive.contains pindex = false

variable {txFrom : CTransaction} {host : Host} {branch : Branch}
lemma findInBranch_mem {hash pindexFrom} (found : findInBranch host branch hash = some (txFrom, pindexFrom)) :
    ∃ block, (pindexFrom, block) ∈ branch ∧ txFrom ∈ block.vtx ∧ host.getHash txFrom = hash := by
  obtain ⟨⟨pindex, block⟩, mem, inBlock⟩ := exists_of_findSome?_eq_some found
  simp only [map_eq_some_iff, Prod.mk.injEq] at inBlock
  obtain ⟨tx, inVtx, rfl, rfl⟩ := inBlock
  have same := find?_some inVtx
  simp only [beq_iff_eq] at same
  exact ⟨_, mem, mem_of_find?_eq_some inVtx, same⟩

variable {pindexPrev pindexFrom : CBlockIndex} {params : CChainParams} {node : NodeState}
lemma StakeVisible.initFromTxIn {txin}
    (visible : StakeVisible host params node branch pindexPrev txin.prevout.hash txFrom pindexFrom)
    (holds : HoldsBranch node branch) :
    initFromTxIn host node txin = some ⟨txFrom, txin.prevout.n, pindexFrom⟩ := by
  obtain ⟨block, mem, -, -⟩ := findInBranch_mem visible.inBranch
  have indexed := holds.indexed _ mem
  have found : node.getTransaction host txin.prevout.hash = some (txFrom, pindexFrom.hash) := by
    simp [NodeState.getTransaction, visible.notInMempool, visible.located]
  simp [CPivStake.initFromTxIn, found, indexed, visible.active]

lemma StakeVisible.kernelModifier {hash} (visible : StakeVisible host params node branch pindexPrev hash txFrom pindexFrom) :
    kernelModifier params.consensus node.chainActive.vChain pindexPrev pindexFrom =
      kernelModifier params.consensus (branch.map Prod.fst) pindexPrev pindexFrom := by
  unfold Peony.kernelModifier
  rcases visible.modifier with active | same
  · grind
  · rw [same]

lemma checkProofOfStake_eq_branchVerdict {block txin}
    (staked : stakeTxIn block pindexPrev = some txin) (holds : HoldsBranch node branch)
    (visible : StakeVisible host params node branch pindexPrev txin.prevout.hash txFrom pindexFrom) :
    checkProofOfStake host params node block pindexPrev = branchVerdict host params branch block pindexPrev := by
  unfold checkProofOfStake branchVerdict
  simp [loadStakeInput, staked, visible.initFromTxIn holds, visible.inBranch, visible.kernelModifier]

lemma checkProofOfStake_of_hidden {block pindexPrev txin} (late : params.checkpoints.nTimeLastCheckpoint < block.nTime)
    (staked : stakeTxIn block pindexPrev = some txin) (hidden : StakeHidden host node txin.prevout.hash) :
    checkProofOfStake host params node block pindexPrev = .error "stake input initialization failed" := by
  have fails : initFromTxIn host node txin = none := by
    unfold initFromTxIn
    cases found : node.getTransaction _ _ with
    | none => rfl
    | some res =>
      obtain ⟨txPrev, hashBlock⟩ := res
      cases idx : node.mapBlockIndex.lookup hashBlock with
      | none => simp [idx]
      | some pindex => simp [idx, hidden _ _ _ found _]
  unfold checkProofOfStake
  rw [if_neg (by omega)]
  simp [loadStakeInput, staked, fails]

def StakeFound (host : Host) (params : CChainParams) (node : NodeState) (branch : Branch) (block : CBlock)
    (pindexPrev : CBlockIndex) : Prop :=
  ∀ txin, stakeTxIn block pindexPrev = some txin →
    ∃ txFrom pindexFrom, StakeVisible host params node branch pindexPrev txin.prevout.hash txFrom pindexFrom

/-- The branch's verdict where the active chain shows the stake, else a rejection. -/
theorem checkProofOfStake_of_branch (host : Host) (params : CChainParams) (branch : Branch) (block : CBlock)
    (pindexPrev : CBlockIndex) (first second : NodeState) (firstHolds : HoldsBranch first branch)
    (secondHolds : HoldsBranch second branch) :
    (StakeFound host params first branch block pindexPrev → StakeFound host params second branch block pindexPrev →
      checkProofOfStake host params first block pindexPrev = checkProofOfStake host params second block pindexPrev ∧
      ((stakeTxIn block pindexPrev).isSome = true →
        checkProofOfStake host params first block pindexPrev = branchVerdict host params branch block pindexPrev)) ∧
    (∀ txin, params.checkpoints.nTimeLastCheckpoint < block.nTime → stakeTxIn block pindexPrev = some txin →
      StakeHidden host first txin.prevout.hash →
      checkProofOfStake host params first block pindexPrev = .error "stake input initialization failed") := by
  refine ⟨?_, fun txin late staked hidden => checkProofOfStake_of_hidden late staked hidden⟩
  intro firstFound secondFound
  cases staked : stakeTxIn _ _ with
  | none =>
    refine ⟨?_, by simp⟩
    simp [checkProofOfStake, loadStakeInput, staked]
  | some txin =>
    obtain ⟨txFirst, indexFirst, firstVisible⟩ := firstFound _ staked
    obtain ⟨txSecond, indexSecond, secondVisible⟩ := secondFound _ staked
    have verdict := checkProofOfStake_eq_branchVerdict staked firstHolds firstVisible
    exact ⟨verdict.trans (checkProofOfStake_eq_branchVerdict staked secondHolds secondVisible).symm, fun _ => verdict⟩

def forkIndex : CBlockIndex := { indexAt 1 with hash := 77 }
def genesisBlock : CBlock := { headerAt 0 with vtx := [], vchBlockSig := [] }
def stakedBlock : CBlock := { headerAt 1 with vtx := [stakedTx], vchBlockSig := [] }
def stakedBranch : Branch := [(indexAt 0, genesisBlock), (indexAt 1, stakedBlock)]

variable (chainActive : CChain)
def branchNode : NodeState where
  mapBlockIndex := (((∅ : AssocMap UInt256 CBlockIndex).insert 0 (indexAt 0)).insert 1 (indexAt 1)).insert 77 forkIndex
  chainActive := chainActive
  mempool := ∅
  fTxIndex := true
  txIndex := (∅ : AssocMap UInt256 (CBlockHeader × CTransaction)).insert 1 (headerAt 1, stakedTx)
  blockFiles := ((∅ : AssocMap UInt256 CBlock).insert 0 genesisBlock).insert 1 stakedBlock
  pcoinsTip := .db ⟨0, ∅⟩

def forkedChain : CChain where
  vChain := [indexAt 0, forkIndex]
  heights := by
    intro i pindex found
    match i with
    | 0 =>
      cases found
      rfl
    | 1 =>
      cases found
      rfl

lemma branchNode_holds : HoldsBranch (branchNode chainActive) stakedBranch := by
  constructor
  · intro entry mem
    simp only [stakedBranch, mem_cons, not_mem_nil, or_false] at mem
    rcases mem with rfl | rfl <;> rfl
  · intro entry mem
    simp only [stakedBranch, mem_cons, not_mem_nil, or_false] at mem
    rcases mem with rfl | rfl <;> rfl

lemma stakedBranch_isBranch : IsBranch permissiveHost stakedBranch (indexAt 1) where
  tip := rfl
  heights := by
    intro i entry found
    match i with
    | 0 =>
      cases found
      rfl
    | 1 =>
      cases found
      rfl
  hashes := by
    intro entry mem
    simp only [stakedBranch, mem_cons, not_mem_nil, or_false] at mem
    rcases mem with rfl | rfl <;> rfl
  linked := by
    intro i parent child parentAt childAt
    match i with
    | 0 =>
      cases parentAt
      cases childAt
      rfl

lemma branchNode_stakeFound (active : chainActive.contains (indexAt 1) = true)
    (modifier : getOldStakeModifier mainConsensus chainActive.vChain (indexAt 1) =
      getOldStakeModifier mainConsensus (stakedBranch.map Prod.fst) (indexAt 1)) :
    StakeFound permissiveHost mainParams (branchNode chainActive) stakedBranch (stakeBlock 2 1721466406) (indexAt 1) := by
  intro txin staked
  obtain rfl : txin = ⟨_, [], 0⟩ := by
    cases staked
    rfl
  exact ⟨_, _, rfl, rfl, rfl, active, .inr modifier⟩

theorem checkProofOfStake_agrees_above :
    checkProofOfStake permissiveHost mainParams (branchNode (straightChain 2)) (stakeBlock 2 1721466406) (indexAt 1) =
      checkProofOfStake permissiveHost mainParams (branchNode (straightChain 3)) (stakeBlock 2 1721466406) (indexAt 1) :=
  ((checkProofOfStake_of_branch permissiveHost mainParams stakedBranch (stakeBlock 2 1721466406) (indexAt 1)
    (branchNode (straightChain 2)) (branchNode (straightChain 3)) (branchNode_holds _) (branchNode_holds _)).1
    (branchNode_stakeFound _ (by decide) (by decide)) (branchNode_stakeFound _ (by decide) (by decide))).1

/-- The same blocks, once on the branch and once on a fork at height 1. -/
theorem checkProofOfStake_differs_by_tip :
    ¬ ∀ (host : Host) (params : CChainParams) (branch : Branch) (block : CBlock) (pindexPrev : CBlockIndex)
      (first second : NodeState), IsBranch host branch pindexPrev → HoldsBranch first branch →
      HoldsBranch second branch →
      checkProofOfStake host params first block pindexPrev = checkProofOfStake host params second block pindexPrev := by
  intro same
  have equal := same permissiveHost mainParams stakedBranch (stakeBlock 2 1721466406) (indexAt 1)
    (branchNode (straightChain 2)) (branchNode forkedChain) stakedBranch_isBranch (branchNode_holds _)
    (branchNode_holds _)
  have accepted : checkProofOfStake permissiveHost mainParams (branchNode (straightChain 2)) (stakeBlock 2 1721466406)
      (indexAt 1) = .ok () := by decide
  have rejected : checkProofOfStake permissiveHost mainParams (branchNode forkedChain) (stakeBlock 2 1721466406)
      (indexAt 1) = .error "stake input initialization failed" := by decide
  rw [accepted, rejected] at equal
  cases equal

end Peony
