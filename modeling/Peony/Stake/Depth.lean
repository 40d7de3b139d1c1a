import Peony.Stake.Kernel
import Peony.Consensus.MainNet

namespace Peony
open Consensus CPivStake

section
variable (params : Params)
section
variable (nHeight : Nat)
def requiredStakeDepth : Int :=
  if params.networkUpgradeActive nHeight .stakeMinDepthV2 then params.nStakeMinDepthV2 else params.nStakeMinDepth

def stakeDepth (stake : CPivStake) : Int := (nHeight : Int) - stake.pindexFrom.nHeight

/-- Accepted at `nHeight` behind the last checkpoint: the stake is deep enough. -/
def StakeDepthEnforced (params : CChainParams) (nHeight : Nat) : Prop :=
  ∀ (host : Host) (node : NodeState) (block : CBlock) (pindexPrev : CBlockIndex) (stake : CPivStake),
    pindexPrev.nHeight + 1 = nHeight → params.checkpoints.nTimeLastCheckpoint < block.nTime →
    loadStakeInput host node block pindexPrev = some stake →
    checkProofOfStake host params node block pindexPrev = .ok () →
    requiredStakeDepth params.consensus nHeight ≤ stakeDepth nHeight stake

def stakeDepthThreshold : Int :=
  if params.networkUpgradeActive nHeight .stakeMinDepthV2 then 1 else 0
end

def selectedStakeDepth (nHeight nHeightFrom : Nat) : Int :=
  if stakeDepthThreshold params nHeight ≤ (nHeight : Int) - nHeightFrom then params.nStakeMinDepthV2
  else params.nStakeMinDepth
end

lemma hasStakeMinAgeOrDepth_iff {params nHeight}
    (active : params.networkUpgradeActive nHeight .stakeModifierV2 = true) (nTime nHeightFrom nTimeFrom) :
    params.hasStakeMinAgeOrDepth nHeight nTime nHeightFrom nTimeFrom = true ↔
      selectedStakeDepth params nHeight nHeightFrom ≠ 0 := by
  simp only [Params.hasStakeMinAgeOrDepth, active, Bool.not_true, Bool.false_eq_true, if_false, bne_iff_ne, ge_iff_le]
  rfl

lemma checkProofOfStake_loaded {host params node block pindexPrev stake} (late : params.checkpoints.nTimeLastCheckpoint < block.nTime)
    (loaded : loadStakeInput host node block pindexPrev = some stake) :
    checkProofOfStake host params node block pindexPrev =
      checkStakeInput host params.consensus block pindexPrev stake
        (kernelModifier params.consensus node.chainActive.vChain pindexPrev stake.pindexFrom) := by
  unfold checkProofOfStake
  rw [if_neg (by omega), loaded]

section
def straightChain (nBlocks : Nat) : CChain where
  vChain := (List.range nBlocks).map indexAt
  heights := by
    intro i pindex found
    obtain ⟨j, inRange, rfl⟩ : ∃ j, (List.range nBlocks)[i]? = some j ∧ indexAt j = pindex := by
      simpa only [List.getElem?_map, Option.map_eq_some_iff] using found
    have bound := (List.getElem?_eq_some_iff.mp inRange).2
    simp only [List.getElem_range] at bound
    exact bound.symm

lemma straightChain_contains (nBlocks nHeight) (ins : nHeight < nBlocks) :
    (straightChain nBlocks).contains (indexAt nHeight) = true := by
  have found : (straightChain nBlocks).index nHeight = some (indexAt nHeight) := by simp [CChain.index, straightChain, ins]
  simp only [CChain.contains, show (indexAt _).nHeight = nHeight from rfl, found, Option.any_some, beq_self_eq_true]

def headerAt (nHeight : Nat) : CBlockHeader := ⟨7, 0, 0, 0, 0, nHeight, 0⟩
def stakedTx : CTransaction := ⟨1, [⟨⟨9, 0⟩, [], 0⟩], [⟨100, [0x51]⟩], 0⟩

def stakeNode (nHeightFrom : Nat) : NodeState where
  mapBlockIndex := (∅ : AssocMap UInt256 CBlockIndex).insert (indexAt nHeightFrom).hash (indexAt nHeightFrom)
  chainActive := straightChain (nHeightFrom + 1)
  mempool := ∅
  fTxIndex := true
  txIndex := (∅ : AssocMap UInt256 (CBlockHeader × CTransaction)).insert 1 (headerAt nHeightFrom, stakedTx)
  blockFiles := ∅
  pcoinsTip := .db ⟨0, ∅⟩

def stakeBlock (nHeight nTime : Nat) : CBlock where
  nVersion := 7
  hashPrevBlock := (indexAt (nHeight - 1)).hash
  hashMerkleRoot := 0
  nTime := nTime
  nBits := 0x03000001
  nNonce := nHeight
  nAccumulatorCheckpoint := 0
  vtx := [⟨1, [⟨⟨0, 4294967295⟩, [0, 0], 0⟩], [⟨0, []⟩], 0⟩,
    ⟨1, [⟨⟨1, 0⟩, [], 0⟩], [⟨0, []⟩, ⟨100, [0x51]⟩], 0⟩]
  vchBlockSig := []

lemma stakeNode_load (nHeight nTime nHeightFrom) :
    loadStakeInput permissiveHost (stakeNode nHeightFrom) (stakeBlock nHeight nTime) (indexAt (nHeight - 1)) =
      some ⟨stakedTx, 0, indexAt nHeightFrom⟩ := by
  have ins := straightChain_contains (nHeightFrom + 1) nHeightFrom (by omega)
  have found : (stakeNode nHeightFrom).getTransaction permissiveHost 1 = some (stakedTx, (indexAt nHeightFrom).hash) := rfl
  have idx : (stakeNode nHeightFrom).mapBlockIndex.lookup (indexAt nHeightFrom).hash = some (indexAt nHeightFrom) :=
    AList.lookup_insert _
  have inits : initFromTxIn permissiveHost (stakeNode nHeightFrom) ⟨⟨1, 0⟩, [], 0⟩ = some ⟨stakedTx, 0, indexAt nHeightFrom⟩ := by
    simp only [initFromTxIn, found, Option.bind_eq_bind, Option.bind_some, idx, if_pos ins,
      show (stakeNode _).chainActive = straightChain _ from rfl]
  have parent : (stakeBlock nHeight nTime).hashPrevBlock = (indexAt (nHeight - 1)).hash := rfl
  have staked : (stakeBlock nHeight nTime).isProofOfStake = true := rfl
  have txin : stakeTxIn (stakeBlock nHeight nTime) (indexAt (nHeight - 1)) = some ⟨⟨1, 0⟩, [], 0⟩ := by
    unfold stakeTxIn
    rw [if_neg (not_not.mpr parent)]
    rfl
  rw [loadStakeInput, txin]
  exact inits

lemma permissiveHost_checkKernelHash {kernel : CStakeKernel} (bits : kernel.nBits = 0x03000001)
    (value : kernel.stakeValue = 100) : kernel.checkKernelHash permissiveHost = true := by
  have target : kernel.target = 1 := by
    rw [CStakeKernel.target, bits, value]
    decide
  rw [CStakeKernel.checkKernelHash, target]
  rfl

lemma stakeNode_accepts (params : CChainParams) {nHeight nTime nHeightFrom} (pos : 0 < nHeight)
    (late : params.checkpoints.nTimeLastCheckpoint < nTime)
    (active : params.consensus.networkUpgradeActive nHeight .stakeModifierV2 = true)
    (sel : selectedStakeDepth params.consensus nHeight nHeightFrom ≠ 0) :
    checkProofOfStake permissiveHost params (stakeNode nHeightFrom) (stakeBlock nHeight nTime) (indexAt (nHeight - 1)) =
      .ok () := by
  have height : (indexAt (nHeight - 1)).nHeight + 1 = nHeight := by
    change nHeight - 1 + 1 = nHeight
    omega
  rw [checkProofOfStake_loaded late (stakeNode_load ..), checkStakeInput, height]
  have ctx : contextCheck params.consensus ⟨stakedTx, 0, indexAt nHeightFrom⟩ nHeight
      (stakeBlock nHeight nTime).nTime = true := (hasStakeMinAgeOrDepth_iff active ..).mpr sel
  refine Except.require_bind_eq_ok.mpr ⟨ctx, ?_⟩
  exact Except.require_bind_eq_ok.mpr ⟨permissiveHost_checkKernelHash rfl rfl, rfl⟩
end

/-- Only where the parameters make the selected value zero or trivial. -/
theorem stakeDepth_enforced_iff (params : CChainParams) (nHeight : Nat) (positive : 0 < nHeight)
    (active : params.consensus.networkUpgradeActive nHeight .stakeModifierV2 = true) :
    StakeDepthEnforced params nHeight ↔
      params.consensus.nStakeMinDepth = 0 ∧
        (params.consensus.networkUpgradeActive nHeight .stakeMinDepthV2 = true →
          params.consensus.nStakeMinDepthV2 ≤ 1) := by
  have accepts : ∀ nHeightFrom, selectedStakeDepth params.consensus nHeight nHeightFrom ≠ 0 → StakeDepthEnforced params nHeight →
      requiredStakeDepth params.consensus nHeight ≤ (nHeight : Int) - nHeightFrom := by
    intro nHeightFrom selected enforced
    exact enforced _ _
      _ _ _
      (Nat.sub_add_cancel positive) (Nat.lt_succ_self _) (stakeNode_load ..)
      (stakeNode_accepts _ positive (Nat.lt_succ_self _) active selected)
  have threshold : 0 ≤ stakeDepthThreshold params.consensus nHeight := by grind [stakeDepthThreshold]
  constructor
  · intro enforced
    refine ⟨?_, ?_⟩
    · -- an origin far above the block's height selects the old depth
      by_contra nonzero
      let above := nHeight + (requiredStakeDepth params.consensus nHeight).natAbs + 1
      have selected : selectedStakeDepth params.consensus nHeight above = params.consensus.nStakeMinDepth := by
        unfold selectedStakeDepth
        rw [if_neg (by omega)]
      have deep := accepts _ (by rw [selected]; exact nonzero) enforced
      omega
    · intro activeV2
      by_contra large
      have selected : selectedStakeDepth params.consensus nHeight (nHeight - 1) = params.consensus.nStakeMinDepthV2 := by
        simp only [selectedStakeDepth, stakeDepthThreshold, activeV2, if_true]
        rw [if_pos (by omega)]
      have deep := accepts (nHeight - 1) (by omega) enforced
      simp only [requiredStakeDepth, activeV2, if_true] at deep
      omega
  · rintro ⟨zero, small⟩ host node block pindexPrev stake rfl late loaded accepted
    rw [checkProofOfStake_loaded late loaded] at accepted
    have passes := (Except.require_bind_eq_ok.mp accepted).1
    rw [contextCheck, hasStakeMinAgeOrDepth_iff active] at passes
    have deep : stakeDepthThreshold params.consensus (pindexPrev.nHeight + 1) ≤ stakeDepth (pindexPrev.nHeight + 1) stake := by
      by_contra shallow
      apply passes
      unfold stakeDepth at shallow
      rw [selectedStakeDepth, if_neg shallow, zero]
    refine le_trans ?_ deep
    cases activeV2 : params.consensus.networkUpgradeActive (pindexPrev.nHeight + 1) .stakeMinDepthV2 with
    | true => simpa [requiredStakeDepth, stakeDepthThreshold, activeV2] using small activeV2
    | false => simp [requiredStakeDepth, stakeDepthThreshold, activeV2, zero]

theorem stakeDepth_enforced_noDepth :
    StakeDepthEnforced { mainParams with consensus := { mainConsensus with nStakeMinDepth := 0, nStakeMinDepthV2 := 1 } }
      200000 :=
  (stakeDepth_enforced_iff
    { mainParams with consensus := { mainConsensus with nStakeMinDepth := 0, nStakeMinDepthV2 := 1 } } 200000
    (by decide) (by decide)).mpr ⟨rfl, fun _ => le_refl 1⟩

/-- At height 200000 a block stakes an output of its parent; 600 is required. -/
theorem mainNet_accepts_shallow_stake : ¬ StakeDepthEnforced mainParams 200000 ∧
      checkProofOfStake permissiveHost mainParams (stakeNode 199999) (stakeBlock 200000 1721466406) (indexAt 199999) =
        .ok () ∧
      loadStakeInput permissiveHost (stakeNode 199999) (stakeBlock 200000 1721466406) (indexAt 199999) =
        some ⟨stakedTx, 0, indexAt 199999⟩ ∧
      stakeDepth 200000 ⟨stakedTx, 0, indexAt 199999⟩ = 1 ∧ requiredStakeDepth mainConsensus 200000 = 600 := by
  have accepted : checkProofOfStake permissiveHost mainParams (stakeNode 199999) (stakeBlock 200000 1721466406) (indexAt 199999) = .ok () :=
    stakeNode_accepts mainParams (by decide) (by decide) (by decide) (by decide)
  have loaded := stakeNode_load 200000 1721466406 199999
  refine ⟨?_, accepted, loaded, by decide, by decide⟩
  intro enforced
  have deep := enforced _ _ _ _ _ rfl (by decide) loaded accepted
  exact absurd deep (by decide)

end Peony
