import Peony.Rewards.Reorg
import Peony.Validation.Inflation

namespace Peony
open Int64Arith Consensus

section
def capped (nSubsidy : Int) : Option Int → Int
  | some amount => min nSubsidy amount
  | none => nSubsidy

def rewardLimit (params : Params) (entry : Nat → Option Int) : Nat → Int
  | 0 => getBlockSubsidy 0
  | nHeight + 1 =>
    if params.networkUpgradeActive (nHeight + 1) .dynamicRewards then
      if params.isDynamicRewardsEpochHeight (nHeight + 1) then rewardLimit params entry nHeight
      else capped (getBlockSubsidy (nHeight + 1)) (entry (params.getDynamicRewardsEpochHeight (nHeight + 1)))
    else getBlockSubsidy (nHeight + 1)

variable {params : Params}
lemma getBlockValue_eq_rewardLimit (mDynamicRewards nHeight) :
    getBlockValue params mDynamicRewards nHeight = rewardLimit params mDynamicRewards.lookup nHeight := by
  induction nHeight with
  | zero => rfl
  | succ nHeight ih =>
    rw [getBlockValue, rewardLimit, ih]
    cases mDynamicRewards.lookup _ <;> rfl

lemma rewardLimit_congr {entry entry'} (nHeight)
    (same : ∀ h ≤ nHeight, params.networkUpgradeActive h .dynamicRewards = true →
      params.isDynamicRewardsEpochHeight h = false →
      capped (getBlockSubsidy h) (entry (params.getDynamicRewardsEpochHeight h)) =
        capped (getBlockSubsidy h) (entry' (params.getDynamicRewardsEpochHeight h))) :
    rewardLimit params entry nHeight = rewardLimit params entry' nHeight := by
  induction nHeight with
  | zero => rfl
  | succ nHeight ih => grind [rewardLimit]

section
variable {nHeight : Nat} (other : params.isDynamicRewardsEpochHeight nHeight = false)
include other

lemma epochHeight_lt : params.getDynamicRewardsEpochHeight nHeight < nHeight := by
  have le := params.epochHeight_le nHeight
  have ne : params.getDynamicRewardsEpochHeight nHeight ≠ nHeight := by grind [Consensus.Params.isDynamicRewardsEpochHeight]
  omega

lemma epochHeight_succ : params.getDynamicRewardsEpochHeight (params.getDynamicRewardsEpochHeight nHeight + 1) =
      params.getDynamicRewardsEpochHeight nHeight := by
  have mono : ∀ {h h' : Nat}, h ≤ h' → params.getDynamicRewardsEpochHeight h ≤ params.getDynamicRewardsEpochHeight h' :=
    fun le => Nat.mul_le_mul_right _ (Nat.div_le_div_right le)
  have own : params.getDynamicRewardsEpochHeight (params.getDynamicRewardsEpochHeight nHeight) =
      params.getDynamicRewardsEpochHeight nHeight :=
    beq_iff_eq.mp (Params.isEpochHeight_iff.mpr (params.epochHeight_dvd _))
  apply le_antisymm (mono (epochHeight_lt other))
  calc params.getDynamicRewardsEpochHeight _ = params.getDynamicRewardsEpochHeight _ := own.symm
    _ ≤ params.getDynamicRewardsEpochHeight _ := mono (Nat.le_succ _)
end

lemma rewardLimit_of_other {entry nHeight}
    (active : params.networkUpgradeActive nHeight .dynamicRewards = true)
    (other : params.isDynamicRewardsEpochHeight nHeight = false) :
    rewardLimit params entry nHeight =
      capped (getBlockSubsidy nHeight) (entry (params.getDynamicRewardsEpochHeight nHeight)) := by
  cases nHeight with
  | zero => exact absurd (epochHeight_lt other) (Nat.not_lt_zero _)
  | succ nHeight => simp [rewardLimit, active, other]
end

/-- What the coinstake pays out beyond the coins it spends. -/
structure StakeMint (block : CBlock) (spent : COutPoint → Int) (nMint : Int) : Prop where
  staked : block.isProofOfStake = true
  minted : ∃ coinstake, block.vtx[1]? = some coinstake ∧ coinstake.getValueOut = .ok coinstake.valueOut ∧
    nMint = wrapInt64 (coinstake.valueOut - (coinstake.vin.map fun txin => spent txin.prevout).sum)

end Peony
