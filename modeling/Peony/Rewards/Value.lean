import Peony.Consensus.Params

namespace Peony
open Int64Arith Consensus

def getBlockSubsidy (nHeight : Nat) : Int :=
  if 700000 < nHeight then 380 * COIN
  else if 600000 < nHeight then 520 * COIN
  else if 500000 < nHeight then 760 * COIN
  else if 400000 < nHeight then 900 * COIN
  else if 300000 < nHeight then 600 * COIN
  else if 200000 < nHeight then 380 * COIN
  else if 110000 < nHeight then 180 * COIN
  else if 100000 < nHeight then 120 * COIN
  else if 1 < nHeight then 50 * COIN
  else if 0 < nHeight then 7750000 * COIN
  else 0

namespace Consensus.Params
variable (params : Params) (nHeight : Nat)
def getDynamicRewardsEpoch : Nat := nHeight / params.nRewardAdjustmentInterval

def getDynamicRewardsEpochHeight : Nat :=
  params.getDynamicRewardsEpoch nHeight * params.nRewardAdjustmentInterval

def isDynamicRewardsEpochHeight : Bool :=
  params.getDynamicRewardsEpochHeight nHeight == nHeight

lemma epochHeight_le : params.getDynamicRewardsEpochHeight nHeight ≤ nHeight :=
  Nat.div_mul_le_self _ _

lemma epochHeight_dvd : params.nRewardAdjustmentInterval ∣ params.getDynamicRewardsEpochHeight nHeight :=
  Dvd.intro_left _ rfl

lemma isEpochHeight_iff {params : Params} {nHeight} :
    params.isDynamicRewardsEpochHeight nHeight = true ↔ params.nRewardAdjustmentInterval ∣ nHeight := by
  simp only [isDynamicRewardsEpochHeight, beq_iff_eq]
  exact ⟨fun same => same ▸ params.epochHeight_dvd _, fun dvd => Nat.div_mul_cancel dvd⟩

end Consensus.Params

lemma active_mono {params : Params} {h h'} (on : params.networkUpgradeActive h .dynamicRewards = true) (le : h ≤ h') :
    params.networkUpgradeActive h' .dynamicRewards = true := by
  simp only [Consensus.Params.networkUpgradeActive, Bool.and_eq_true, decide_eq_true_eq] at on ⊢
  exact ⟨on.1, by omega⟩

abbrev DynamicRewards := AssocMap Nat Int

/-- Never asked for the genesis height. An epoch's first height takes the value before it. -/
def getBlockValue (params : Params) (mDynamicRewards : DynamicRewards) : Nat → Int
  | 0 => getBlockSubsidy 0
  | nHeight + 1 =>
    if params.networkUpgradeActive (nHeight + 1) .dynamicRewards then
      if params.isDynamicRewardsEpochHeight (nHeight + 1) then getBlockValue params mDynamicRewards nHeight
      else match mDynamicRewards.lookup (params.getDynamicRewardsEpochHeight (nHeight + 1)) with
        | some amount => min (getBlockSubsidy (nHeight + 1)) amount
        | none => getBlockSubsidy (nHeight + 1)
    else getBlockSubsidy (nHeight + 1)

lemma ite_range {c} [Decidable c] {low high x y : Int} (first : low ≤ x ∧ x ≤ high)
    (snd : low ≤ y ∧ y ≤ high) : low ≤ (if c then x else y) ∧ (if c then x else y) ≤ high := by omega

lemma getBlockSubsidy_range (nHeight : Nat) : 0 ≤ getBlockSubsidy nHeight ∧ getBlockSubsidy nHeight ≤ 7750000 * COIN := by
  repeat' apply ite_range
  all_goals decide

lemma getBlockValue_ge (params) {mDynamicRewards}
    (amts : ∀ nHeight amt, mDynamicRewards.lookup nHeight = some amt → FitsInt64 amt) (nHeight) :
    -2 ^ 63 ≤ getBlockValue params mDynamicRewards nHeight := by
  induction nHeight with
  | zero => exact le_trans (by decide) (getBlockSubsidy_range 0).1
  | succ nHeight ih =>
    have bound : -2 ^ 63 ≤ getBlockSubsidy (nHeight + 1) := le_trans (by decide) (getBlockSubsidy_range _).1
    rw [getBlockValue]
    split
    · split
      · exact ih
      · split
        · rename_i found
          exact le_min bound (amts _ _ found).1
        · exact bound
    · exact bound

end Peony
