import Peony.Validation.ConnectBlock

namespace Peony
open Int64Arith Consensus

def TOT_SPLY_TRGT_EMISSION : Int := 50000
def CIRC_SPLY_TRGT_EMISSION : Int := 100000

def getMasternodeNodeCollateral (nHeight : Int) : Int :=
  if 400000 < nHeight then 100000 * COIN
  else if 300000 < nHeight then 70000 * COIN
  else if 200000 < nHeight then 50000 * COIN
  else if 100000 < nHeight then 30000 * COIN
  else if 0 < nHeight then 20000 * COIN
  else 0

section
variable (params : Params)
def isCollateralAmount (nHeight : Nat) (nValue : Int) : Bool :=
  nValue == getMasternodeNodeCollateral nHeight ||
    nValue == getMasternodeNodeCollateral (nHeight + params.nBlocksPerWeek)

/-- The percentage of a coin that circulates. The difference of the heights is unsigned. -/
def nSupplyWeightRatio (nHeight : Nat) (coin : Coin) : Int :=
  let nMultiplier : Int := 100000000
  let nBlocksDiff := ((nHeight : Int) - coin.nHeight) % 2 ^ 32
  let slope := (100 * nMultiplier).tdiv (9 * params.nBlocksPerMonth)
  let fallen := wrapInt64 (slope * wrapInt64 (nBlocksDiff - 3 * params.nBlocksPerMonth))
  min (max ((wrapInt64 (100 * nMultiplier - fallen)).tdiv nMultiplier) 0) 100

/-- The scan of the coin database, which leaves out burned coins and masternode collaterals. -/
def nCirculatingSupply (host : Host) (params : Params) (nHeight : Nat) (coins : CoinMap) : Int :=
  coins.entries.foldl (fun nCirculatingSupply entry =>
    let coin := entry.2
    if !coin.isSpent && !paysBurnAddress host params nHeight coin.out.scriptPubKey &&
        !isCollateralAmount params nHeight coin.out.nValue then
      wrapInt64 (nCirculatingSupply + (wrapInt64 (coin.out.nValue * nSupplyWeightRatio params nHeight coin)).tdiv 100)
    else nCirculatingSupply) 0

/-- The coin database after `FlushStateToDisk`, and the staking power, a floating point result. -/
structure EpochInputs where
  coins : CoinMap
  nNetworkHashPS : Int

def nTargetEmission (nSupply nEmissionRate : Int) : Int :=
  wrapInt64 (wrapInt64 (((nSupply.tdiv (365 * params.nBlocksPerDay)).tdiv 1000000) * nEmissionRate) *
    params.nRewardAdjustmentInterval)
end

variable (host : Host) (params : Params) (inputs : EpochInputs) (pindex : CBlockIndex) (nSubsidy : Int)
def nDelta : Int :=
  let nStakedCoins := wrapInt64 (wrapInt64 (inputs.nNetworkHashPS * params.timeSlotLength pindex.nHeight) * 100)
  let nCirculating := max (wrapInt64 (nCirculatingSupply host params pindex.nHeight inputs.coins - nStakedCoins)) 0
  let nActualEmission := wrapInt64 (nSubsidy * params.nRewardAdjustmentInterval)
  let nTarget := (wrapInt64 (nTargetEmission params pindex.nMoneySupply TOT_SPLY_TRGT_EMISSION +
    nTargetEmission params nCirculating CIRC_SPLY_TRGT_EMISSION)).tdiv 2
  (wrapInt64 (nActualEmission - nTarget)).tdiv params.nRewardAdjustmentInterval

/-- One percent for a reward on its target, up to ten percent for one off by its own size. -/
def nWeightRatio (nDelta nSubsidy : Int) : Int :=
  let nRatio : Int := ((wrapInt64 (nDelta * 100)).tdiv nSubsidy).natAbs
  (min nRatio 100 * 9).tdiv 100 + 1

lemma nWeightRatio_range (nDelta nSubsidy) : 1 ≤ nWeightRatio nDelta nSubsidy ∧ nWeightRatio nDelta nSubsidy ≤ 10 := by
  rw [nWeightRatio, Int.tdiv_eq_ediv_of_nonneg (by omega)]
  omega

def adjustSubsidy : Except Failure Int := do
  let delta := nDelta host params inputs pindex nSubsidy
  Except.require (nSubsidy != 0) (.fault "(nDelta * 100) / nSubsidy")
  let nDampedDelta := (wrapInt64 (delta * nWeightRatio delta nSubsidy)).tdiv 100
  return (wrapInt64 (nSubsidy - nDampedDelta)).tdiv COIN * COIN

end Peony
