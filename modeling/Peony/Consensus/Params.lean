import Peony.Library.AssocMap
import Peony.Primitives.Transaction

namespace Peony

def DAY_IN_SECONDS : Int := 24 * 3600
def WEEK_IN_SECONDS : Int := 7 * DAY_IN_SECONDS
def MONTH_IN_SECONDS : Int := 30 * DAY_IN_SECONDS

namespace Consensus

inductive UpgradeIndex where
  | baseNetwork | pos | posV2 | bip65 | stakeModifierV2 | timeProtocolV2 | p2pkhBlockSignatures
  | stakeMinDepthV2 | dynamicRewards | dynamicCollaterals | posV3 | testDummy
  deriving DecidableEq, Repr

def ALWAYS_ACTIVE : Int := 0
def NO_ACTIVATION_HEIGHT : Int := -1

structure Params where
  hashGenesisBlock : UInt256
  (nCoinbaseMaturity nMaxMoneyOut nStakeMinAge nStakeMinDepth nStakeMinDepthV2 nTargetSpacing nTimeSlotLength : Int)
  nRewardAdjustmentInterval : Nat
  mBurnAddresses : AssocMap String Int
  vUpgrades : UpgradeIndex → Int
  maxMoney_nonneg : 0 ≤ nMaxMoneyOut
  maxMoney_lt : nMaxMoneyOut < 2 ^ 62
  interval_pos : 0 < nRewardAdjustmentInterval

namespace Params
variable (params : Params)
def networkUpgradeActive (nHeight : Nat) (idx : UpgradeIndex) : Bool :=
  params.vUpgrades idx != NO_ACTIVATION_HEIGHT && decide (params.vUpgrades idx ≤ nHeight)

def moneyRange (nValue : Int) : Bool :=
  decide (0 ≤ nValue) && decide (nValue ≤ params.nMaxMoneyOut)

def isTimeProtocolV2 (nHeight : Nat) : Bool := params.networkUpgradeActive nHeight .timeProtocolV2

def timeSlotLength (nHeight : Nat) : Int :=
  if params.isTimeProtocolV2 nHeight then params.nTimeSlotLength else 1

/-- Before stake modifier V2 the age is a 32-bit unsigned difference; after it the conditional operator takes the
whole comparison as its condition. -/
def hasStakeMinAgeOrDepth (contextHeight contextTime utxoFromBlockHeight utxoFromBlockTime : Nat) : Bool :=
  if !params.networkUpgradeActive contextHeight .stakeModifierV2 then
    decide ((utxoFromBlockTime + params.nStakeMinAge) % 2 ^ 32 ≤ contextTime)
  else
    let active : Int := if params.networkUpgradeActive contextHeight .stakeMinDepthV2 then 1 else 0
    let depth := if (contextHeight : Int) - utxoFromBlockHeight ≥ active then params.nStakeMinDepthV2
      else params.nStakeMinDepth
    depth != 0

def isBurnAddress (strAddress : String) (nHeight : Nat) : Bool :=
  (params.mBurnAddresses.lookup strAddress).any fun activation => decide (activation < (nHeight : Int))

def nBlocksPerDay (params : Params) : Int := DAY_IN_SECONDS.tdiv params.nTargetSpacing
def nBlocksPerWeek (params : Params) : Int := WEEK_IN_SECONDS.tdiv params.nTargetSpacing
def nBlocksPerMonth (params : Params) : Int := MONTH_IN_SECONDS.tdiv params.nTargetSpacing

lemma moneyRange_iff {params : Params} {nValue} : params.moneyRange nValue = true ↔ 0 ≤ nValue ∧ nValue ≤ params.nMaxMoneyOut := by
  simp [moneyRange]

end Params

end Consensus

structure CCheckpointData where
  mapCheckpoints : AssocMap Nat UInt256
  nTimeLastCheckpoint : Nat

structure CChainParams where
  consensus : Consensus.Params
  checkpoints : CCheckpointData
  fEnabled : Bool

namespace CChainParams
variable (params : CChainParams)
def lastCheckpointHeight : Nat :=
  (params.checkpoints.mapCheckpoints.entries.map fun checkpoint => checkpoint.1).foldl max 0

def getTotalBlocksEstimate : Nat :=
  if params.fEnabled then params.lastCheckpointHeight else 0

def checkBlockCheckpoint (nHeight : Nat) (hash : UInt256) (fMatchesCheckpoint : Bool) : Bool :=
  if !params.fEnabled then true
  else match params.checkpoints.mapCheckpoints.lookup nHeight with
    | none => !fMatchesCheckpoint
    | some checkpoint => hash == checkpoint

end CChainParams

end Peony
