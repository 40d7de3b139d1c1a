import Peony.Library.Except
import Peony.Chain.Node
import Peony.Consensus.MainNet
import Peony.Primitives.ArithUint256

namespace Peony
open Int64Arith Consensus BitVec ArithUint256

/-- The consensus parameters that a retarget reads. A day has room for a block. -/
structure WorkParams extends Params where
  (powLimit posLimitV1 posLimitV2 : UInt256)
  (nTargetTimespan nTargetTimespanV2 : Int)
  fRegTestNet : Bool
  spacing_pos : 0 < nTargetSpacing
  spacing_le_day : nTargetSpacing ≤ DAY_IN_SECONDS

namespace WorkParams
variable (params : WorkParams)
def proofOfStakeLimit (fV2 : Bool) : UInt256 := if fV2 then params.posLimitV2 else params.posLimitV1

def targetTimespan (nHeight : Nat) : Int :=
  if params.isTimeProtocolV2 nHeight then params.nTargetTimespanV2 else params.nTargetTimespan

end WorkParams

def NodeState.prev (node : NodeState) (pindex : CBlockIndex) : Option CBlockIndex :=
  pindex.pprev.bind node.mapBlockIndex.lookup

def toUInt32 (x : Int) : Nat := (x % 2 ^ 32).toNat
def toUInt64 (x : Int) : Nat := (x % 2 ^ 64).toNat

/-- The end of every retarget. The multiplier, an `int64_t`, goes through the product with a `uint32_t`. -/
def nextTarget (bnNew : UInt256) (nMultiplier nDivisor : Int) (limit : UInt256) : Except Failure Nat := do
  let bnNew ← divide (mulUInt32 bnNew (toUInt32 nMultiplier)) (BitVec.ofNat 256 (toUInt64 nDivisor))
  return getCompact (if limit < bnNew then limit else bnNew)

lemma nextTarget_eq (bnNew nMultiplier) {nDivisor} (nz : toUInt64 nDivisor ≠ 0) (limit) :
    nextTarget bnNew nMultiplier nDivisor limit =
      .ok (getCompact (BitVec.ofNat 256
        (min limit.toNat (bnNew.toNat * toUInt32 nMultiplier % 2 ^ 256 / toUInt64 nDivisor)))) := by
  have bound : toUInt64 nDivisor < 2 ^ 256 := by
    unfold toUInt64
    omega
  have divisor : (BitVec.ofNat 256 (toUInt64 nDivisor)).toNat = toUInt64 nDivisor := by rw [BitVec.toNat_ofNat, Nat.mod_eq_of_lt bound]
  have pos : BitVec.ofNat 256 (toUInt64 nDivisor) ≠ 0 := by
    intro zero
    rw [zero] at divisor
    exact nz divisor.symm
  have value : ∀ quot, (if limit < quot then limit else quot) =
      BitVec.ofNat 256 (min limit.toNat quot.toNat) := by
    intro quot
    split
    · next above => rw [Nat.min_eq_left (Nat.le_of_lt above), ofNat_toNat, setWidth_eq]
    · next below => rw [Nat.min_eq_right (Nat.le_of_not_lt below), ofNat_toNat, setWidth_eq]
  rw [nextTarget, divide_eq pos]
  change Except.ok _ = _
  rw [value, toNat_udiv, mulUInt32_toNat _ (by unfold toUInt32; omega), divisor]

section
structure DarkGravity where
  CountBlocks : Nat
  PastDifficultyAverage : UInt256
  (nActualTimespan LastBlockTime : Int)

def DarkGravity.average (gravity : DarkGravity) (CountBlocks nBits : Nat) : Except Failure UInt256 :=
  if CountBlocks = 1 then .ok (setCompact nBits)
  else divide (mulUInt32 gravity.PastDifficultyAverage CountBlocks + setCompact nBits)
    (BitVec.ofNat 256 (CountBlocks + 1))

def DarkGravity.read (gravity : DarkGravity) (BlockReading : CBlockIndex) : Except Failure DarkGravity := do
  let CountBlocks := gravity.CountBlocks + 1
  let PastDifficultyAverage ← gravity.average CountBlocks BlockReading.nBits
  return {
    CountBlocks := CountBlocks
    PastDifficultyAverage := PastDifficultyAverage
    nActualTimespan := if 0 < gravity.LastBlockTime then gravity.nActualTimespan + (gravity.LastBlockTime - BlockReading.nTime)
      else gravity.nActualTimespan
    LastBlockTime := BlockReading.nTime }

def DarkGravity.walk (node : NodeState) : (rounds : Nat) → DarkGravity → CBlockIndex → Except Failure DarkGravity
  | 0, gravity, _ => .ok gravity
  | rounds + 1, gravity, BlockReading =>
    if BlockReading.nHeight = 0 then .ok gravity
    else do
      let gravity ← gravity.read BlockReading
      match node.prev BlockReading with
      | none => .ok gravity
      | some pprev => DarkGravity.walk node rounds gravity pprev

def getNextWorkRequiredPOW (params : WorkParams) (node : NodeState) (pindexLast : CBlockIndex) : Except Failure Nat :=
  if pindexLast.nHeight < 24 then .ok (getCompact params.powLimit)
  else do
    let gravity ← DarkGravity.walk node 24 ⟨0, 0, 0, 0⟩ pindexLast
    let nTargetTimespan := gravity.CountBlocks * params.nTargetSpacing
    let nActualTimespan := min (max gravity.nActualTimespan (nTargetTimespan.tdiv 3)) (nTargetTimespan * 3)
    nextTarget gravity.PastDifficultyAverage nActualTimespan nTargetTimespan params.powLimit
end

variable (params : WorkParams) (node : NodeState) (pindexLast : CBlockIndex)
def blockSpacing (atGenesis : Int) : Except Failure Int :=
  if pindexLast.nHeight = 0 then .ok atGenesis
  else match node.prev pindexLast with
  | none => .error (.fault "pindexLast->pprev->GetBlockTime()")
  | some pprev => .ok ((pindexLast.nTime : Int) - pprev.nTime)

def getNextWorkRequiredPOS : Except Failure Nat := do
  let fIsTimeProtocolV2 := params.isTimeProtocolV2 (pindexLast.nHeight + 1)
  let nActualSpacing ← blockSpacing node pindexLast 0
  let nActualSpacing := if nActualSpacing < 0 then 1 else nActualSpacing
  let nActualSpacing := if fIsTimeProtocolV2 && decide (params.nTargetSpacing * 10 < nActualSpacing) then params.nTargetSpacing * 10
    else nActualSpacing
  -- on the first block with V2 time protocol, reduce the difficulty by a factor 16
  let bnNew := if fIsTimeProtocolV2 && !params.isTimeProtocolV2 pindexLast.nHeight then setCompact pindexLast.nBits <<< 4
    else setCompact pindexLast.nBits
  let nInterval := (params.targetTimespan (pindexLast.nHeight + 1)).tdiv params.nTargetSpacing
  nextTarget bnNew ((nInterval - 1) * params.nTargetSpacing + nActualSpacing + nActualSpacing)
    ((nInterval + 1) * params.nTargetSpacing) (params.proofOfStakeLimit fIsTimeProtocolV2)

/-- A span over which the block rate is measured, with its share in percent. -/
structure Window where
  (nTargetBlocks nAccumulatedTargetSpacing nK : Int)

def WorkParams.windows : List Window :=
  [⟨params.nBlocksPerDay, DAY_IN_SECONDS, 60⟩, ⟨params.nBlocksPerWeek, WEEK_IN_SECONDS, 24⟩,
    ⟨2 * params.nBlocksPerWeek, 2 * WEEK_IN_SECONDS, 10⟩, ⟨params.nBlocksPerMonth, MONTH_IN_SECONDS, 6⟩]

def missingEntry : Failure := .fault "chainActive[nPrevHeight - nTargetBlocks]->GetBlockTime()"

/-- The start is looked up by its height on the active chain. -/
def Window.accumulatedSpacing (window : Window) : Except Failure Int :=
  if window.nTargetBlocks < pindexLast.nHeight + 1 then
    match node.chainActive.index (pindexLast.nHeight - window.nTargetBlocks).toNat with
    | none => .error missingEntry
    | some start => .ok ((pindexLast.nTime : Int) - start.nTime)
  else .ok window.nAccumulatedTargetSpacing

/-- `^1` to `^4` of the adjustment of one window, in milliseconds. -/
def Window.targetSpacing (nTargetSpacing : Int) (window : Window) (nAccumulatedSpacing : Int) : Int :=
  let power := fun spacing : Int => (wrapInt64 (window.nAccumulatedTargetSpacing * spacing)).tdiv nAccumulatedSpacing
  power (power (power ((wrapInt64 (window.nAccumulatedTargetSpacing * nTargetSpacing * 1000)).tdiv nAccumulatedSpacing)))

def finalTargetSpacing (nTargetSpacing : Int) (windows : List Window) (accumulated : List Int) : Int :=
  let weighted := List.zipWith (fun window nAccumulatedSpacing =>
    window.nK * window.targetSpacing nTargetSpacing nAccumulatedSpacing) windows accumulated
  let nFinalTargetSpacing := (wrapInt64 weighted.sum).tdiv 100
  let nMaxTargetSpacing := (nTargetSpacing * 1000 * 110).tdiv 100
  let nMinTargetSpacing := (nTargetSpacing * 1000 * 90).tdiv 100
  max (min nFinalTargetSpacing nMaxTargetSpacing) nMinTargetSpacing

def getNextWorkRequiredPOSV2 : Except Failure Nat := do
  let nActualSpacing ← blockSpacing node pindexLast params.nTargetSpacing
  let accumulated ← params.windows.mapM fun window => window.accumulatedSpacing node pindexLast
  Except.require (accumulated.all (· != 0)) (.fault "division by nAccumulatedSpacing")
  let nFinalTargetSpacing := finalTargetSpacing params.nTargetSpacing params.windows accumulated
  -- adjustments in 1/60th steps from the target
  nextTarget (setCompact pindexLast.nBits) (wrapInt64 (nActualSpacing * 1000 + 59 * nFinalTargetSpacing)) (60 * nFinalTargetSpacing)
    (params.proofOfStakeLimit (params.isTimeProtocolV2 (pindexLast.nHeight + 1)))

def getNextWorkRequired : Except Failure Nat :=
  if params.fRegTestNet then .ok pindexLast.nBits
  else if params.networkUpgradeActive (pindexLast.nHeight + 1) .posV3 then getNextWorkRequiredPOSV2 params node pindexLast
  else if params.networkUpgradeActive (pindexLast.nHeight + 1) .pos then getNextWorkRequiredPOS params node pindexLast
  else getNextWorkRequiredPOW params node pindexLast

def mainWork : WorkParams where
  toParams := mainConsensus
  powLimit := allOnes 256 >>> 20
  posLimitV1 := allOnes 256 >>> 24
  posLimitV2 := allOnes 256 >>> 20
  nTargetTimespan := 40 * 60
  nTargetTimespanV2 := 30 * 60
  fRegTestNet := false
  spacing_pos := by decide
  spacing_le_day := by decide

end Peony
