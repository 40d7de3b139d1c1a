import Peony.Chain.Retarget

namespace Peony
open Except

/-- What the time rules read: the clock, `SPORK_104_MAX_BLOCK_TIME` and the drifts before time protocol V2. -/
structure TimeContext where
  (nAdjustedTime nMaxBlockTime nFutureTimeDriftPoW nFutureTimeDriftPoS : Int)

variable (params : WorkParams) (context : TimeContext) (node : NodeState)
def futureBlockTimeDrift (nHeight : Nat) : Int :=
  if params.isTimeProtocolV2 nHeight then params.nTimeSlotLength - 1
  else if params.networkUpgradeActive nHeight .pos then context.nFutureTimeDriftPoS else context.nFutureTimeDriftPoW

def pastTimes : (count : Nat) → CBlockIndex → List Int
  | 0, _ => []
  | count + 1, pindex => (pindex.nTime : Int) :: ((node.prev pindex).elim [] (pastTimes count))

variable (pindex : CBlockIndex)
def getMedianTimePast : Int :=
  let sorted := (pastTimes node 11 pindex).mergeSort
  (sorted[sorted.length / 2]?).getD 0

def maxFutureBlockTime : Int := context.nAdjustedTime + futureBlockTimeDrift params context (pindex.nHeight + 1)

def minPastBlockTime : Int :=
  if !params.isTimeProtocolV2 (pindex.nHeight + 1) then getMedianTimePast node pindex
  else if ((pindex.nHeight + 1 : Nat) : Int) = params.vUpgrades .timeProtocolV2 then
    pindex.nTime - futureBlockTimeDrift params context pindex.nHeight + futureBlockTimeDrift params context (pindex.nHeight + 1)
  else pindex.nTime

def isValidBlockTimeStamp (nTime : Int) (nHeight : Nat) : Bool :=
  !params.isTimeProtocolV2 nHeight || nTime.tmod params.nTimeSlotLength == 0

def checkBlockTime (nTime : Nat) (pindexPrev : CBlockIndex) : Except Failure Unit :=
  if params.fRegTestNet then .ok ()
  else do
    require (decide ((nTime : Int) ≤ maxFutureBlockTime params context pindexPrev)) (.invalid "time-too-new")
    require (decide (minPastBlockTime params context node pindexPrev < nTime)) (.dos 50 "time-too-old")
    require (isValidBlockTimeStamp params nTime (pindexPrev.nHeight + 1)) (.dos 100 "invalid-time-mask")
    require (decide ((nTime : Int) ≤ context.nMaxBlockTime)) (.invalid "time-limit")

variable {params : WorkParams} {context : TimeContext} {node : NodeState} {nTime : Nat} {pindexPrev : CBlockIndex}
lemma checkBlockTime_slots (enforced : params.fRegTestNet = false)
    (timeV2 : params.isTimeProtocolV2 (pindexPrev.nHeight + 1) = true)
      (checks : checkBlockTime params context node nTime pindexPrev = .ok ()) :
    (((pindexPrev.nHeight + 1 : Nat) : Int) ≠ params.vUpgrades .timeProtocolV2 → pindexPrev.nTime < nTime) ∧
      params.nTimeSlotLength ∣ nTime := by
  rw [checkBlockTime, enforced] at checks
  obtain ⟨-, checks⟩ := require_bind_eq_ok.mp checks
  obtain ⟨later, checks⟩ := require_bind_eq_ok.mp checks
  obtain ⟨slot, -⟩ := require_bind_eq_ok.mp checks
  rw [decide_eq_true_iff, minPastBlockTime, timeV2] at later
  rw [isValidBlockTimeStamp, timeV2, Bool.not_true, Bool.false_or, beq_iff_eq] at slot
  constructor
  · intro after
    rw [if_neg (by decide), if_neg after] at later
    exact_mod_cast later
  · exact Int.dvd_of_tmod_eq_zero slot

lemma exists_checkBlockTime (pos : 0 < params.nTimeSlotLength)
    (timeV2 : params.isTimeProtocolV2 (pindexPrev.nHeight + 1) = true) (later : pindexPrev.nTime < nTime)
    (slot : params.nTimeSlotLength ∣ nTime) : ∃ context, checkBlockTime params context node nTime pindexPrev = .ok () := by
  let context : TimeContext := ⟨nTime, nTime, params.nTimeSlotLength - 1, params.nTimeSlotLength - 1⟩
  have drift : ∀ nHeight, futureBlockTimeDrift params context nHeight = params.nTimeSlotLength - 1 := by grind [futureBlockTimeDrift]
  have newest : (nTime : Int) ≤ maxFutureBlockTime params context pindexPrev := by
    rw [maxFutureBlockTime, drift]
    change (nTime : Int) ≤ nTime + _
    omega
  have oldest : minPastBlockTime params context node pindexPrev < nTime := by
    rw [minPastBlockTime, timeV2, if_neg (by decide)]
    split
    · rw [drift, drift]
      omega
    · exact_mod_cast later
  have mask : isValidBlockTimeStamp params nTime (pindexPrev.nHeight + 1) = true := by
    rw [isValidBlockTimeStamp, timeV2, Bool.not_true, Bool.false_or, beq_iff_eq]
    exact Int.tmod_eq_zero_of_dvd slot
  refine ⟨context, ?_⟩
  unfold checkBlockTime
  split
  · rfl
  · rw [decide_eq_true newest, decide_eq_true oldest, mask, decide_eq_true (le_refl _)]
    rfl

end Peony
