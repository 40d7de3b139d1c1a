import Peony.Chain.BlockTime
import Peony.Stake.Kernel

/-! The search of a staker for a time slot, and what the validator makes of the slot it finds. -/

namespace Peony
open Consensus

def HASH_DRIFT : Int := 45

/-- To the first slot at which the loop stops; `none` if it does not. -/
def nextSlot (slotStep : Int) (stops : Int → Bool) : (fuel : Nat) → (nTimeTx : Int) → Option Int
  | 0, _ => none
  | fuel + 1, nTimeTx => if stops nTimeTx then some nTimeTx else nextSlot slotStep stops fuel (nTimeTx + slotStep)

section
variable (host : Host) (params : Params) (vChain : List CBlockIndex) (pindexPrev : CBlockIndex)
def CPivStake.kernel (stake : CPivStake) (nBits nTime : Nat) (nValue : Int) : CStakeKernel :=
  ⟨kernelModifier params vChain pindexPrev stake.pindexFrom, stake.pindexFrom.nTime, stake.getUniqueness host, nTime,
    nBits, nValue⟩

/-- `Stake` with the time it leaves in `nTimeTx`; `none` if it returns false. -/
def stake (host : Host) (params : WorkParams) (context : TimeContext) (node : NodeState) (pindexPrev : CBlockIndex)
    (stakeInput : CPivStake) (nBits : Nat) : Option Int := do
  let nHeightTx := pindexPrev.nHeight + 1
  let fTimeProtocolV2 := params.isTimeProtocolV2 nHeightTx && !params.fRegTestNet
  let minPast := minPastBlockTime params context node pindexPrev
  let nTimeTx := if fTimeProtocolV2 then minPast else context.nAdjustedTime
  guard (stakeInput.contextCheck params.toParams nHeightTx (toUInt32 nTimeTx))
  let slotStep := if fTimeProtocolV2 then params.nTimeSlotLength else 1
  let nTimeTx := nTimeTx.tdiv slotStep * slotStep
  let first ← nextSlot slotStep (fun t => decide (minPast < t)) ((minPast - nTimeTx).toNat + 2) nTimeTx
  let last := if fTimeProtocolV2 then maxFutureBlockTime params context pindexPrev else pindexPrev.nTime + HASH_DRIFT
  -- `GetValue`
  let out ← stakeInput.txFrom.vout[stakeInput.nPosition]?
  let passes t := (stakeInput.kernel host params.toParams node.chainActive.vChain pindexPrev nBits (toUInt32 t)
    out.nValue).checkKernelHash host
  let found ← nextSlot slotStep (fun t => decide (last < t) || passes t) ((last - first).toNat + 2) first
  if found ≤ last then some found else none

variable {slotStep : Int} {stops : Int → Bool} {fuel : Nat} {nTimeTx found : Int}
lemma nextSlot_spec (runs : nextSlot slotStep stops fuel nTimeTx = some found) :
    stops found = true ∧ slotStep ∣ found - nTimeTx ∧ (0 ≤ slotStep → nTimeTx ≤ found) := by
  induction fuel generalizing nTimeTx with
  | zero => simp [nextSlot] at runs
  | succ fuel ih =>
    rw [nextSlot] at runs
    split at runs
    · next here =>
      cases runs
      simp [here]
    · obtain ⟨last, whole, later⟩ := ih runs
      refine ⟨last, ?_, by omega⟩
      simpa [sub_add_eq_sub_sub] using (dvd_sub_self_right.mp (by simpa [sub_add_eq_sub_sub] using whole))

lemma writeLE_mod {n : Nat} (size : Nat) : writeLE size (n % 256 ^ size) = writeLE size n := by
  induction size generalizing n with
  | zero => rfl
  | succ size ih =>
    have low : UInt8.ofNat (n % 256 ^ (size + 1)) = UInt8.ofNat n := by
      apply UInt8.toNat_inj.mp
      simp [Nat.pow_succ']
    rw [writeLE, writeLE, low, Nat.pow_succ', Nat.mod_mul_right_div_self, ih]

lemma CPivStake.kernel_toUInt32 (stakeInput : CPivStake) (nBits nTime : Nat) (nValue) :
    (stakeInput.kernel host params vChain pindexPrev nBits (toUInt32 nTime) nValue).checkKernelHash host =
      (stakeInput.kernel host params vChain pindexPrev nBits nTime nValue).checkKernelHash host := by
  have low : writeLE 4 (toUInt32 nTime) = writeLE 4 nTime := writeLE_mod 4
  unfold CStakeKernel.checkKernelHash CStakeKernel.getHash CStakeKernel.target kernel
  rw [low]
end

variable {host : Host} {params : WorkParams} {context : TimeContext} {node : NodeState} {pindexPrev : CBlockIndex}
  {stakeInput : CPivStake} {nBits nTime : Nat}

lemma stake_cases {t} (slots : 0 < params.nTimeSlotLength)
    (found : stake host params context node pindexPrev stakeInput nBits = some t) :
    (params.fRegTestNet = false → params.isTimeProtocolV2 (pindexPrev.nHeight + 1) = true →
      minPastBlockTime params context node pindexPrev < t ∧ t ≤ maxFutureBlockTime params context pindexPrev ∧
        params.nTimeSlotLength ∣ t) ∧
      ∃ out, stakeInput.txFrom.vout[stakeInput.nPosition]? = some out ∧
        (stakeInput.kernel host params.toParams node.chainActive.vChain pindexPrev nBits (toUInt32 t)
          out.nValue).checkKernelHash host = true := by
  unfold stake at found
  simp only [Option.bind_eq_bind, Option.bind_eq_some_iff, Option.ite_none_right_eq_some] at found
  obtain ⟨-, -, first, skips, out, value, slot, searches, inTime, found⟩ := found
  cases found
  obtain ⟨past, whole, -⟩ := nextSlot_spec skips
  obtain ⟨stops, steps, later⟩ := nextSlot_spec searches
  constructor
  · intro enforced timeV2
    simp only [enforced, timeV2, Bool.not_false, Bool.and_self, if_true, decide_eq_true_eq] at past whole steps later inTime
    have aligned : params.nTimeSlotLength ∣ first := (dvd_sub_left (dvd_mul_left _ _)).mp whole
    exact ⟨past.trans_le (later slots.le), inTime, (dvd_sub_left aligned).mp steps⟩
  · rw [Bool.or_eq_true, decide_eq_true_iff] at stops
    exact ⟨_, value, stops.resolve_left (not_lt.mpr inTime)⟩

/-- The time that `Stake` found passes `CheckBlockTime` at the staker's clock, the spork's limit aside, and the kernel
at that time passes `CheckProofOfStake`. -/
theorem stake_time_valid (slots : 0 < params.nTimeSlotLength) (timeV2 : params.isTimeProtocolV2 (pindexPrev.nHeight + 1) = true)
    (found : stake host params context node pindexPrev stakeInput nBits = some (nTime : Int)) :
    checkBlockTime params context node nTime pindexPrev =
        (if params.fRegTestNet ∨ (nTime : Int) ≤ context.nMaxBlockTime then .ok () else .error (.invalid "time-limit")) ∧
      ∀ block checkpoints fEnabled, block.nTime = nTime → block.nBits = nBits →
        loadStakeInput host node block pindexPrev = some stakeInput →
        checkProofOfStake host ⟨params.toParams, checkpoints, fEnabled⟩ node block pindexPrev ≠
          .error "kernel hash check fails" := by
  obtain ⟨inTime, out, value, passes⟩ := stake_cases slots found
  constructor
  · cases enforced : params.fRegTestNet with
    | true => simp [checkBlockTime, enforced]
    | false =>
      obtain ⟨past, future, aligned⟩ := inTime enforced timeV2
      have mask : isValidBlockTimeStamp params nTime (pindexPrev.nHeight + 1) = true := by
        simp [isValidBlockTimeStamp, Int.tmod_eq_zero_of_dvd aligned]
      by_cases limit : (nTime : Int) ≤ context.nMaxBlockTime <;>
        simp [checkBlockTime, enforced, past, future, mask, limit, Except.require] <;> rfl
  · intro block checkpoints fEnabled time bits loaded
    subst time bits
    rw [CPivStake.kernel_toUInt32] at passes
    unfold checkProofOfStake
    rw [loaded]
    split
    · simp
    · -- the checks around the one of the kernel fail with other messages
      change checkStakeInput .. ≠ _
      rw [CPivStake.kernel] at passes
      unfold checkStakeInput CPivStake.getTxOutFrom
      rw [value]
      cases stakeInput.contextCheck _ _ _ with
      | false => simp [Except.require, bind, Except.bind]
      | true =>
        split
        · next same _ =>
          have same := (Option.ite_none_left_eq_some.mp same).2
          cases same
          simp only [passes, Except.require, bind, Except.bind, if_true]
          split <;> simp
        · simp [Except.require, bind, Except.bind]

def stakedCoin : CPivStake := ⟨⟨1, [], [⟨100 * COIN, []⟩], 0⟩, 0, indexAt 100⟩

/-- At clock 20, on a block with the time 0, the slot of the second 15. -/
theorem stake_time_valid_first_slot : checkBlockTime mainWork ⟨20, 100, 0, 0⟩ emptyNode 15 (indexAt 2000) = .ok () :=
  (@stake_time_valid permissiveHost _ _ _ _ stakedCoin 0x1e0fffff 15 (by decide)
    (by decide) (by decide +kernel)).1

end Peony
