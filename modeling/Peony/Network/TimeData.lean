import Mathlib.Data.List.GetD
import Mathlib.Data.List.Induction
import Peony.Library.Median
import Peony.Consensus.MainNet

namespace Peony
open Int64Arith Consensus List

def BITCOIN_TIMEDATA_MAX_SAMPLES : Nat := 200
def abs64 (n : Int) : Int := if n ≥ 0 then n else wrapInt64 (-n)

structure CMedianFilter where
  vValues : List Int
  nSize : Nat

namespace CMedianFilter
variable (filter : CMedianFilter)
def input (value : Int) : CMedianFilter :=
  let kept := if filter.vValues.length = filter.nSize then filter.vValues.tail else filter.vValues
  { filter with vValues := kept ++ [value] }

def vSorted : List Int := filter.vValues.insertionSort (· ≤ ·)
def size : Nat := filter.vValues.length

def median : Int :=
  let size := filter.vSorted.length
  if size % 2 = 1 then filter.vSorted.getD (size / 2) 0
  else (wrapInt64 (filter.vSorted.getD (size / 2 - 1) 0 + filter.vSorted.getD (size / 2) 0)).tdiv 2

end CMedianFilter

/-- The static variables of `AddTimeData`; addresses are any type with equality. -/
structure TimeData (Addr : Type) where
  setKnown : List Addr
  vTimeOffsets : CMedianFilter
  nTimeOffset : Int

def initialTimeData (Addr : Type) : TimeData Addr := ⟨[], ⟨[0], BITCOIN_TIMEDATA_MAX_SAMPLES⟩, 0⟩

structure VersionMessage (Addr : Type) where
  addr : Addr
  (nTime nNow : Int)

def clampOffset (nOffsetLimit nMedian : Int) : Int :=
  if abs64 nMedian < nOffsetLimit then nMedian else (if nMedian > 0 then 1 else -1) * nOffsetLimit

namespace TimeData
variable {Addr : Type} [DecidableEq Addr]
section
variable (fRegTest : Bool) (data : TimeData Addr) (ip : Addr)
def takes : Bool :=
  !decide (data.setKnown.length = BITCOIN_TIMEDATA_MAX_SAMPLES) && (fRegTest || decide (ip ∉ data.setKnown))

/-- The offset follows the median when the number of samples is odd. -/
def recomputes (data : TimeData Addr) : Bool := decide (data.vTimeOffsets.size ≥ 5) && decide (data.vTimeOffsets.size % 2 = 1)

def addSample (nOffsetSample : Int) : TimeData Addr :=
  { data with
    -- on regtest every node has the same address
    setKnown := if fRegTest then data.setKnown else ip :: data.setKnown
    vTimeOffsets := data.vTimeOffsets.input nOffsetSample }

def addTimeData (nOffsetSample nOffsetLimit : Int) : TimeData Addr :=
  if data.takes fRegTest ip then
    let data := data.addSample fRegTest ip nOffsetSample
    if data.recomputes then { data with nTimeOffset := clampOffset nOffsetLimit data.vTimeOffsets.median } else data
  else data

variable (fRegTest : Bool) (params : Params) (data : TimeData Addr) (message : VersionMessage Addr)
/-- The part that reads the time; a peer that is too far off is disconnected. -/
def processVersion : TimeData Addr :=
  let nTimeOffset := wrapInt64 (message.nTime - message.nNow)
  if abs64 nTimeOffset < 2 * params.nTimeSlotLength then data.addTimeData fRegTest message.addr nTimeOffset params.nTimeSlotLength
  else data

def runVersions (fRegTest : Bool) (params : Params) (messages : List (VersionMessage Addr)) : TimeData Addr :=
  messages.foldl (processVersion fRegTest params) (initialTimeData Addr)

def Updates : Prop :=
  abs64 (wrapInt64 (message.nTime - message.nNow)) < 2 * params.nTimeSlotLength ∧ data.takes fRegTest message.addr = true ∧
    (data.addSample fRegTest message.addr (wrapInt64 (message.nTime - message.nNow))).recomputes = true

def samplesWith (data : TimeData Addr) (message : VersionMessage Addr) : List Int :=
  (data.vTimeOffsets.input (wrapInt64 (message.nTime - message.nNow))).vValues

/-- Fewer than half of the samples that set the offset are the least value. -/
def FewLeast : Prop :=
  data.Updates fRegTest params message →
    2 * (data.samplesWith message).countP (fun n => decide (n = -2 ^ 63)) < (data.samplesWith message).length
end

def BoundedRun (fRegTest : Bool) (params : Params) : TimeData Addr → List (VersionMessage Addr) → Prop
  | data, [] => |data.nTimeOffset| ≤ params.nTimeSlotLength
  | data, message :: messages =>
    |data.nTimeOffset| ≤ params.nTimeSlotLength ∧ BoundedRun fRegTest params (data.processVersion fRegTest params message) messages

def FewLeastRun (fRegTest : Bool) (params : Params) : TimeData Addr → List (VersionMessage Addr) → Prop
  | _, [] => True
  | data, message :: messages =>
    data.FewLeast fRegTest params message ∧ FewLeastRun fRegTest params (data.processVersion fRegTest params message) messages

end TimeData

namespace CMedianFilter
variable {filter : CMedianFilter}
lemma median_isMiddle (odd : filter.size % 2 = 1) : Median.IsMiddle filter.vValues filter.median := by
  have length : filter.vSorted.length = filter.vValues.length := length_insertionSort _ _
  have ins : filter.vValues.length / 2 < filter.vSorted.length := by
    unfold size at odd
    omega
  unfold median
  rw [length, if_pos (show filter.vValues.length % 2 = 1 from odd), getD_eq_getElem]
  exact getElem?_eq_getElem ins

lemma mem_input {value n} (mem : n ∈ (filter.input value).vValues) : n ∈ filter.vValues ∨ n = value := by
  rcases mem_append.mp mem with kept | new
  · left
    split at kept
    · exact mem_of_mem_tail kept
    · exact kept
  · exact .inr (mem_singleton.mp new)

end CMedianFilter

lemma abs64_of_ne {n} (fits : FitsInt64 n) (other : n ≠ -2 ^ 63) : abs64 n = |n| := by
  obtain ⟨lower, upper⟩ := fits
  unfold abs64
  split
  · grind
  · next negative =>
    have small : FitsInt64 (-n) := ⟨by omega, by omega⟩
    rw [wrapInt64_of_fits small, abs_of_neg (by omega)]

lemma abs64_least : abs64 (-2 ^ 63) = -2 ^ 63 := by decide

section
variable {nOffsetLimit n : Int} (positive : 0 ≤ nOffsetLimit)
include positive

lemma clampOffset_least : clampOffset nOffsetLimit (-2 ^ 63) = -2 ^ 63 := by
  unfold clampOffset
  rw [abs64_least, if_pos (by omega)]

lemma abs_clampOffset (fits : FitsInt64 n) (other : n ≠ -2 ^ 63) : |clampOffset nOffsetLimit n| = min |n| nOffsetLimit := by
  unfold clampOffset
  rw [abs64_of_ne fits other]
  split
  · omega
  · next outside =>
    rw [min_eq_right (not_lt.mp outside), abs_mul, abs_of_nonneg positive]
    split <;> simp

lemma abs_clampOffset_le_iff (small : nOffsetLimit < 2 ^ 63) (fits : FitsInt64 n) :
    |clampOffset nOffsetLimit n| ≤ nOffsetLimit ↔ n ≠ -2 ^ 63 := by
  constructor
  · rintro bounded rfl
    rw [clampOffset_least positive] at bounded
    norm_num at bounded
    omega
  · intro other
    rw [abs_clampOffset positive fits other]
    exact min_le_right _ _

lemma abs_clampOffset_le (fits : FitsInt64 n) : |clampOffset nOffsetLimit n| ≤ |n| := by
  by_cases least : n = -2 ^ 63
  · rw [least, clampOffset_least positive]
  · rw [abs_clampOffset positive fits least]
    exact min_le_left _ _
end
section
variable {values : List Int} {m : Int} (middle : Median.IsMiddle values m) (fits : ∀ n ∈ values, FitsInt64 n)
include middle

lemma abs_le_of_majority {bound} (most : values.length < 2 * values.countP fun n => decide (|n| ≤ bound)) : |m| ≤ bound := by
  have upper : values.countP (fun n => decide (|n| ≤ bound)) ≤ values.countP fun n => decide (n ≤ bound) := by
    apply countP_mono_left
    intro n _ within
    rw [decide_eq_true_eq] at within ⊢
    exact (abs_le.mp within).2
  have lower : values.countP (fun n => decide (|n| ≤ bound)) ≤ values.countP fun n => decide (-bound ≤ n) := by
    apply countP_mono_left
    intro n _ within
    rw [decide_eq_true_eq] at within ⊢
    exact (abs_le.mp within).1
  exact abs_le.mpr ⟨middle.ge_of_majority (by omega), middle.le_of_majority (by omega)⟩

include fits

lemma middle_ne_least_iff (odd : values.length % 2 = 1) :
    m ≠ -2 ^ 63 ↔ 2 * values.countP (fun n => decide (n = -2 ^ 63)) < values.length := by
  have least : ∀ n ∈ values, (n ≤ -2 ^ 63 ↔ n = -2 ^ 63) := by
    intro n mem
    have lower := (fits n mem).1
    omega
  have count : values.countP (fun n => decide (n = -2 ^ 63)) = values.countP fun n => decide (n ≤ -2 ^ 63) := by
    apply countP_congr
    intro n mem
    simp only [decide_eq_true_eq, least n mem]
  have low : m = -2 ^ 63 ↔ values.length / 2 < values.countP fun n => decide (n = -2 ^ 63) := by
    rw [← least m middle.mem, middle.le_iff, count]
  omega
end

namespace TimeData
variable {Addr : Type} {data : TimeData Addr}
lemma fits_samplesWith (fits : ∀ n ∈ data.vTimeOffsets.vValues, FitsInt64 n) (message : VersionMessage Addr) :
    ∀ n ∈ data.samplesWith message, FitsInt64 n := by
  intro n mem
  rcases CMedianFilter.mem_input mem with old | rfl
  · exact fits n old
  · exact wrapInt64_fits _

variable [DecidableEq Addr]
section
variable (fRegTest : Bool) (params : Params)
lemma fits_processVersion (fits : ∀ n ∈ data.vTimeOffsets.vValues, FitsInt64 n)
    (message : VersionMessage Addr) : ∀ n ∈ (processVersion fRegTest params data message).vTimeOffsets.vValues, FitsInt64 n := by
  unfold processVersion addTimeData
  dsimp only
  split
  · split
    · split
      · exact fits_samplesWith fits _
      · exact fits_samplesWith fits _
    · exact fits
  · exact fits

lemma nTimeOffset_processVersion (data : TimeData Addr) (message : VersionMessage Addr) :
    (¬ data.Updates fRegTest params message ∧ (processVersion fRegTest params data message).nTimeOffset = data.nTimeOffset) ∨
      data.Updates fRegTest params message ∧ (data.samplesWith message).length % 2 = 1 ∧
        ∃ m, Median.IsMiddle (data.samplesWith message) m ∧
          (processVersion fRegTest params data message).nTimeOffset = clampOffset params.nTimeSlotLength m := by
  unfold processVersion addTimeData Updates
  dsimp only
  split
  · next near =>
    split
    · next taken =>
      split
      · next recomputed =>
        have odd : (data.samplesWith message).length % 2 = 1 := by
          simp only [recomputes, Bool.and_eq_true, decide_eq_true_eq] at recomputed
          exact recomputed.2
        right
        exact ⟨⟨near, taken, recomputed⟩, odd, _, CMedianFilter.median_isMiddle odd, rfl⟩
      · next stays => exact .inl ⟨fun upd => stays upd.2.2, rfl⟩
    · grind
  · omega
end

variable {fRegTest : Bool} {params : Params}
lemma boundedRun_iff (positive : 0 ≤ params.nTimeSlotLength) (small : params.nTimeSlotLength < 2 ^ 63)
    (msgs : List (VersionMessage Addr)) (fits : ∀ n ∈ data.vTimeOffsets.vValues, FitsInt64 n)
    (bounded : |data.nTimeOffset| ≤ params.nTimeSlotLength) :
    BoundedRun fRegTest params data msgs ↔ FewLeastRun fRegTest params data msgs := by
  induction msgs generalizing data with
  | nil => exact iff_of_true bounded trivial
  | cons message msgs ih =>
    have turn : |(data.processVersion fRegTest params message).nTimeOffset| ≤ params.nTimeSlotLength ↔
        data.FewLeast fRegTest params message := by
      rcases nTimeOffset_processVersion _ _ _ message with ⟨stays, same⟩ | ⟨upd, odd, m, middle, set⟩
      · rw [same]
        exact iff_of_true bounded fun upd => absurd upd stays
      · have within := fits_samplesWith fits message
        rw [set, abs_clampOffset_le_iff positive small (within m middle.mem), middle_ne_least_iff middle within odd]
        exact ⟨fun few _ => few, fun few => few upd⟩
    have later := ih (fits_processVersion fRegTest params fits message)
    constructor
    · rintro ⟨-, run⟩
      have after : |(data.processVersion fRegTest params message).nTimeOffset| ≤ params.nTimeSlotLength := by
        cases msgs with
        | nil => exact run
        | cons next msgs => exact run.1
      exact ⟨turn.mp after, (later after).mp run⟩
    · rintro ⟨few, run⟩
      exact ⟨bounded, (later (turn.mpr few)).mpr run⟩

lemma fits_runVersions {msgs : List (VersionMessage Addr)} :
    ∀ n ∈ (runVersions fRegTest params msgs).vTimeOffsets.vValues, FitsInt64 n := by
  induction msgs using List.reverseRec with
  | nil =>
    intro n mem
    rw [mem_singleton.mp mem]
    decide
  | append_singleton msgs message ih =>
    rw [runVersions, foldl_append]
    exact fits_processVersion _ _ ih _

/-- Exactly when no update finds the least 64-bit value in the middle; most samples bound the offset. -/
theorem timeOffset_bounded_iff (fRegTest : Bool) (params : Params) (positive : 0 ≤ params.nTimeSlotLength)
    (small : params.nTimeSlotLength < 2 ^ 30) (messages : List (VersionMessage Addr)) :
    (BoundedRun fRegTest params (initialTimeData Addr) messages ↔ FewLeastRun fRegTest params (initialTimeData Addr) messages) ∧
      ∀ message, (runVersions fRegTest params messages).Updates fRegTest params message →
        ∀ bound : Int, ((runVersions fRegTest params messages).samplesWith message).length <
            2 * ((runVersions fRegTest params messages).samplesWith message).countP (fun n => decide (|n| ≤ bound)) →
          |((runVersions fRegTest params messages).processVersion fRegTest params message).nTimeOffset| ≤ bound := by
  constructor
  · apply boundedRun_iff positive (by omega)
    · intro n member
      rw [mem_singleton.mp member]
      decide
    · exact positive
  · intro message updates bound most
    rcases nTimeOffset_processVersion _ _ _ message with
      ⟨stays, -⟩ | ⟨-, -, m, middle, set⟩
    · exact absurd updates stays
    · have within := fits_samplesWith (fits_runVersions) _ m middle.mem
      rw [set]
      exact (abs_clampOffset_le positive within).trans (abs_le_of_majority middle most)

def aheadPeers : List (VersionMessage Nat) := [⟨1, 1003, 1000⟩, ⟨2, 1003, 1000⟩, ⟨3, 1003, 1000⟩]
def behindPeer : VersionMessage Nat := ⟨4, 2000, 2029⟩

/-- The fourth message updates the offset; of the five samples with the own one, only its is further off than three seconds. -/
theorem aheadPeers_bounded : BoundedRun false mainConsensus (initialTimeData Nat) (aheadPeers ++ [behindPeer]) ∧
    |(runVersions false mainConsensus (aheadPeers ++ [behindPeer])).nTimeOffset| ≤ 3 := by
  have bounded := @timeOffset_bounded_iff Nat _ false mainConsensus (by decide) (by decide)
  have few : FewLeastRun false mainConsensus (initialTimeData Nat) (aheadPeers ++ [behindPeer]) := by
    refine ⟨?_, ?_, ?_, ?_, trivial⟩ <;> exact fun _ => by decide +kernel
  have updates : (runVersions false mainConsensus aheadPeers).Updates false mainConsensus behindPeer := by
    refine ⟨?_, ?_, ?_⟩ <;> decide +kernel
  refine ⟨(bounded _).1.mpr few, ?_⟩
  rw [runVersions, foldl_append]
  exact (bounded aheadPeers).2 _ updates 3 (by decide +kernel)

/-- Four peers whose time is the least that differs from ours by a 64-bit number. -/
def leastPeers : List (VersionMessage Nat) :=
  [⟨1, 1000 - 2 ^ 63, 1000⟩, ⟨2, 1000 - 2 ^ 63, 1000⟩, ⟨3, 1000 - 2 ^ 63, 1000⟩, ⟨4, 1000 - 2 ^ 63, 1000⟩]

theorem leastPeers_move_clock : (∀ message ∈ leastPeers, FitsInt64 message.nTime ∧ FitsInt64 (message.nTime - message.nNow)) ∧
    (runVersions false mainConsensus leastPeers).nTimeOffset = -2 ^ 63 ∧ mainConsensus.nTimeSlotLength = 15 := by decide +kernel

end TimeData

end Peony
