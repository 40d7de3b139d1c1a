import Peony.Rewards.Reorg
import Peony.Validation.Inflation

namespace Peony
open Int64Arith Consensus AssocMap List Consensus.Params

/-- A block takes a second to a day, an epoch at most a year. -/
structure EpochParams (params : Params) : Prop where
  spacing_pos : 0 < params.nTargetSpacing
  spacing_le : params.nTargetSpacing ≤ DAY_IN_SECONDS
  interval_ge : 3 ≤ params.nRewardAdjustmentInterval
  interval_le : (params.nRewardAdjustmentInterval : Int) ≤ 365 * params.nBlocksPerDay
  slot_nonneg : 0 ≤ params.nTimeSlotLength

section
variable (host : Host) (params : Params) (inputs : EpochInputs) (pindex : CBlockIndex) (nSubsidy : Int) (nHeight : Nat)
def isCirculating (coin : Coin) : Bool :=
  !coin.isSpent && !paysBurnAddress host params nHeight coin.out.scriptPubKey &&
    !isCollateralAmount params nHeight coin.out.nValue

def weightAmounts (coin : Coin) : List Int :=
  let nMultiplier : Int := 100000000
  let distance := ((nHeight : Int) - coin.nHeight) % 2 ^ 32 - 3 * params.nBlocksPerMonth
  let fallen := (100 * nMultiplier).tdiv (9 * params.nBlocksPerMonth) * wrapInt64 distance
  [9 * params.nBlocksPerMonth, 3 * params.nBlocksPerMonth, distance, fallen, 100 * nMultiplier - wrapInt64 fallen]

def weighed (coin : Coin) : Int := coin.out.nValue * nSupplyWeightRatio params nHeight coin

def scanAmounts (nHeight : Nat) (nCirculatingSupply : Int) : List (Σ _ : COutPoint, Coin) → List Int
  | [] => []
  | entry :: entries =>
    if isCirculating host params nHeight entry.2 then
      let next := nCirculatingSupply + (wrapInt64 (weighed params nHeight entry.2)).tdiv 100
      weightAmounts params nHeight entry.2 ++ weighed params nHeight entry.2 :: next ::
        scanAmounts nHeight (wrapInt64 next) entries
    else scanAmounts nHeight nCirculatingSupply entries

def targetAmounts (nSupply nEmissionRate : Int) : List Int :=
  let daily := (nSupply.tdiv (365 * params.nBlocksPerDay)).tdiv 1000000
  [365 * params.nBlocksPerDay, daily * nEmissionRate, wrapInt64 (daily * nEmissionRate) * params.nRewardAdjustmentInterval]

def nStakedCoins : Int :=
  wrapInt64 (wrapInt64 (inputs.nNetworkHashPS * params.timeSlotLength nHeight) * 100)

def nUnstakedSupply : Int :=
  max (wrapInt64 (nCirculatingSupply host params nHeight inputs.coins - nStakedCoins params inputs nHeight)) 0

def supplyTarget : Int := nTargetEmission params pindex.nMoneySupply TOT_SPLY_TRGT_EMISSION

def circulatingTarget : Int :=
  nTargetEmission params (nUnstakedSupply host params inputs pindex.nHeight) CIRC_SPLY_TRGT_EMISSION

def epochTarget : Int :=
  (wrapInt64 (supplyTarget params pindex + circulatingTarget host params inputs pindex)).tdiv 2

lemma nDelta_eq : nDelta host params inputs pindex nSubsidy =
    (wrapInt64 (wrapInt64 (nSubsidy * params.nRewardAdjustmentInterval) - epochTarget host params inputs pindex)).tdiv
      params.nRewardAdjustmentInterval := rfl

def epochAmounts : List Int :=
  let delta := nDelta host params inputs pindex nSubsidy
  let nRatio : Int := ((wrapInt64 (delta * 100)).tdiv nSubsidy).natAbs
  let nDampedDelta := (wrapInt64 (delta * nWeightRatio delta nSubsidy)).tdiv 100
  ((pindex.nHeight : Int) + params.nBlocksPerWeek) :: scanAmounts host params pindex.nHeight 0 inputs.coins.entries ++
    targetAmounts params pindex.nMoneySupply TOT_SPLY_TRGT_EMISSION ++
    targetAmounts params (nUnstakedSupply host params inputs pindex.nHeight) CIRC_SPLY_TRGT_EMISSION ++
    [inputs.nNetworkHashPS * params.timeSlotLength pindex.nHeight,
      wrapInt64 (inputs.nNetworkHashPS * params.timeSlotLength pindex.nHeight) * 100,
      nCirculatingSupply host params pindex.nHeight inputs.coins - nStakedCoins params inputs pindex.nHeight,
      nSubsidy * params.nRewardAdjustmentInterval,
      supplyTarget params pindex + circulatingTarget host params inputs pindex,
      wrapInt64 (nSubsidy * params.nRewardAdjustmentInterval) - epochTarget host params inputs pindex,
      delta * 100, min nRatio 100 * 9, (min nRatio 100 * 9).tdiv 100 + 1, delta * nWeightRatio delta nSubsidy,
      nSubsidy - nDampedDelta, (wrapInt64 (nSubsidy - nDampedDelta)).tdiv COIN * COIN]

def epochDivisors : List Int :=
  [params.nTargetSpacing, 9 * params.nBlocksPerMonth, 365 * params.nBlocksPerDay, params.nRewardAdjustmentInterval, nSubsidy]

/-- The adjustment returns, and without a wrap, from a supply of existing coins. -/
structure EpochSafe : Prop where
  returns : ∃ amount, adjustSubsidy host params inputs pindex nSubsidy = .ok amount
  divisors : ∀ divisor ∈ epochDivisors params nSubsidy, divisor ≠ 0
  amounts : ∀ amount ∈ epochAmounts host params inputs pindex nSubsidy, FitsInt64 amount
  scanned : 0 ≤ nCirculatingSupply host params pindex.nHeight inputs.coins ∧
    nCirculatingSupply host params pindex.nHeight inputs.coins ≤ total (fun _ => Coin.value) inputs.coins
  unstaked : 0 ≤ nUnstakedSupply host params inputs pindex.nHeight ∧
    nUnstakedSupply host params inputs pindex.nHeight ≤ total (fun _ => Coin.value) inputs.coins

variable {host : Host} {params : Params}
section
variable (net : EpochParams params)
include net

lemma EpochParams.perDay : 1 ≤ params.nBlocksPerDay ∧ params.nBlocksPerDay ≤ 86400 := by
  have pos := net.spacing_pos
  have small := net.spacing_le
  rw [nBlocksPerDay, Int.tdiv_eq_ediv_of_nonneg (by decide)]
  constructor
  · exact Int.le_ediv_of_mul_le pos (by omega)
  · exact Int.ediv_le_of_le_mul pos (by grind [DAY_IN_SECONDS])

lemma EpochParams.perMonth : 30 ≤ params.nBlocksPerMonth ∧ params.nBlocksPerMonth ≤ 2592000 := by
  have pos := net.spacing_pos
  have small := net.spacing_le
  rw [nBlocksPerMonth, Int.tdiv_eq_ediv_of_nonneg (by decide)]
  rw [DAY_IN_SECONDS] at small
  constructor
  · exact Int.le_ediv_of_mul_le pos (by rw [MONTH_IN_SECONDS, DAY_IN_SECONDS]; omega)
  · exact Int.ediv_le_of_le_mul pos (by rw [MONTH_IN_SECONDS, DAY_IN_SECONDS]; omega)

lemma EpochParams.perWeek : 0 ≤ params.nBlocksPerWeek ∧ params.nBlocksPerWeek ≤ 604800 := by
  have pos := net.spacing_pos
  rw [nBlocksPerWeek, Int.tdiv_eq_ediv_of_nonneg (by decide)]
  constructor
  · exact Int.ediv_nonneg (by decide) pos.le
  · exact Int.ediv_le_of_le_mul pos (by rw [WEEK_IN_SECONDS, DAY_IN_SECONDS]; omega)

lemma EpochParams.interval : 3 ≤ (params.nRewardAdjustmentInterval : Int) ∧ (params.nRewardAdjustmentInterval : Int) ≤ 31536000 := by
  have low := net.interval_ge
  have high := net.interval_le
  have days := net.perDay.2
  omega

lemma EpochParams.timeSlotLength_nonneg {nHeight} : 0 ≤ params.timeSlotLength nHeight := by
  rw [timeSlotLength]
  split
  · exact net.slot_nonneg
  · decide
end

lemma EpochParams.weightAmounts_fit (net : EpochParams params) {nHeight coin} :
    ∀ amt ∈ weightAmounts params nHeight coin, FitsInt64 amt := by
  obtain ⟨low, high⟩ := net.perMonth
  have slope : |(100 * 100000000 : Int).tdiv (9 * params.nBlocksPerMonth)| ≤ 40000000 := by
    have low := net.perMonth.1
    apply abs_tdiv_le (by omega)
    rw [abs_of_nonneg (by decide)]
    omega
  have small : |((nHeight : Int) - coin.nHeight) % 2 ^ 32 - 3 * params.nBlocksPerMonth| ≤ 2 ^ 33 := by
    rw [abs_le]
    omega
  simp only [weightAmounts]
  generalize ((nHeight : Int) - coin.nHeight) % 2 ^ 32 - 3 * params.nBlocksPerMonth = distance at small
  generalize (100 * 100000000 : Int).tdiv _ = fall at slope
  have exact := wrapInt64_of_fits (fits_of_abs (lt_of_le_of_lt small (by decide)))
  have fallen : |fall * distance| ≤ 40000000 * 2 ^ 33 := by
    rw [abs_mul]
    exact mul_le_mul slope small (abs_nonneg _) (by decide)
  have fits := fits_of_abs (lt_of_le_of_lt fallen (by decide))
  rw [exact, wrapInt64_of_fits fits]
  rw [abs_le] at small fallen
  simp only [forall_mem_cons, not_mem_nil, false_implies, implies_true, and_true]
  refine ⟨⟨?_, ?_⟩, ⟨?_, ?_⟩, ⟨?_, ?_⟩, fits, ⟨?_, ?_⟩⟩ <;> omega

def scanStep (host : Host) (params : Params) (nHeight : Nat) (sum : Int) (entry : Σ _ : COutPoint, Coin) : Int :=
  if isCirculating host params nHeight entry.2 then
    wrapInt64 (sum + (wrapInt64 (weighed params nHeight entry.2)).tdiv 100) else sum

lemma nCirculatingSupply_eq (nHeight coins) :
    nCirculatingSupply host params nHeight coins = coins.entries.foldl (scanStep host params nHeight) 0 := rfl

section
variable (host : Host) (params : Params) (nHeight : Nat) (entries : List (Σ _ : COutPoint, Coin))
def scanTotal : Int :=
  (entries.map fun entry =>
    if isCirculating host params nHeight entry.2 then (weighed params nHeight entry.2).tdiv 100 else 0).sum

lemma weighed_nonneg (params nHeight) {coin} (value : 0 ≤ coin.out.nValue) :
    0 ≤ weighed params nHeight coin ∧ 0 ≤ (weighed params nHeight coin).tdiv 100 ∧
      (weighed params nHeight coin).tdiv 100 ≤ coin.out.nValue := by
  have ratio : 0 ≤ nSupplyWeightRatio params nHeight coin ∧ nSupplyWeightRatio params nHeight coin ≤ 100 := by
    rw [nSupplyWeightRatio]
    omega
  have nonneg := mul_nonneg value ratio.1
  have small : weighed params nHeight coin ≤ coin.out.nValue * 100 := mul_le_mul_of_nonneg_left ratio.2 value
  refine ⟨nonneg, Int.tdiv_nonneg nonneg (by decide), ?_⟩
  grind

lemma scanTotal_cons (entry : Σ _ : COutPoint, Coin)
    (entries : List (Σ _ : COutPoint, Coin)) : scanTotal host params nHeight (entry :: entries) =
      (if isCirculating host params nHeight entry.2 then (weighed params nHeight entry.2).tdiv 100 else 0) +
        scanTotal host params nHeight entries := by rfl

lemma scanTotal_range (values : ∀ entry ∈ entries, 0 ≤ entry.2.out.nValue) : 0 ≤ scanTotal host params nHeight entries ∧
      scanTotal host params nHeight entries ≤ (entries.map fun entry => entry.2.out.nValue).sum := by
  induction entries with
  | nil => exact ⟨le_rfl, le_rfl⟩
  | cons entry entries ih =>
    have rest := ih (forall_mem_cons.mp values).2
    have value := values entry (by simp)
    have own := weighed_nonneg params nHeight value
    rw [scanTotal_cons, map_cons, sum_cons]
    by_cases cnt : isCirculating host params nHeight entry.2 = true
    · omega
    · omega

def ScanFits (sum : Int) (entries : List (Σ _ : COutPoint, Coin)) : Prop :=
  (∀ entry ∈ entries, isCirculating host params nHeight entry.2 = true → weighed params nHeight entry.2 < 2 ^ 63) ∧
    sum + scanTotal host params nHeight entries < 2 ^ 63
end

variable {entries : List (Σ _ : COutPoint, Coin)} {nHeight : Nat} {sum : Int} {entry : Σ _ : COutPoint, Coin}
lemma scanFits_cons (cnt : isCirculating host params nHeight entry.2 = true) :
    ScanFits host params nHeight sum (entry :: entries) ↔ weighed params nHeight entry.2 < 2 ^ 63 ∧
      ScanFits host params nHeight (sum + (weighed params nHeight entry.2).tdiv 100) entries := by
  rw [ScanFits, ScanFits, scanTotal_cons, if_pos cnt, forall_mem_cons, and_assoc, add_assoc]
  simp only [cnt, true_implies]

lemma scanFits_skip (skipped : isCirculating host params nHeight entry.2 ≠ true) :
    ScanFits host params nHeight sum (entry :: entries) ↔ ScanFits host params nHeight sum entries := by
  rw [ScanFits, ScanFits, scanTotal_cons, if_neg skipped, forall_mem_cons, zero_add,
    and_iff_right fun cnt => absurd cnt skipped]

lemma EpochParams.scanAmounts_fit_iff (net : EpochParams params) {nHeight}
    {entries : List (Σ _ : COutPoint, Coin)} (values : ∀ entry ∈ entries, 0 ≤ entry.2.out.nValue) {sum}
    (start : 0 ≤ sum ∧ sum < 2 ^ 63) :
    (∀ amt ∈ scanAmounts host params nHeight sum entries, FitsInt64 amt) ↔
      ScanFits host params nHeight sum entries := by
  induction entries generalizing sum with
  | nil =>
    simp only [scanAmounts, ScanFits, scanTotal, map_nil, sum_nil, not_mem_nil, false_implies, implies_true,
      true_and, true_iff, add_zero]
    exact start.2
  | cons entry entries ih =>
    have rest := @ih (forall_mem_cons.mp values).2
    have own := weighed_nonneg params nHeight (values entry (by simp))
    by_cases cnt : isCirculating host params nHeight entry.2 = true
    · rw [scanFits_cons cnt, scanAmounts, if_pos cnt]
      rw [forall_mem_append, forall_mem_cons, forall_mem_cons,
        and_iff_right (net.weightAmounts_fit)]
      have product : FitsInt64 (weighed params nHeight entry.2) ↔ weighed params nHeight entry.2 < 2 ^ 63 :=
        ⟨fun fits => fits.2, fun small => ⟨by omega, small⟩⟩
      rw [product]
      apply and_congr_right
      intro small
      rw [wrapInt64_of_fits (product.mpr small)]
      constructor
      · rintro ⟨next, later⟩
        rw [wrapInt64_of_fits next] at later
        exact (rest ⟨by omega, next.2⟩).mp later
      · intro fits
        have total := scanTotal_range host params nHeight entries (forall_mem_cons.mp values).2
        have bound := fits.2
        have next : FitsInt64 (sum + (weighed params nHeight entry.2).tdiv 100) := ⟨by omega, by omega⟩
        rw [wrapInt64_of_fits next]
        exact ⟨next, (rest ⟨by omega, next.2⟩).mpr fits⟩
    · rw [scanFits_skip cnt, scanAmounts, if_neg cnt]
      exact rest start

lemma foldl_scanStep {nHeight} {entries : List (Σ _ : COutPoint, Coin)}
    (values : ∀ entry ∈ entries, 0 ≤ entry.2.out.nValue) {sum} (nonneg : 0 ≤ sum)
    (fits : ScanFits host params nHeight sum entries) :
    entries.foldl (scanStep host params nHeight) sum = sum + scanTotal host params nHeight entries := by
  induction entries generalizing sum with
  | nil => simp [scanTotal]
  | cons entry entries ih =>
    have rest := @ih (forall_mem_cons.mp values).2
    have own := weighed_nonneg params nHeight (values entry (by simp))
    by_cases cnt : isCirculating host params nHeight entry.2 = true
    · rw [scanFits_cons cnt] at fits
      have total := scanTotal_range host params nHeight entries (forall_mem_cons.mp values).2
      have bound := fits.2.2
      have product : FitsInt64 (weighed params nHeight entry.2) := ⟨by omega, fits.1⟩
      rw [foldl_cons, scanStep, if_pos cnt, wrapInt64_of_fits product, wrapInt64_of_fits ⟨by omega, by omega⟩,
        rest (by omega) fits.2, scanTotal_cons, if_pos cnt, add_assoc]
    · rw [scanFits_skip cnt] at fits
      rw [foldl_cons, scanStep, if_neg cnt, rest nonneg fits, scanTotal_cons, if_neg cnt, zero_add]

lemma EpochParams.emission_le (net : EpochParams params) {nSupply rate k} (supply : FitsInt64 nSupply)
    (pos : 0 < rate) (whole : rate * k = 1000000) :
    |(nSupply.tdiv (365 * params.nBlocksPerDay)).tdiv 1000000 * rate| * k * (365 * params.nBlocksPerDay) ≤ 2 ^ 63 := by
  have days := net.perDay.1
  have yearly := abs_tdiv_mul_le nSupply (365 * params.nBlocksPerDay)
  have share := abs_tdiv_mul_le (nSupply.tdiv (365 * params.nBlocksPerDay)) 1000000
  generalize nSupply.tdiv _ = year at yearly share ⊢
  rw [abs_of_pos (by omega : 0 < 365 * params.nBlocksPerDay)] at yearly
  have whole_supply : |nSupply| ≤ 2 ^ 63 := by
    rw [abs_le]
    exact ⟨supply.1, supply.2.le⟩
  calc |year.tdiv _ * rate| * k * (365 * params.nBlocksPerDay) = |year.tdiv _| * (rate * k) * (365 * params.nBlocksPerDay) := by
        rw [abs_mul, abs_of_pos pos, mul_assoc |year.tdiv _|]
    _ = |year.tdiv _| * 1000000 * (365 * params.nBlocksPerDay) := by rw [whole]
    _ ≤ |year| * (365 * params.nBlocksPerDay) := mul_le_mul_of_nonneg_right share (by omega)
    _ ≤ |nSupply| := yearly
    _ ≤ 2 ^ 63 := whole_supply

structure TargetFits (params : Params) (nSupply rate : Int) (daily : Int) : Prop where
  amounts : ∀ amount ∈ targetAmounts params nSupply rate, FitsInt64 amount
  emission : nTargetEmission params nSupply rate = daily * params.nRewardAdjustmentInterval
  daily_le : |daily| * 3650 ≤ 2 ^ 63
  total_le : |daily * params.nRewardAdjustmentInterval| * 10 ≤ 2 ^ 63

lemma EpochParams.targetFits (net : EpochParams params) {nSupply rate k} (supply : FitsInt64 nSupply)
    (pos : 0 < rate) (whole : rate * k = 1000000) (least : 10 ≤ k) :
    ∃ daily, TargetFits params nSupply rate daily := by
  have days := net.perDay
  have interval := net.interval_le
  have small := net.emission_le supply pos whole
  exists (nSupply.tdiv (365 * params.nBlocksPerDay)).tdiv 1000000 * rate
  have unfolded : nTargetEmission params nSupply rate = wrapInt64 (wrapInt64 ((nSupply.tdiv (365 * params.nBlocksPerDay)).tdiv
    1000000 * rate) * params.nRewardAdjustmentInterval) := rfl
  have listed : targetAmounts params nSupply rate = [365 * params.nBlocksPerDay, (nSupply.tdiv (365 * params.nBlocksPerDay)).tdiv
    1000000 * rate, wrapInt64 ((nSupply.tdiv (365 * params.nBlocksPerDay)).tdiv 1000000 * rate) *
      params.nRewardAdjustmentInterval] := rfl
  generalize (nSupply.tdiv _).tdiv _ * rate = daily at small unfolded listed ⊢
  have nonneg : 0 ≤ |daily| := abs_nonneg _
  have tenth :=
    le_trans (mul_le_mul_of_nonneg_right (mul_le_mul_of_nonneg_left least nonneg) (by omega)) small
  have total : |daily * params.nRewardAdjustmentInterval| * 10 ≤ 2 ^ 63 := by
    rw [abs_mul, Nat.abs_cast, mul_right_comm]
    exact le_trans (mul_le_mul_of_nonneg_left interval (by omega)) tenth
  have year : |daily| * 10 * 365 ≤ 2 ^ 63 :=
    le_trans (mul_le_mul_of_nonneg_left (by omega) (by omega)) tenth
  have dailyFits : FitsInt64 daily := fits_of_abs (by omega)
  have totalFits : FitsInt64 (daily * params.nRewardAdjustmentInterval) := fits_of_abs (by omega)
  rw [wrapInt64_of_fits dailyFits] at unfolded listed
  rw [wrapInt64_of_fits totalFits] at unfolded
  constructor
  · rw [listed]
    simp only [forall_mem_cons, not_mem_nil, false_implies, implies_true, and_true]
    exact ⟨⟨by omega, by omega⟩, dailyFits, totalFits⟩
  · exact unfolded
  · omega
  · exact total
end
section
variable {host : Host} {params : Params} {inputs : EpochInputs} {pindex : CBlockIndex} {nSubsidy : Int}
structure TargetBounds (host : Host) (params : Params) (inputs : EpochInputs) (pindex : CBlockIndex) (share : Int) : Prop where
  supplyAmounts : ∀ amount ∈ targetAmounts params pindex.nMoneySupply TOT_SPLY_TRGT_EMISSION, FitsInt64 amount
  circulatingAmounts : ∀ amount ∈ targetAmounts params (nUnstakedSupply host params inputs pindex.nHeight)
    CIRC_SPLY_TRGT_EMISSION, FitsInt64 amount
  sum_fits : FitsInt64 (supplyTarget params pindex + circulatingTarget host params inputs pindex)
  share_nonneg : 0 ≤ share
  share_le : share * 1825 ≤ 2 ^ 63
  target_le : |epochTarget host params inputs pindex| ≤ share * params.nRewardAdjustmentInterval
  target_small : |epochTarget host params inputs pindex| * 10 ≤ 2 ^ 63

lemma EpochParams.targetBounds (net : EpochParams params) (supply : FitsInt64 pindex.nMoneySupply)
    (unstaked : FitsInt64 (nUnstakedSupply host params inputs pindex.nHeight)) :
    ∃ share, TargetBounds host params inputs pindex share := by
  rcases net.targetFits (k := 20) supply (by decide : 0 < TOT_SPLY_TRGT_EMISSION) (by decide) (by decide) with ⟨first, left⟩
  rcases net.targetFits (k := 10) unstaked (by decide : 0 < CIRC_SPLY_TRGT_EMISSION) (by decide) (by decide) with
    ⟨snd, right⟩
  have firstTotal := left.total_le
  have secondTotal := right.total_le
  have sum : |first * params.nRewardAdjustmentInterval + snd * params.nRewardAdjustmentInterval| ≤
      |first * params.nRewardAdjustmentInterval| + |snd * params.nRewardAdjustmentInterval| := abs_add_le _ _
  have fits : FitsInt64 (supplyTarget params pindex + circulatingTarget host params inputs pindex) := by
    rw [supplyTarget, circulatingTarget, left.emission, right.emission]
    apply fits_of_abs
    omega
  have halved : epochTarget host params inputs pindex =
      (first * params.nRewardAdjustmentInterval + snd * params.nRewardAdjustmentInterval).tdiv 2 := by
    rw [epochTarget, wrapInt64_of_fits fits, supplyTarget, circulatingTarget, left.emission, right.emission]
  have half := abs_tdiv_mul_le (first * params.nRewardAdjustmentInterval + snd * params.nRewardAdjustmentInterval) 2
  rw [← halved, abs_of_pos (by decide : (0 : Int) < 2)] at half
  have firstDaily := left.daily_le
  have secondDaily := right.daily_le
  have firstNonneg := abs_nonneg first
  have secondNonneg := abs_nonneg snd
  exists |first| + |snd|
  constructor
  · exact left.amounts
  · exact right.amounts
  · exact fits
  · omega
  · omega
  · have nonneg := abs_nonneg (epochTarget host params inputs pindex)
    rw [add_mul]
    rw [abs_mul, abs_mul, Nat.abs_cast] at sum
    omega
  · omega

lemma getBlockSubsidy_le_of_late (nHeight) (late : 1 < nHeight) : getBlockSubsidy nHeight ≤ 900 * COIN := by
  have range : 0 ≤ getBlockSubsidy nHeight ∧ getBlockSubsidy nHeight ≤ 900 * COIN := by
    simp only [getBlockSubsidy, late, if_true]
    repeat' apply ite_range
    all_goals decide
  exact range.2

lemma EpochParams.getBlockValue_le (net : EpochParams params) {mDynamicRewards nHeight}
    (epoch : params.isDynamicRewardsEpochHeight nHeight = true) :
    getBlockValue params mDynamicRewards nHeight ≤ 900 * COIN := by
  have interval := net.interval_ge
  rw [Params.isEpochHeight_iff] at epoch
  cases nHeight with
  | zero =>
    rw [getBlockValue]
    decide
  | succ nHeight =>
    have late : 3 ≤ nHeight + 1 := le_trans interval (Nat.le_of_dvd (Nat.succ_pos _) epoch)
    have static := getBlockSubsidy_le_of_late (nHeight + 1) (by omega)
    have other : ¬ params.nRewardAdjustmentInterval ∣ nHeight := by
      intro dvd
      have one := (Nat.dvd_add_right dvd).mp epoch
      rw [Nat.dvd_one] at one
      omega
    rw [getBlockValue]
    split
    · rw [if_pos (Params.isEpochHeight_iff.mpr epoch)]
      -- the height before an epoch height is not one, so the recursion stops there
      cases nHeight with
      | zero => omega
      | succ nHeight =>
        have pre := getBlockSubsidy_le_of_late (nHeight + 1) (by omega)
        rw [getBlockValue, if_neg (c := params.isDynamicRewardsEpochHeight _ = true)
          (fun epoch => other (Params.isEpochHeight_iff.mp epoch))]
        split
        · grind
        · exact pre
    · exact static

/-- Only the mint can be zero, and only a mint below zero can fall out of the range. -/
structure EpochInRange (host : Host) (params : Params) (inputs : EpochInputs) (pindex : CBlockIndex) (nSubsidy : Int) :
    Prop where
  mint_ne : nSubsidy ≠ 0
  loss : nSubsidy < 0 → -2 ^ 63 ≤ nSubsidy * params.nRewardAdjustmentInterval ∧
    -2 ^ 63 ≤ nSubsidy * params.nRewardAdjustmentInterval - epochTarget host params inputs pindex ∧
    -2 ^ 63 ≤ nDelta host params inputs pindex nSubsidy * 100
  products : ∀ outpoint coin, inputs.coins.lookup outpoint = some coin →
    isCirculating host params pindex.nHeight coin = true → weighed params pindex.nHeight coin < 2 ^ 63
  supply : total (fun _ coin => if isCirculating host params pindex.nHeight coin then
    (weighed params pindex.nHeight coin).tdiv 100 else 0) inputs.coins < 2 ^ 63
  staked : inputs.nNetworkHashPS * params.timeSlotLength pindex.nHeight * 100 < 2 ^ 63

lemma scanFits_iff {nHeight coins} : ScanFits host params nHeight 0 coins.entries ↔
    (∀ op coin, coins.lookup op = some coin → isCirculating host params nHeight coin = true →
      weighed params nHeight coin < 2 ^ 63) ∧
    total (fun _ coin => if isCirculating host params nHeight coin then (weighed params nHeight coin).tdiv 100 else 0)
      coins < 2 ^ 63 := by
  rw [ScanFits, zero_add]
  apply and_congr_left'
  constructor
  · intro each op coin found
    exact each ⟨_, _⟩ (AList.mem_lookup_iff.mp found)
  · intro each entry mem
    exact each _ _ (AList.mem_lookup_iff.mpr mem)

structure SupplyBounds (host : Host) (params : Params) (inputs : EpochInputs) (nHeight : Nat) : Prop where
  circulating : 0 ≤ nCirculatingSupply host params nHeight inputs.coins ∧
    nCirculatingSupply host params nHeight inputs.coins < 2 ^ 63
  circulating_le : nCirculatingSupply host params nHeight inputs.coins ≤ total (fun _ => Coin.value) inputs.coins
  staked_fits : FitsInt64 (inputs.nNetworkHashPS * params.timeSlotLength nHeight)
  staked : 0 ≤ nStakedCoins params inputs nHeight ∧ nStakedCoins params inputs nHeight < 2 ^ 63
  unstaked : 0 ≤ nUnstakedSupply host params inputs nHeight ∧
    nUnstakedSupply host params inputs nHeight ≤ nCirculatingSupply host params nHeight inputs.coins

lemma EpochParams.supplyBounds (net : EpochParams params) {nHeight}
    (values : ∀ entry ∈ inputs.coins.entries, 0 ≤ entry.2.out.nValue) (power : 0 ≤ inputs.nNetworkHashPS)
    (fits : ScanFits host params nHeight 0 inputs.coins.entries)
    (staked : inputs.nNetworkHashPS * params.timeSlotLength nHeight * 100 < 2 ^ 63) :
    SupplyBounds host params inputs nHeight := by
  have range := scanTotal_range host params nHeight _ values
  have scanned : nCirculatingSupply host params nHeight inputs.coins = scanTotal host params nHeight inputs.coins.entries := by
    rw [nCirculatingSupply_eq, foldl_scanStep values le_rfl fits, zero_add]
  have small := fits.2
  rw [zero_add, ← scanned] at small
  rw [← scanned] at range
  have slots : 0 ≤ inputs.nNetworkHashPS * params.timeSlotLength nHeight :=
    mul_nonneg power (net.timeSlotLength_nonneg)
  have slotFits : FitsInt64 (inputs.nNetworkHashPS * params.timeSlotLength nHeight) := ⟨by omega, by omega⟩
  have exact : nStakedCoins params inputs nHeight = inputs.nNetworkHashPS * params.timeSlotLength nHeight * 100 := by
    rw [nStakedCoins, wrapInt64_of_fits slotFits, wrapInt64_of_fits ⟨by omega, staked⟩]
  have rest : nUnstakedSupply host params inputs nHeight =
      max (nCirculatingSupply host params nHeight inputs.coins - nStakedCoins params inputs nHeight) 0 := by
    rw [nUnstakedSupply, wrapInt64_of_fits ⟨by omega, by omega⟩]
  constructor
  · exact ⟨range.1, small⟩
  · exact range.2
  · exact slotFits
  · omega
  · omega

structure DeltaFits (host : Host) (params : Params) (inputs : EpochInputs) (pindex : CBlockIndex) (nSubsidy : Int) :
    Prop where
  actual : FitsInt64 (nSubsidy * params.nRewardAdjustmentInterval)
  gap : FitsInt64 (nSubsidy * params.nRewardAdjustmentInterval - epochTarget host params inputs pindex)
  delta : FitsInt64 (nDelta host params inputs pindex nSubsidy * 100)

section
variable (net : EpochParams params) {share : Int} (bounds : TargetBounds host params inputs pindex share)
include net bounds

lemma EpochParams.deltaFits_of_mint (pos : 0 < nSubsidy) (capped : nSubsidy ≤ 900 * COIN) :
    DeltaFits host params inputs pindex nSubsidy := by
  have interval := net.interval
  have large :=
    mul_le_mul capped interval.2 (by omega) (by decide)
  have nonneg : 0 ≤ nSubsidy * params.nRewardAdjustmentInterval := mul_nonneg pos.le (by omega)
  have target := bounds.target_small
  have gap : |nSubsidy * params.nRewardAdjustmentInterval - epochTarget host params inputs pindex| ≤
      |nSubsidy * params.nRewardAdjustmentInterval| + |epochTarget host params inputs pindex| := abs_sub _ _
  rw [abs_of_nonneg nonneg] at gap
  rw [COIN] at large capped
  have actual : FitsInt64 (nSubsidy * params.nRewardAdjustmentInterval) := ⟨by omega, by omega⟩
  have gapFits : FitsInt64 (nSubsidy * params.nRewardAdjustmentInterval - epochTarget host params inputs pindex) :=
    fits_of_abs (by omega)
  have spread : |nDelta host params inputs pindex nSubsidy| ≤ nSubsidy + share := by
    rw [nDelta_eq, wrapInt64_of_fits actual, wrapInt64_of_fits gapFits]
    apply abs_tdiv_le (by omega)
    have own := bounds.target_le
    rw [add_mul]
    omega
  have small := bounds.share_le
  rw [abs_le] at spread
  exact ⟨actual, gapFits, ⟨by omega, by omega⟩⟩

lemma EpochParams.deltaFits_of_loss (negative : nSubsidy < 0) (actual_ge : -2 ^ 63 ≤ nSubsidy * params.nRewardAdjustmentInterval)
    (gap_ge : -2 ^ 63 ≤ nSubsidy * params.nRewardAdjustmentInterval - epochTarget host params inputs pindex)
    (delta_ge : -2 ^ 63 ≤ nDelta host params inputs pindex nSubsidy * 100) :
    DeltaFits host params inputs pindex nSubsidy := by
  have interval := net.interval
  have below : nSubsidy * params.nRewardAdjustmentInterval ≤ 0 := mul_nonpos_of_nonpos_of_nonneg negative.le (by omega)
  have target := bounds.target_small
  have share_le := bounds.share_le
  have spread := bounds.target_le
  have gap := neg_le_abs (epochTarget host params inputs pindex)
  have actual : FitsInt64 (nSubsidy * params.nRewardAdjustmentInterval) := ⟨actual_ge, by omega⟩
  have gapFits : FitsInt64 (nSubsidy * params.nRewardAdjustmentInterval - epochTarget host params inputs pindex) :=
    ⟨gap_ge, by omega⟩
  have delta_le : nDelta host params inputs pindex nSubsidy ≤ share := by
    rw [nDelta_eq, wrapInt64_of_fits actual, wrapInt64_of_fits gapFits]
    calc (nSubsidy * params.nRewardAdjustmentInterval - epochTarget ..).tdiv _ ≤ (share * params.nRewardAdjustmentInterval).tdiv _ :=
          Int.tdiv_le_tdiv (by omega) (by omega)
      _ = share := Int.mul_tdiv_cancel _ (by omega)
  exact ⟨actual, gapFits, ⟨delta_ge, by omega⟩⟩
end

lemma DeltaFits.damped (fits : DeltaFits host params inputs pindex nSubsidy) (net : EpochParams params) :
    let delta := nDelta host params inputs pindex nSubsidy
    let nDampedDelta := (wrapInt64 (delta * nWeightRatio delta nSubsidy)).tdiv 100
    FitsInt64 (delta * nWeightRatio delta nSubsidy) ∧ FitsInt64 (nSubsidy - nDampedDelta) ∧
      FitsInt64 ((wrapInt64 (nSubsidy - nDampedDelta)).tdiv COIN * COIN) := by
  have interval := net.interval
  obtain ⟨actual, -, delta⟩ := fits
  have weight := nWeightRatio_range (nDelta host params inputs pindex nSubsidy) nSubsidy
  dsimp only
  generalize nWeightRatio _ _ = weight' at weight ⊢
  generalize nDelta .. = delta' at delta ⊢
  have product : |delta' * weight'| ≤ |delta'| * 10 := by
    rw [abs_mul, abs_of_pos (by omega : 0 < weight')]
    exact mul_le_mul_of_nonneg_left weight.2 (abs_nonneg _)
  have spread : |delta'| * 100 ≤ 2 ^ 63 := by
    obtain ⟨lower, upper⟩ := delta
    rcases abs_cases delta' with ⟨same, -⟩ | ⟨same, -⟩
    · omega
    · omega
  have mint : |nSubsidy| * 3 ≤ 2 ^ 63 := by
    have scaled : |nSubsidy| * 3 ≤ |nSubsidy * params.nRewardAdjustmentInterval| := by
      rw [abs_mul, Nat.abs_cast]
      exact mul_le_mul_of_nonneg_left interval.1 (abs_nonneg _)
    obtain ⟨lower, upper⟩ := actual
    rcases abs_cases (nSubsidy * params.nRewardAdjustmentInterval) with ⟨same, -⟩ | ⟨same, -⟩
    · omega
    · omega
  have productFits : FitsInt64 (delta' * weight') := fits_of_abs (by omega)
  have quot := abs_tdiv_mul_le (delta' * weight') 100
  rw [abs_of_pos (by decide : (0 : Int) < 100)] at quot
  have difference : |nSubsidy - (delta' * weight').tdiv 100| ≤ |nSubsidy| + |(delta' * weight').tdiv 100| := abs_sub _ _
  have rest : FitsInt64 (nSubsidy - (delta' * weight').tdiv 100) := fits_of_abs (by omega)
  rw [wrapInt64_of_fits productFits, wrapInt64_of_fits rest]
  apply And.intro productFits
  apply And.intro rest
  have whole := abs_tdiv_mul_le (nSubsidy - (delta' * weight').tdiv 100) COIN
  rw [← abs_mul] at whole
  exact fits_of_abs (by omega)

lemma EpochSafe.inRange (safe : EpochSafe host params inputs pindex nSubsidy) (net : EpochParams params)
    (values : ∀ entry ∈ inputs.coins.entries, 0 ≤ entry.2.out.nValue) :
    EpochInRange host params inputs pindex nSubsidy := by
  have amounts := safe.amounts
  simp only [epochAmounts, cons_append, forall_mem_append, forall_mem_cons] at amounts
  obtain ⟨-, ⟨⟨scan, -⟩, -⟩, slots, staked, -, actual, -, gap, delta, -⟩ := amounts
  have scanned := (scanFits_iff).mp
    ((net.scanAmounts_fit_iff values ⟨le_rfl, by decide⟩).mp scan)
  rw [wrapInt64_of_fits slots] at staked
  rw [wrapInt64_of_fits actual] at gap
  constructor
  · exact safe.divisors _ (by simp [epochDivisors])
  · intro _
    exact ⟨actual.1, gap.1, delta.1⟩
  · exact scanned.1
  · exact scanned.2
  · exact staked.2

lemma EpochInRange.safe (inRange : EpochInRange host params inputs pindex nSubsidy) (net : EpochParams params)
    (height : pindex.nHeight < 2 ^ 31) (values : ∀ entry ∈ inputs.coins.entries, 0 ≤ entry.2.out.nValue)
    (supply : FitsInt64 pindex.nMoneySupply) (power : 0 ≤ inputs.nNetworkHashPS) (capped : nSubsidy ≤ 900 * COIN) :
    EpochSafe host params inputs pindex nSubsidy := by
  have scan :=
    (scanFits_iff).mpr ⟨inRange.products, inRange.supply⟩
  have supplies := net.supplyBounds values power scan inRange.staked
  have circulating := supplies.circulating
  have staked := supplies.staked
  have unstaked := supplies.unstaked
  have slots := supplies.staked_fits
  rcases net.targetBounds supply (⟨by omega, by omega⟩ : FitsInt64 (nUnstakedSupply host _ inputs _)) with
    ⟨share, bounds⟩
  have delta : DeltaFits host params inputs pindex nSubsidy := by
    rcases lt_trichotomy nSubsidy 0 with negative | zero | pos
    · obtain ⟨actual, gap, delta⟩ := inRange.loss negative
      exact net.deltaFits_of_loss bounds negative actual gap delta
    · exact absurd zero inRange.mint_ne
    · exact net.deltaFits_of_mint bounds pos capped
  obtain ⟨product, rest, whole⟩ := delta.damped net
  have week := net.perWeek
  have days := net.perDay
  have months := net.perMonth
  have interval := net.interval
  constructor
  · simp [adjustSubsidy, Except.require, (by simpa using inRange.mint_ne)]
  · have spacing := net.spacing_pos
    have mint := inRange.mint_ne
    simp only [epochDivisors, forall_mem_cons, not_mem_nil, false_implies, implies_true, and_true]
    omega
  · have ratio : ∀ nRatio : Nat, FitsInt64 (min (nRatio : Int) 100 * 9) ∧ FitsInt64 ((min (nRatio : Int) 100 * 9).tdiv 100 + 1) := by
      intro nRatio
      rw [Int.tdiv_eq_ediv_of_nonneg (by omega)]
      exact ⟨⟨by omega, by omega⟩, ⟨by omega, by omega⟩⟩
    simp only [epochAmounts, cons_append, forall_mem_append, forall_mem_cons, not_mem_nil, false_implies,
      implies_true, and_true]
    have scanned := (net.scanAmounts_fit_iff values ⟨le_rfl, by decide⟩).mpr scan
    rw [wrapInt64_of_fits slots, wrapInt64_of_fits delta.actual]
    have stakedLow : 0 ≤ inputs.nNetworkHashPS * params.timeSlotLength pindex.nHeight :=
      mul_nonneg power (net.timeSlotLength_nonneg)
    exact ⟨⟨by omega, by omega⟩, ⟨⟨scanned, bounds.supplyAmounts⟩, bounds.circulatingAmounts⟩, slots,
      ⟨by omega, inRange.staked⟩, ⟨by omega, by omega⟩, delta.actual, bounds.sum_fits, delta.gap, delta.delta,
      (ratio _).1, (ratio _).2, product, rest, whole⟩
  · exact ⟨circulating.1, supplies.circulating_le⟩
  · exact ⟨unstaked.1, le_trans unstaked.2 supplies.circulating_le⟩
end

/-- The block mints something, and the coins, the staking power and a negative mint are small enough. -/
theorem epochSafe_iff {host : Host} {params : Params} {mDynamicRewards : DynamicRewards} {inputs : EpochInputs}
    {pindex : CBlockIndex} {nMint : Int} (net : EpochParams params) (height : pindex.nHeight < 2 ^ 31)
    (epoch : params.isDynamicRewardsEpochHeight pindex.nHeight = true)
    (values : ∀ outpoint coin, inputs.coins.lookup outpoint = some coin → params.moneyRange coin.out.nValue = true)
    (supply : FitsInt64 pindex.nMoneySupply) (power : 0 ≤ inputs.nNetworkHashPS)
    (valid : nMint ≤ getBlockValue params mDynamicRewards pindex.nHeight) :
    EpochSafe host params inputs pindex nMint ↔ EpochInRange host params inputs pindex nMint := by
  have nonneg : ∀ entry ∈ inputs.coins.entries, 0 ≤ entry.2.out.nValue := by
    intro entry member
    exact (Params.moneyRange_iff.mp (values _ _ (AList.mem_lookup_iff.mpr member))).1
  constructor
  · intro safe
    exact safe.inRange net nonneg
  · intro inRange
    exact inRange.safe net height nonneg supply power (le_trans valid (net.getBlockValue_le epoch))

lemma mainConsensus_epochParams : EpochParams mainConsensus where
  spacing_pos := by decide
  spacing_le := by decide
  interval_ge := by decide
  interval_le := by decide
  slot_nonneg := by decide

def stakedCoins : CoinMap := (∅ : CoinMap).insert ⟨5, 0⟩ ⟨false, false, ⟨1000 * COIN, []⟩, 1900000⟩
def stakedView : CCoinsView := .cache ⟨1905119, ∅⟩ (.db ⟨1905119, stakedCoins⟩)

def epochBlock (nMint : Int) : CBlock :=
  blockAt 1905120 [coinbaseTx 14 0, paymentTx 24 [⟨5, 0⟩] [⟨0, []⟩, ⟨1000 * COIN + nMint, []⟩]]

def stakedHook : CRewards.Hook := ⟨emptyNode, sqliteDone, ⟨stakedCoins, 0⟩⟩

lemma stakedCoins_range (op coin) (found : stakedCoins.lookup op = some coin) :
    mainConsensus.moneyRange coin.out.nValue = true ∧ weighed mainConsensus 1905120 coin < 2 ^ 63 := by
  have every : ∀ entry ∈ stakedCoins.entries, mainConsensus.moneyRange entry.2.out.nValue = true ∧
      weighed mainConsensus 1905120 entry.2 < 2 ^ 63 := by decide +kernel
  exact every ⟨_, _⟩ (AList.mem_lookup_iff.mp found)

theorem epochSafe_full_mint : 380 * COIN ≤ getBlockValue mainConsensus ∅ 1905120 ∧
      EpochSafe labelHost mainConsensus stakedHook.inputs (indexAt 1905120) (380 * COIN) := by
  have valid : 380 * COIN ≤ getBlockValue mainConsensus ∅ (indexAt 1905120).nHeight := by decide +kernel
  apply And.intro valid
  apply (epochSafe_iff mainConsensus_epochParams (by decide) (by decide)
    (fun outpoint coin found => (stakedCoins_range outpoint coin found).1) (by decide) (by decide) valid).mpr
  constructor
  · decide
  · intro negative
    exact absurd negative (by decide)
  · intro outpoint coin found _
    exact (stakedCoins_range outpoint coin found).2
  · decide +kernel
  · decide

/-- A block that mints nothing stops the node: the adjustment divides by its mint. -/
theorem zeroMint_divides_by_zero : ∃ result,
    connectBlock labelHost mainParams ∅ (epochBlock 0) (newIndex 1905120) (indexAt 1905119) stakedView = .ok result ∧
    result.nMint = 0 ∧ result.nMint ≤ getBlockValue mainConsensus ∅ 1905120 ∧
    (∀ outpoint coin, stakedCoins.lookup outpoint = some coin → mainConsensus.moneyRange coin.out.nValue = true) ∧
    emptyRewards.connectBlock labelHost mainConsensus stakedHook (newIndex 1905120) result.nMint =
      .error (.fault "(nDelta * 100) / nSubsidy") ∧
    ¬ EpochSafe labelHost mainConsensus stakedHook.inputs (newIndex 1905120) result.nMint := by
  have connects : (connectBlock labelHost mainParams ∅ (epochBlock 0) (newIndex 1905120) (indexAt 1905119)
      stakedView).toOption.any (fun result => decide (result.nMint = 0)) = true := by decide +kernel
  obtain ⟨result, connected, minted⟩ := Except.exists_ok_of_any connects
  rw [decide_eq_true_eq] at minted
  exists result
  rw [minted]
  apply And.intro connected
  apply And.intro rfl
  apply And.intro (by decide +kernel)
  apply And.intro fun outpoint coin found => (stakedCoins_range outpoint coin found).1
  constructor
  · rfl
  · intro safe
    exact safe.divisors 0 (by simp [epochDivisors]) rfl

end Peony
