import Peony.Chain.BlockTime
import Peony.Chain.RetargetBranch

namespace Peony
open Consensus Int64Arith List Params Window Int

/-- A network that reaches `UPGRADE_POS_V3`, with windows after the change of the time protocol. -/
structure PosV3Rules (params : WorkParams) : Prop where
  enforced : params.fRegTestNet = false
  spacing : params.nTargetSpacing = 60
  slot : params.nTimeSlotLength = 15
  timeV2 : 0 < params.vUpgrades .timeProtocolV2
  month : params.vUpgrades .timeProtocolV2 + 43200 < params.vUpgrades .posV3

/-- From time protocol V2 on every block passed `CheckBlockTime` at some clock. -/
def TimesAdmitted (params : WorkParams) (node : NodeState) (ancestry : List CBlockIndex) : Prop :=
  ∀ (i : Nat) (parent child : CBlockIndex), ancestry[i]? = some parent → ancestry[i + 1]? = some child →
    params.isTimeProtocolV2 (i + 1) = true → ∃ context, checkBlockTime params context node child.nTime parent = .ok ()

section
def Window.exactPower (window : Window) (nAccumulatedSpacing spacing : Int) : Int :=
  (window.nAccumulatedTargetSpacing * spacing).tdiv nAccumulatedSpacing

def Window.exactSpacing (nTargetSpacing : Int) (window : Window) (nAccumulatedSpacing : Int) (power : Nat) : Int :=
  (window.exactPower nAccumulatedSpacing)^[power] (nTargetSpacing * 1000)

variable (nTargetSpacing : Int) (windows : List Window) (accumulated : List Int)
def exactWeights : List Int :=
  List.zipWith (fun window nAccumulatedSpacing => window.nK * window.exactSpacing nTargetSpacing nAccumulatedSpacing 4) windows accumulated

def exactTargetSpacing : Int :=
  max (min ((exactWeights nTargetSpacing windows accumulated).sum.tdiv 100) ((nTargetSpacing * 1000 * 110).tdiv 100))
    ((nTargetSpacing * 1000 * 90).tdiv 100)

/-- No division by zero and no overflow in the adjustment of one window. -/
structure Window.Fits (nTargetSpacing : Int) (window : Window) (nAccumulatedSpacing : Int) : Prop where
  divisor : nAccumulatedSpacing ≠ 0
  products : ∀ power < 4, FitsInt64 (window.nAccumulatedTargetSpacing * window.exactSpacing nTargetSpacing nAccumulatedSpacing power)
  weight : FitsInt64 (window.nK * window.exactSpacing nTargetSpacing nAccumulatedSpacing 4)

variable {nTargetSpacing nAccumulatedSpacing : Int} {window : Window}
lemma Window.exactSpacing_succ (power : Nat) : window.exactSpacing nTargetSpacing nAccumulatedSpacing (power + 1) =
    (window.nAccumulatedTargetSpacing * window.exactSpacing nTargetSpacing nAccumulatedSpacing power).tdiv nAccumulatedSpacing := by
  rw [exactSpacing, Function.iterate_succ_apply']
  rfl

lemma Window.Fits.targetSpacing (fits : window.Fits nTargetSpacing nAccumulatedSpacing) :
    window.targetSpacing nTargetSpacing nAccumulatedSpacing = window.exactSpacing nTargetSpacing nAccumulatedSpacing 4 := by
  have step : ∀ power < 4, (wrapInt64 (window.nAccumulatedTargetSpacing *
      window.exactSpacing nTargetSpacing nAccumulatedSpacing power)).tdiv nAccumulatedSpacing =
        window.exactSpacing nTargetSpacing nAccumulatedSpacing (power + 1) := by
    intro power low
    rw [wrapInt64_of_fits (fits.products _ low), exactSpacing_succ]
  have first : window.nAccumulatedTargetSpacing * nTargetSpacing * 1000 =
      window.nAccumulatedTargetSpacing * window.exactSpacing nTargetSpacing nAccumulatedSpacing 0 := mul_assoc ..
  unfold Window.targetSpacing
  dsimp only
  rw [first, step 0 (by decide), step 1 (by decide), step 2 (by decide), step 3 (by decide)]

lemma Window.abs_exactSpacing_le (positive : 0 < nAccumulatedSpacing) (nonneg : 0 ≤ window.nAccumulatedTargetSpacing)
    (paced : window.nAccumulatedTargetSpacing ≤ 4 * nAccumulatedSpacing) (power : Nat) :
    |window.exactSpacing nTargetSpacing nAccumulatedSpacing power| ≤ 4 ^ power * |nTargetSpacing * 1000| := by
  induction power with
  | zero => exact (one_mul _).ge
  | succ power ih =>
    rw [exactSpacing_succ]
    apply abs_tdiv_le positive
    rw [abs_mul, abs_of_nonneg nonneg]
    calc window.nAccumulatedTargetSpacing * |window.exactSpacing _ _ _| ≤ 4 * nAccumulatedSpacing * (4 ^ power * |nTargetSpacing * 1000|) :=
          mul_le_mul paced ih (abs_nonneg _) (by omega)
      _ = 4 ^ (power + 1) * |nTargetSpacing * 1000| * nAccumulatedSpacing := by ring
end
section
variable (params : WorkParams) (node : NodeState) (pindexLast : CBlockIndex)
def Window.measured (window : Window) : Int :=
  if window.nTargetBlocks < pindexLast.nHeight + 1 then
    (node.chainActive.index (pindexLast.nHeight - window.nTargetBlocks).toNat).elim 0 fun start => (pindexLast.nTime : Int) - start.nTime
  else window.nAccumulatedTargetSpacing

def measuredSpacings : List Int := params.windows.map fun window => window.measured node pindexLast
def adjustedSpacing : Int := exactTargetSpacing params.nTargetSpacing params.windows (measuredSpacings params node pindexLast)

def actualSpacing : Int :=
  ((node.prev pindexLast).elim params.nTargetSpacing fun pprev => (pindexLast.nTime : Int) - pprev.nTime) * 1000

def retargetMultiplier : Int := actualSpacing params node pindexLast + 59 * adjustedSpacing params node pindexLast

/-- Every window starts on the active chain, at a time that keeps the powers in 64 bits. -/
structure WindowsMeasured : Prop where
  fits : ∀ window ∈ params.windows, window.Fits params.nTargetSpacing (window.measured node pindexLast)
  mean : FitsInt64 (exactWeights params.nTargetSpacing params.windows (measuredSpacings params node pindexLast)).sum

/-- The compact form of `min(posLimitV2, floor(t * (a + 59 * F) / (60 * F)))`. -/
def exactBits : Nat :=
  getCompact (BitVec.ofNat 256 (min params.posLimitV2.toNat
    ((setCompact pindexLast.nBits).toNat * retargetMultiplier params node pindexLast /
      (60 * adjustedSpacing params node pindexLast)).toNat))

structure RetargetExact : Prop where
  windows : WindowsMeasured params node pindexLast
  multiplier : 0 ≤ retargetMultiplier params node pindexLast ∧ retargetMultiplier params node pindexLast < 2 ^ 32
  product : (setCompact pindexLast.nBits).toNat * retargetMultiplier params node pindexLast < 2 ^ 256
  bits : getNextWorkRequiredPOSV2 params node pindexLast = .ok (exactBits params node pindexLast)

variable {params node pindexLast}
lemma Window.accumulatedSpacing_measured {window : Window} (nz : window.measured node pindexLast ≠ 0) :
    window.accumulatedSpacing node pindexLast = .ok (window.measured node pindexLast) := by grind [measured, accumulatedSpacing]

variable (windows : WindowsMeasured params node pindexLast)
include windows

lemma WindowsMeasured.starts :
    (params.windows.mapM fun window => window.accumulatedSpacing node pindexLast) = .ok (measuredSpacings params node pindexLast) :=
  Except.mapM_eq_map _ fun _ mem => accumulatedSpacing_measured (windows.fits _ mem).divisor

lemma WindowsMeasured.divisors : ∀ nAccumulatedSpacing ∈ measuredSpacings params node pindexLast, nAccumulatedSpacing ≠ 0 := by
  intro nAccumulatedSpacing mem
  obtain ⟨window, listed, rfl⟩ := mem_map.mp mem
  exact (windows.fits _ listed).divisor

lemma WindowsMeasured.finalTargetSpacing :
    finalTargetSpacing params.nTargetSpacing params.windows (measuredSpacings params node pindexLast) =
      adjustedSpacing params node pindexLast := by
  have weights : List.zipWith (fun window nAccumulatedSpacing => window.nK * window.targetSpacing params.nTargetSpacing nAccumulatedSpacing)
      params.windows (measuredSpacings params node pindexLast) =
        exactWeights params.nTargetSpacing params.windows (measuredSpacings params node pindexLast) := by
    rw [exactWeights, measuredSpacings, zipWith_map_right, zipWith_map_right, zipWith_self, zipWith_self]
    apply map_congr_left
    intro window mem
    rw [(windows.fits _ mem).targetSpacing]
  unfold Peony.finalTargetSpacing
  dsimp only
  rw [weights, wrapInt64_of_fits windows.mean]
  rfl

lemma WindowsMeasured.bits {pprev} (above : pindexLast.nHeight ≠ 0) (parent : node.prev pindexLast = some pprev) :
    getNextWorkRequiredPOSV2 params node pindexLast =
      nextTarget (setCompact pindexLast.nBits) (wrapInt64 (retargetMultiplier params node pindexLast))
        (60 * adjustedSpacing params node pindexLast)
        (params.proofOfStakeLimit (params.isTimeProtocolV2 (pindexLast.nHeight + 1))) := by
  have spacing : blockSpacing node pindexLast params.nTargetSpacing = .ok ((pindexLast.nTime : Int) - pprev.nTime) := by
    rw [blockSpacing, if_neg above, parent]
  rw [getNextWorkRequiredPOSV2_eq spacing windows.starts windows.divisors, windows.finalTargetSpacing, retargetMultiplier,
    actualSpacing,
    parent]
  rfl
end
section
variable {params : WorkParams} {node : NodeState} {ancestry : List CBlockIndex} {pindexLast : CBlockIndex}
lemma PosV3Rules.isTimeProtocolV2 (rules : PosV3Rules params) {nHeight : Nat} (late : params.vUpgrades .timeProtocolV2 ≤ nHeight) :
    params.isTimeProtocolV2 nHeight = true := by
  have positive := rules.timeV2
  have scheduled : params.vUpgrades .timeProtocolV2 ≠ NO_ACTIVATION_HEIGHT := by grind [NO_ACTIVATION_HEIGHT]
  rw [Params.isTimeProtocolV2, Params.networkUpgradeActive, bne_iff_ne.mpr scheduled, Bool.true_and, decide_eq_true_iff]
  exact late

lemma PosV3Rules.late (rules : PosV3Rules params) (called : params.networkUpgradeActive (pindexLast.nHeight + 1) .posV3 = true) :
    params.vUpgrades .timeProtocolV2 + 43200 ≤ pindexLast.nHeight := by
  have month := rules.month
  rw [networkUpgradeActive, Bool.and_eq_true, decide_eq_true_iff] at called
  omega

section
variable (admitted : TimesAdmitted params node ancestry) (rules : PosV3Rules params) (chain : IsAncestry ancestry pindexLast)
include admitted rules chain

variable {i : Nat}
lemma TimesAdmitted.slotted {pindex} (found : ancestry[i]? = some pindex)
    (late : params.vUpgrades .timeProtocolV2 ≤ i) : 15 ∣ pindex.nTime := by
  have positive := rules.timeV2
  cases i with
  | zero => omega
  | succ i =>
    have ins : i < ancestry.length := Nat.lt_of_succ_lt (List.getElem?_eq_some_iff.mp found).1
    have parent : ancestry[i]? = some ancestry[i] := List.getElem?_eq_getElem _
    have timeV2 := rules.isTimeProtocolV2 late
    obtain ⟨ctx, checks⟩ := admitted i _ _ parent found timeV2
    rw [← chain.heights i _ parent] at timeV2
    have slot := (checkBlockTime_slots rules.enforced timeV2 checks).2
    rw [rules.slot] at slot
    exact_mod_cast slot

lemma TimesAdmitted.later {parent child} (first : ancestry[i]? = some parent)
    (snd : ancestry[i + 1]? = some child) (late : params.vUpgrades .timeProtocolV2 ≤ i) : parent.nTime + 15 ≤ child.nTime := by
  have timeV2 : params.isTimeProtocolV2 (i + 1) = true := rules.isTimeProtocolV2 (by omega)
  have height := chain.heights i _ first
  obtain ⟨ctx, checks⟩ := admitted i _ _ first snd timeV2
  have more := (checkBlockTime_slots rules.enforced (by rw [height]; exact timeV2) checks).1 (by omega)
  have pre := admitted.slotted rules chain first late
  have after := admitted.slotted rules chain snd (by omega)
  omega

lemma TimesAdmitted.spread {start} (first : ancestry[i]? = some start)
    (late : params.vUpgrades .timeProtocolV2 ≤ i) (distance : Nat) {last}
    (found : ancestry[i + distance]? = some last) : start.nTime + 15 * distance ≤ last.nTime := by
  induction distance generalizing last with
  | zero => grind
  | succ distance ih =>
    have ins : i + distance < ancestry.length := Nat.lt_of_succ_lt (List.getElem?_eq_some_iff.mp found).1
    have pre : ancestry[i + distance]? = some ancestry[i + distance] := List.getElem?_eq_getElem _
    have step := admitted.later rules chain pre found (by omega)
    have most := ih pre
    omega
end

structure Window.Regular (window : Window) : Prop where
  blocks : 0 < window.nTargetBlocks
  month : window.nTargetBlocks ≤ 43200
  minutes : window.nAccumulatedTargetSpacing = 60 * window.nTargetBlocks
  weight : |window.nK| ≤ 60

lemma PosV3Rules.windows (rules : PosV3Rules params) : params.windows =
    [⟨1440, 86400, 60⟩, ⟨10080, 604800, 24⟩, ⟨20160, 1209600, 10⟩, ⟨43200, 2592000, 6⟩] := by
  rw [WorkParams.windows, nBlocksPerDay, nBlocksPerWeek, nBlocksPerMonth, rules.spacing]
  rfl

variable {window : Window}
lemma PosV3Rules.regular (rules : PosV3Rules params) (mem : window ∈ params.windows) : window.Regular := by
  rw [rules.windows] at mem
  simp only [mem_cons, not_mem_nil, or_false] at mem
  rcases mem with rfl | rfl | rfl | rfl
  all_goals exact ⟨by decide, by decide, by decide, by decide⟩

lemma Window.measured_shared (shares : SharesStart params node ancestry pindexLast)
    (mem : window ∈ params.windows) {n : Nat} (blocks : window.nTargetBlocks = n) {start}
    (found : ancestry[pindexLast.nHeight - n]? = some start) (ins : n ≤ pindexLast.nHeight) :
    window.measured node pindexLast = (pindexLast.nTime : Int) - start.nTime := by
  have enough := params.nBlocksPerDay_le_window mem
  have height : (pindexLast.nHeight - window.nTargetBlocks).toNat = pindexLast.nHeight - n := by omega
  rw [measured, if_pos (by omega), height, shares _ (by omega), found]
  rfl

lemma TimesAdmitted.paced (admitted : TimesAdmitted params node ancestry) (rules : PosV3Rules params)
    (chain : IsAncestry ancestry pindexLast) (called : params.networkUpgradeActive (pindexLast.nHeight + 1) .posV3 = true)
    (shares : SharesStart params node ancestry pindexLast) (mem : window ∈ params.windows) :
    0 < window.measured node pindexLast ∧ window.nAccumulatedTargetSpacing ≤ 4 * window.measured node pindexLast := by
  obtain ⟨positive, month, minutes, -⟩ := rules.regular mem
  have late := rules.late called
  have timeV2 := rules.timeV2
  obtain ⟨n, blocks⟩ := eq_ofNat_of_zero_le positive.le
  have bound := (List.getElem?_eq_some_iff.mp chain.last).1
  have ins : pindexLast.nHeight - n < ancestry.length := by omega
  have start : ancestry[pindexLast.nHeight - n]? = some ancestry[pindexLast.nHeight - n] := List.getElem?_eq_getElem _
  have last : ancestry[pindexLast.nHeight - n + n]? = some pindexLast := by
    rw [Nat.sub_add_cancel (by omega)]
    exact chain.last
  have spread := admitted.spread rules chain start (by omega) n last
  rw [measured_shared shares mem blocks start (by omega)]
  omega

section
variable (regular : window.Regular) {nAccumulatedSpacing : Int} (positive : 0 < nAccumulatedSpacing)
  (paced : window.nAccumulatedTargetSpacing ≤ 4 * nAccumulatedSpacing)
include regular positive paced

lemma Window.Regular.abs_exactSpacing_le {power}
    (low : power ≤ 4) : |window.exactSpacing 60 nAccumulatedSpacing power| ≤ 256 * 60000 := by
  obtain ⟨blocks, month, minutes, -⟩ := regular
  have most : (4 : Int) ^ power ≤ 4 ^ 4 := pow_le_pow_right₀ (by decide) low
  calc |window.exactSpacing 60 _ _| ≤ 4 ^ power * |(60 : Int) * 1000| := Window.abs_exactSpacing_le positive (by omega) paced _
    _ ≤ 256 * 60000 := mul_le_mul most (by decide) (abs_nonneg _) (by decide)

lemma Window.Regular.fits : window.Fits 60 nAccumulatedSpacing := by
  have product : ∀ factor, |factor| ≤ 2592000 → ∀ power ≤ 4,
      FitsInt64 (factor * window.exactSpacing 60 nAccumulatedSpacing power) := by
    intro factor small power low
    apply fits_of_abs
    rw [abs_mul]
    calc |factor| * |window.exactSpacing 60 _ _|
        ≤ 2592000 * (256 * 60000) := mul_le_mul small (regular.abs_exactSpacing_le positive paced low) (abs_nonneg _) (by decide)
      _ < 2 ^ 63 := by decide
  obtain ⟨blocks, month, minutes, weight⟩ := regular
  constructor
  · exact positive.ne'
  · grind
  · exact product _ (weight.trans (by decide)) 4 (le_refl 4)
end

lemma WindowsMeasured.of_shared (rules : PosV3Rules params) (chain : IsAncestry ancestry pindexLast)
    (called : params.networkUpgradeActive (pindexLast.nHeight + 1) .posV3 = true) (admitted : TimesAdmitted params node ancestry)
    (shares : SharesStart params node ancestry pindexLast) : WindowsMeasured params node pindexLast where
  fits := by
    intro window mem
    obtain ⟨positive, paced⟩ := admitted.paced rules chain called shares mem
    rw [rules.spacing]
    exact (rules.regular mem).fits positive paced
  mean := by
    have bounds : ∀ weight ∈ exactWeights params.nTargetSpacing params.windows (measuredSpacings params node pindexLast),
        |weight| ≤ 60 * (256 * 60000) := by
      rw [exactWeights, measuredSpacings, zipWith_map_right, zipWith_self, rules.spacing]
      intro weight listed
      obtain ⟨window, mem, rfl⟩ := mem_map.mp listed
      obtain ⟨positive, paced⟩ := admitted.paced rules chain called shares mem
      have regular := rules.regular mem
      rw [abs_mul]
      exact mul_le_mul regular.weight (regular.abs_exactSpacing_le positive paced (le_refl 4)) (abs_nonneg _) (by decide)
    have four : (exactWeights params.nTargetSpacing params.windows (measuredSpacings params node pindexLast)).length = 4 := by rfl
    have upper := sum_le_card_nsmul _ _ fun weight listed => (abs_le.mp (bounds _ listed)).2
    have lower := card_nsmul_le_sum _ _ fun weight listed => (abs_le.mp (bounds _ listed)).1
    rw [nsmul_eq_mul] at upper lower
    exact ⟨by omega, by omega⟩
end

variable {params : WorkParams} {node : NodeState} {ancestry : List CBlockIndex} {pindexLast : CBlockIndex}
lemma nextTarget_exact {bnNew} {nMultiplier nDivisor : Int} (nonneg : 0 ≤ nMultiplier) (short : nMultiplier < 2 ^ 32)
    (product : bnNew.toNat * nMultiplier < 2 ^ 256) (positive : 0 < nDivisor) (fits : nDivisor < 2 ^ 64) (limit) :
    nextTarget bnNew nMultiplier nDivisor limit =
      .ok (getCompact (BitVec.ofNat 256 (min limit.toNat (bnNew.toNat * nMultiplier / nDivisor).toNat))) := by
  obtain ⟨factor, rfl⟩ := eq_ofNat_of_zero_le nonneg
  obtain ⟨divisor, rfl⟩ := eq_ofNat_of_zero_le positive.le
  have word : toUInt32 (factor : Int) = factor := by rw [toUInt32, emod_eq_of_lt nonneg short, toNat_natCast]
  have wide : toUInt64 (divisor : Int) = divisor := by rw [toUInt64, emod_eq_of_lt positive.le fits, toNat_natCast]
  have small : bnNew.toNat * factor < 2 ^ 256 := by exact_mod_cast product
  have quot : ((bnNew.toNat : Int) * factor / divisor).toNat = bnNew.toNat * factor / divisor := by
    rw [← natCast_mul, ← natCast_ediv, toNat_natCast]
  rw [nextTarget_eq _ _ (by omega), word, wide, Nat.mod_eq_of_lt small, quot]

lemma RetargetExact.of_fits (rules : PosV3Rules params) (called : params.networkUpgradeActive (pindexLast.nHeight + 1) .posV3 = true)
    (chain : IsAncestry ancestry pindexLast) (held : HoldsAncestry node ancestry) (admitted : TimesAdmitted params node ancestry)
    (windows : WindowsMeasured params node pindexLast) (short : retargetMultiplier params node pindexLast < 2 ^ 32)
    (product : (setCompact pindexLast.nBits).toNat * retargetMultiplier params node pindexLast < 2 ^ 256) :
    RetargetExact params node pindexLast := by
  have late := rules.late called
  have timeV2 := rules.timeV2
  have bound := (List.getElem?_eq_some_iff.mp chain.last).1
  have ins : pindexLast.nHeight - 1 < ancestry.length := by omega
  have pre : ancestry[pindexLast.nHeight - 1]? = some ancestry[pindexLast.nHeight - 1] := List.getElem?_eq_getElem _
  have parent : node.prev pindexLast = some ancestry[pindexLast.nHeight - 1] := by
    rw [held.prev chain chain.last, if_neg (by omega), pre]
  have last : ancestry[pindexLast.nHeight - 1 + 1]? = some pindexLast := by
    rw [Nat.sub_add_cancel (by omega)]
    exact chain.last
  have later := admitted.later rules chain pre last (by omega)
  obtain ⟨fastest, slowest⟩ : 54000 ≤ adjustedSpacing .. ∧ adjustedSpacing _ node pindexLast ≤ 66000 := by
    rw [adjustedSpacing, rules.spacing]
    have slowest : ((60 : Int) * 1000 * 110).tdiv 100 = 66000 := by decide
    have fastest : ((60 : Int) * 1000 * 90).tdiv 100 = 54000 := by decide
    rw [exactTargetSpacing]
    omega
  have nonneg : 0 ≤ retargetMultiplier params node pindexLast := by
    rw [retargetMultiplier, actualSpacing, parent]
    change 0 ≤ ((pindexLast.nTime : Int) - ancestry[pindexLast.nHeight - 1].nTime) * 1000 + _
    omega
  have bits := windows.bits (by omega) parent
  rw [wrapInt64_of_fits ⟨by omega, by omega⟩, rules.isTimeProtocolV2 (by omega),
    nextTarget_exact nonneg short product (by omega) (by omega)] at bits
  exact ⟨windows, ⟨nonneg, short⟩, product, bits⟩

/-- The stake retarget is exact when its factor fits in 32 bits and its product in 256. -/
theorem retargetExact_iff (rules : PosV3Rules params) (called : params.networkUpgradeActive (pindexLast.nHeight + 1) .posV3 = true)
    (chain : IsAncestry ancestry pindexLast) (held : HoldsAncestry node ancestry) (admitted : TimesAdmitted params node ancestry) :
    (RetargetExact params node pindexLast ↔ WindowsMeasured params node pindexLast ∧
      retargetMultiplier params node pindexLast < 2 ^ 32 ∧
      (setCompact pindexLast.nBits).toNat * retargetMultiplier params node pindexLast < 2 ^ 256) ∧
    (SharesStart params node ancestry pindexLast → WindowsMeasured params node pindexLast) := by
  constructor
  · constructor
    · intro exact
      exact ⟨exact.windows, exact.multiplier.2, exact.product⟩
    · rintro ⟨windows, short, product⟩
      exact RetargetExact.of_fits rules called chain held admitted windows short product
  · intro shares
    exact WindowsMeasured.of_shared rules chain called admitted shares

def timedNode (nBits : Nat) (nTime : Nat → Nat) (top : Nat) : NodeState :=
  { emptyNode with
    mapBlockIndex := treeOf (timedAncestry nBits nTime top)
    chainActive := chainOf (timedIndex nBits nTime) (fun _ => rfl) (top + 1) }

def gapTime (gap top h : Nat) : Nat := 60 * h + if h < top then 0 else gap

variable {nBits top : Nat} {nTime : Nat → Nat}
lemma timedAncestry_index {h} (ins : h < top + 1) : (timedAncestry nBits nTime top)[h]? = some (timedIndex nBits nTime h) := by
  rw [timedAncestry, getElem?_map, getElem?_range ins]
  rfl

lemma timedNode_index {h} (ins : h < top + 1) :
    (timedNode nBits nTime top).chainActive.index h = some (timedIndex nBits nTime h) := by
  have found : (chainOf (timedIndex nBits nTime) (fun _ => rfl) (top + 1)).index h = some (timedIndex nBits nTime h) :=
    chainOf_index ins
  exact found

lemma timedNode_holds (low : top < 2 ^ 64) : HoldsAncestry (timedNode nBits nTime top) (timedAncestry nBits nTime top) where
  indexed := by
    intro pindex mem
    apply lookup_treeOf mem
    obtain ⟨h, ins, rfl⟩ := mem_map.mp mem
    intro other listed same
    obtain ⟨h', ins', rfl⟩ := mem_map.mp listed
    rw [mem_range] at ins ins'
    rw [indexHash_inj low ins ins' same]
  genesis := by rfl

lemma timedNode_shares (params) :
    SharesStart params (timedNode nBits nTime top) (timedAncestry nBits nTime top) (timedIndex nBits nTime top) := by
  intro h low
  have day := params.nBlocksPerDay_pos
  change (h : Int) + params.nBlocksPerDay ≤ top at low
  rw [timedNode_index (by omega), timedAncestry_index (by omega)]

lemma timedNode_prev (low : top + 1 < 2 ^ 64) :
    (timedNode nBits nTime (top + 1)).prev (timedIndex nBits nTime (top + 1)) = some (timedIndex nBits nTime top) := by
  have chain := timedAncestry_isAncestry nBits nTime (top + 1)
  have height : (timedIndex nBits nTime (top + 1)).nHeight = top + 1 := rfl
  rw [(timedNode_holds low).prev chain chain.last, height, if_neg (Nat.succ_ne_zero _), Nat.add_sub_cancel,
    timedAncestry_index (by omega)]

lemma mainWork_rules : PosV3Rules mainWork := ⟨rfl, rfl, rfl, by decide, by decide⟩

variable (nBits gap top : Nat)
def gapNode : NodeState := timedNode nBits (gapTime gap top) top
def gapIndex : CBlockIndex := timedIndex nBits (gapTime gap top) top
def gapAncestry : List CBlockIndex := timedAncestry nBits (gapTime gap top) top

lemma gapAncestry_admitted (node) (slots : 15 ∣ gap) : TimesAdmitted mainWork node (gapAncestry nBits gap top) := by
  intro i parent child first snd timeV2
  obtain ⟨-, rfl⟩ := timedAncestry_get _ _ _ first
  obtain ⟨-, rfl⟩ := timedAncestry_get _ _ _ snd
  have later : gapTime gap top i < gapTime gap top (i + 1) := by grind [gapTime]
  have slot : 15 ∣ gapTime gap top (i + 1) := by grind [gapTime]
  exact exists_checkBlockTime (by decide) timeV2 later (natCast_dvd_natCast.mpr slot)

lemma gapNode_measured {n} (positive : 0 < n) (ins : n ≤ top) (span nK : Int) :
    measured (gapNode nBits gap top) (gapIndex nBits gap top) ⟨n, span, nK⟩ = 60 * n + gap := by
  have height : ((top : Int) - n).toNat = top - n := by omega
  have pre : top - n < top := by omega
  have start : (gapNode nBits gap top).chainActive.index (top - n) = some (timedIndex nBits (gapTime gap top) (top - n)) :=
    timedNode_index (by omega)
  change (if (n : Int) < top + 1 then ((gapNode ..).chainActive.index ((top : Int) - n).toNat).elim 0
    fun start => ((gapTime _ _ _ : Nat) : Int) - start.nTime else _) = _
  rw [if_pos (by omega), height, start]
  change ((gapTime _ _ _ : Nat) : Int) - (gapTime _ _ _ : Nat) = _
  rw [gapTime, gapTime, if_neg (Nat.lt_irrefl _), if_pos pre]
  omega

lemma gapNode_adjustedSpacing (deep : 43200 ≤ top) : adjustedSpacing mainWork (gapNode nBits gap top) (gapIndex nBits gap top) =
    exactTargetSpacing 60 mainWork.windows [60 * 1440 + gap, 60 * 10080 + gap, 60 * 20160 + gap, 60 * 43200 + gap] := by
  have spacings : measuredSpacings mainWork (gapNode nBits gap top) (gapIndex nBits gap top) =
      ([1440, 10080, 20160, 43200].map fun n : Nat => (60 * n + gap : Int)) := by
    have day := gapNode_measured nBits gap top (n := 1440) (by decide) (by omega) 86400 60
    have week := gapNode_measured nBits gap top (n := 10080) (by decide) (by omega) 604800 24
    have biWeek := gapNode_measured nBits gap top (n := 20160) (by decide) (by omega) 1209600 10
    have month := gapNode_measured nBits gap _ (n := 43200) (by decide) deep 2592000 6
    rw [map_cons, map_cons, map_cons, map_cons, ← day, ← week, ← biWeek, ← month, measuredSpacings]
    rfl
  rw [adjustedSpacing, spacings]
  rfl

lemma gapNode_multiplier (low : top + 1 < 2 ^ 64) :
    retargetMultiplier mainWork (gapNode nBits gap (top + 1)) (gapIndex nBits gap (top + 1)) =
      (60 + gap) * 1000 + 59 * adjustedSpacing mainWork (gapNode nBits gap (top + 1)) (gapIndex nBits gap (top + 1)) := by
  have parent : (gapNode nBits gap (top + 1)).prev (gapIndex nBits gap (top + 1)) = some (timedIndex nBits (gapTime gap (top + 1)) top) :=
    timedNode_prev low
  rw [retargetMultiplier, actualSpacing, parent]
  change (((gapTime _ _ _ : Nat) : Int) - (gapTime _ _ _ : Nat)) * 1000 + _ = _
  rw [gapTime, gapTime, if_neg (Nat.lt_irrefl _), if_pos (Nat.lt_succ_self _)]
  omega

lemma gapNode_bits (slots : 15 ∣ gap) (late : 1900000 ≤ top + 1) (low : top + 1 < 2 ^ 64) :
    let nFinalTargetSpacing := exactTargetSpacing 60 mainWork.windows [60 * 1440 + gap, 60 * 10080 + gap, 60 * 20160 + gap,
      60 * 43200 + gap]
    let nMultiplier := (60 + gap) * 1000 + 59 * nFinalTargetSpacing
    getNextWorkRequiredPOSV2 mainWork (gapNode nBits gap (top + 1)) (gapIndex nBits gap (top + 1)) =
      nextTarget (setCompact nBits) (wrapInt64 nMultiplier) (60 * nFinalTargetSpacing) mainWork.posLimitV2 ∧
    exactBits mainWork (gapNode nBits gap (top + 1)) (gapIndex nBits gap (top + 1)) =
      getCompact (BitVec.ofNat 256 (min mainWork.posLimitV2.toNat
        ((setCompact nBits).toNat * nMultiplier / (60 * nFinalTargetSpacing)).toNat)) := by
  have called : mainWork.networkUpgradeActive (top + 1 + 1) .posV3 = true := by
    simp [networkUpgradeActive, mainWork, mainConsensus, mainUpgrades, NO_ACTIVATION_HEIGHT]
    omega
  have timeV2 : mainWork.isTimeProtocolV2 (top + 1 + 1) = true := by
    simp [isTimeProtocolV2, networkUpgradeActive, mainWork, mainConsensus, mainUpgrades, NO_ACTIVATION_HEIGHT]
    omega
  have windows : WindowsMeasured mainWork (gapNode nBits gap (top + 1)) (gapIndex nBits gap (top + 1)) :=
    WindowsMeasured.of_shared mainWork_rules (timedAncestry_isAncestry ..) called (gapAncestry_admitted _ _ _ _ slots)
      (timedNode_shares _)
  have bits := windows.bits (Nat.succ_ne_zero _) (timedNode_prev low)
  have height : (gapIndex nBits gap (top + 1)).nHeight = top + 1 := rfl
  rw [gapNode_multiplier _ _ _ low, gapNode_adjustedSpacing _ _ _ (by omega), height, timeV2] at bits
  constructor
  · exact bits
  · rw [exactBits, gapNode_multiplier _ _ _ low, gapNode_adjustedSpacing _ _ _ (by omega)]
    rfl

theorem retargetExact_on_minutes : RetargetExact mainWork (gapNode 0x1c00ffff 0 1900000) (gapIndex 0x1c00ffff 0 1900000) := by
  have chain : IsAncestry (gapAncestry 0x1c00ffff 0 1900000) (gapIndex 0x1c00ffff 0 1900000) := timedAncestry_isAncestry ..
  have held : HoldsAncestry (gapNode 0x1c00ffff 0 1900000) (gapAncestry 0x1c00ffff 0 1900000) := timedNode_holds (by decide)
  have exact := retargetExact_iff mainWork_rules (by decide) chain held (gapAncestry_admitted _ _ _ _ (by decide))
  have factor : retargetMultiplier mainWork (gapNode 0x1c00ffff 0 1900000) (gapIndex 0x1c00ffff 0 1900000) = 3600000 := by
    rw [gapNode_multiplier _ _ 1899999 (by decide), gapNode_adjustedSpacing _ _ _ (by decide)]
    decide
  exact exact.1.mpr ⟨exact.2 (timedNode_shares mainWork), by rw [factor]; decide, by rw [factor]; decide⟩

/-- At the lowest difficulty the product wraps; after two months the factor is cut. -/
theorem mainNet_retarget_inexact : TimesAdmitted mainWork (gapNode 0x1e0fffff 0 1900000) (gapAncestry 0x1e0fffff 0 1900000) ∧
      0 < setCompact 0x1e0fffff ∧ setCompact 0x1e0fffff ≤ mainWork.posLimitV2 ∧
      getNextWorkRequiredPOSV2 mainWork (gapNode 0x1e0fffff 0 1900000) (gapIndex 0x1e0fffff 0 1900000) = .ok 0x1e0204db ∧
      exactBits mainWork (gapNode 0x1e0fffff 0 1900000) (gapIndex 0x1e0fffff 0 1900000) = 0x1e0fffff ∧
      TimesAdmitted mainWork (gapNode 0x1c00ffff 5000040 1900000) (gapAncestry 0x1c00ffff 5000040 1900000) ∧
      0 < setCompact 0x1c00ffff ∧ setCompact 0x1c00ffff ≤ mainWork.posLimitV2 ∧
      getNextWorkRequiredPOSV2 mainWork (gapNode 0x1c00ffff 5000040 1900000) (gapIndex 0x1c00ffff 5000040 1900000) = .ok 0x1d00da9d ∧
      exactBits mainWork (gapNode 0x1c00ffff 5000040 1900000) (gapIndex 0x1c00ffff 5000040 1900000) = 0x1d060833 := by
  obtain ⟨easy, easyExact⟩ := gapNode_bits 0x1e0fffff 0 1899999 (by decide) (by decide) (by decide)
  obtain ⟨late, lateExact⟩ := gapNode_bits 0x1c00ffff 5000040 1899999 (by decide) (by decide) (by decide)
  have easyWords : nextTarget (setCompact 0x1e0fffff) 3600000 3600000 mainWork.posLimitV2 = .ok 0x1e0204db := by
    rw [nextTarget_eq _ _ (by decide)]
    decide
  have lateWords : nextTarget (setCompact 0x1c00ffff) 5003286000 3240000 mainWork.posLimitV2 = .ok 0x1d00da9d := by
    rw [nextTarget_eq _ _ (by decide)]
    decide
  exact ⟨gapAncestry_admitted _ _ _ _ (by decide), by decide, by decide, easy.trans easyWords, easyExact.trans (by decide),
    gapAncestry_admitted _ _ _ _ (by decide), by decide, by decide, late.trans lateWords, lateExact.trans (by decide)⟩

end Peony
