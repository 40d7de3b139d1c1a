import Peony.Rewards.ChainLimit
import Peony.Rewards.EpochSafety

namespace Peony
open Int64Arith Consensus CRewards Except
variable {host : Host} {params : Params} {inputs : EpochInputs} {pindex : CBlockIndex} {nSubsidy : Int}
def dampedReward (host : Host) (params : Params) (inputs : EpochInputs) (pindex : CBlockIndex) (nSubsidy : Int) : Int :=
  let delta := nDelta host params inputs pindex nSubsidy
  nSubsidy - (delta * nWeightRatio delta nSubsidy).tdiv 100

lemma nDelta_small (host : Host) (inputs pindex) (nSubsidy)
    (interval : 10 ≤ params.nRewardAdjustmentInterval) :
    |nDelta host params inputs pindex nSubsidy| * 10 ≤ 2 ^ 63 := by
  have gap := wrapInt64_fits (wrapInt64 (nSubsidy * params.nRewardAdjustmentInterval) -
    epochTarget host params inputs pindex)
  rw [nDelta_eq]
  generalize wrapInt64 _ = total at gap ⊢
  have quot := abs_tdiv_mul_le total params.nRewardAdjustmentInterval
  have scaled : |total.tdiv params.nRewardAdjustmentInterval| * 10 ≤
      |total.tdiv params.nRewardAdjustmentInterval| * |(params.nRewardAdjustmentInterval : Int)| := by
    rw [Nat.abs_cast]
    exact mul_le_mul_of_nonneg_left (by omega) (abs_nonneg _)
  have range : |total| ≤ 2 ^ 63 := by
    rw [abs_le]
    exact ⟨gap.1, gap.2.le⟩
  omega

lemma adjustSubsidy_eq (interval : 10 ≤ params.nRewardAdjustmentInterval) (minted : nSubsidy ≠ 0)
    (money : |nSubsidy| < 2 ^ 62) : adjustSubsidy host params inputs pindex nSubsidy =
      .ok ((dampedReward host params inputs pindex nSubsidy).tdiv COIN * COIN) := by
  have small := nDelta_small host inputs pindex nSubsidy interval
  have weight := nWeightRatio_range (nDelta host params inputs pindex nSubsidy) nSubsidy
  have nz := bne_iff_ne.mpr minted
  have subsidy := abs_lt.mp money
  have unfolded : adjustSubsidy host params inputs pindex nSubsidy = (do
    require (nSubsidy != 0) (.fault "(nDelta * 100) / nSubsidy")
    return (wrapInt64 (nSubsidy - (wrapInt64 (nDelta host params inputs pindex nSubsidy *
      nWeightRatio (nDelta host params inputs pindex nSubsidy) nSubsidy)).tdiv 100)).tdiv COIN * COIN) := rfl
  rw [unfolded, dampedReward, nz]
  generalize nWeightRatio _ _ = weight' at weight ⊢
  generalize nDelta .. = delta at small ⊢
  have product : |delta * weight'| ≤ |delta| * 10 := by
    rw [abs_mul, abs_of_pos (by omega : 0 < weight')]
    exact mul_le_mul_of_nonneg_left weight.2 (abs_nonneg _)
  have quot := abs_tdiv_mul_le (delta * weight') 100
  rw [abs_of_pos (by decide : (0 : Int) < 100)] at quot
  have damped := abs_le.mp (le_refl |(delta * weight').tdiv 100|)
  have productFits : FitsInt64 (delta * weight') := fits_of_abs (by omega)
  have rest : FitsInt64 (nSubsidy - (delta * weight').tdiv 100) := ⟨by omega, by omega⟩
  rw [wrapInt64_of_fits productFits, wrapInt64_of_fits rest]
  rfl

lemma truncated_pos_iff (amt : Int) : 0 < amt.tdiv COIN * COIN ↔ COIN ≤ amt := by
  have coin : COIN = 100000000 := rfl
  rcases le_or_gt 0 amt with nonneg | negative
  · grind
  · have opposite : 0 ≤ (-amt).tdiv COIN := Int.tdiv_nonneg (by omega) (by decide)
    rw [Int.neg_tdiv] at opposite
    rw [coin] at opposite ⊢
    omega

lemma truncated_range {amt} (nonneg : 0 ≤ amt) :
    amt.tdiv COIN * COIN ≤ amt ∧ amt < amt.tdiv COIN * COIN + COIN := by
  have coin : COIN = 100000000 := rfl
  rw [Int.tdiv_eq_ediv_of_nonneg nonneg, coin]
  omega

variable {host : Host} {params : Params} {hook : CRewards.Hook} {pindex : CBlockIndex} {nSubsidy : Int}
  {state ready next : CRewards}

def CRewards.Recorded (state : CRewards) (nHeight : Nat) (amount : Int) : Prop :=
  state.mDynamicRewards.lookup nHeight = some amount ∨ state.rewards.lookup nHeight = some amount

lemma CRewards.init_recorded {nHeight : Nat} {amt} {node : NodeState} {sqlite}
    (below : node.chainActive.height < nHeight) (inits : state.init host params node sqlite = .ok (ready, true))
    (found : ready.mDynamicRewards.lookup nHeight = some amt) : state.Recorded nHeight amt := by
  rcases init_spec inits with ⟨-, ⟨-, same⟩ | ⟨-, full⟩⟩
  · rw [(same _).1] at found
    exact .inl found
  · rcases full.entries _ with ⟨kept, -⟩ | ⟨-, mem, -⟩
    · rw [kept, lookup_load] at found
      rcases Option.or_eq_some_iff.mp found with stored | ⟨-, mapped⟩
      · exact .inr stored
      · exact .inl mapped
    · obtain ⟨-, above, run⟩ := mem_gapEpochs.mp mem
      omega

lemma getBlockValue_after_epoch {mDynamicRewards nHeight} (interval : 10 ≤ params.nRewardAdjustmentInterval)
    (active : params.networkUpgradeActive nHeight .dynamicRewards = true)
    (epoch : params.isDynamicRewardsEpochHeight nHeight = true) :
    getBlockValue params mDynamicRewards (nHeight + 1) =
      capped (getBlockSubsidy (nHeight + 1)) (mDynamicRewards.lookup nHeight) := by
  have dvd := Params.isEpochHeight_iff.mp epoch
  have other : params.isDynamicRewardsEpochHeight (nHeight + 1) = false := by
    rw [Bool.eq_false_iff, ne_eq, Params.isEpochHeight_iff]
    intro next
    have one := (Nat.dvd_add_right dvd).mp next
    rw [Nat.dvd_one] at one
    omega
  have own : params.getDynamicRewardsEpochHeight (nHeight + 1) = nHeight := by
    obtain ⟨k, rfl⟩ := dvd
    rw [Consensus.Params.getDynamicRewardsEpochHeight, Consensus.Params.getDynamicRewardsEpoch,
      Nat.mul_add_div params.interval_pos, Nat.div_eq_of_lt (by omega), add_zero, Nat.mul_comm]
  rw [getBlockValue_eq_rewardLimit, rewardLimit_of_other (active_mono active (Nat.le_succ _)) other, own]

/-- The damped reward in whole coins, and the recorded one when no coin is left of it. -/
lemma CRewards.connectBlock_epoch (interval : 10 ≤ params.nRewardAdjustmentInterval)
    (below : hook.node.chainActive.height < pindex.nHeight)
    (active : params.networkUpgradeActive pindex.nHeight .dynamicRewards = true)
    (epoch : params.isDynamicRewardsEpochHeight pindex.nHeight = true) (minted : nSubsidy ≠ 0)
    (money : |nSubsidy| < 2 ^ 62)
    (conn : state.connectBlock host params hook pindex nSubsidy = .ok (next, true)) :
    if COIN ≤ dampedReward host params hook.inputs pindex nSubsidy then
      next.mDynamicRewards.lookup pindex.nHeight =
        some ((dampedReward host params hook.inputs pindex nSubsidy).tdiv COIN * COIN)
    else ∀ amt, next.mDynamicRewards.lookup pindex.nHeight = some amt → state.Recorded pindex.nHeight amt := by
  obtain ⟨ready, inits, connected⟩ := connectBlock_ready conn
  have own := beq_iff_eq.mp epoch
  have comp : ready.newSubsidy host params hook.inputs pindex nSubsidy =
      .ok ((dampedReward host params hook.inputs pindex nSubsidy).tdiv COIN * COIN) := by
    rw [newSubsidy, if_pos epoch, adjustSubsidy_eq interval minted money]
  simp only [← truncated_pos_iff]
  rcases connectReady_spec connected with ⟨amt, -, same, stored, done, rfl⟩ | ⟨rfl, unstored⟩
  · cases comp.symm.trans same
    rw [if_pos stored, own]
    exact AList.lookup_insert _
  · obtain ⟨amt, same, small⟩ := unstored active
    cases comp.symm.trans same
    rw [if_neg (by omega)]
    intro amt found
    exact init_recorded below inits found

lemma CRewards.connectReady_lookup (conn : ready.connectReady host params hook pindex nSubsidy = .ok (next, true))
    (active : params.networkUpgradeActive pindex.nHeight .dynamicRewards = true) : ∃ amt,
    ready.newSubsidy host params hook.inputs pindex nSubsidy = .ok amt ∧ ∀ k, next.mDynamicRewards.lookup k =
      if k = params.getDynamicRewardsEpochHeight pindex.nHeight ∧ 0 < amt then some amt
      else ready.mDynamicRewards.lookup k := by
  rcases connectReady_spec conn with ⟨amt, -, comp, pos, -, rfl⟩ | ⟨rfl, unstored⟩
  · refine ⟨_, comp, fun k => ?_⟩
    simp only [pos, and_true]
    exact AssocMap.lookup_insert_ite ..
  · obtain ⟨amt, comp, small⟩ := unstored active
    refine ⟨_, comp, fun k => ?_⟩
    rw [if_neg fun stored => absurd stored.2 (by omega)]

def DampedTo (static value nSubsidy delta weight : Int) : Prop :=
  1 ≤ weight ∧ weight ≤ 10 ∧ ∃ r, value = min static r ∧ r ≤ nSubsidy - (delta * weight).tdiv 100 ∧
    nSubsidy - (delta * weight).tdiv 100 < r + COIN

lemma getBlockSubsidy_ge {nHeight} (late : 0 < nHeight) : COIN ≤ getBlockSubsidy nHeight := by
  have range : COIN ≤ getBlockSubsidy nHeight ∧ getBlockSubsidy nHeight ≤ 7750000 * COIN := by
    simp only [getBlockSubsidy, late, if_true]
    repeat' apply ite_range
    all_goals decide
  exact range.1

/-- The next reward is the damped one exactly when at least one whole coin is left of it. -/
theorem nextReward_damped_iff {host : Host} {params : Params} {hook : CRewards.Hook} {pindex : CBlockIndex}
    {nSubsidy : Int} {state next : CRewards} (interval : 10 ≤ params.nRewardAdjustmentInterval)
    (below : hook.node.chainActive.height < pindex.nHeight)
    (whole : ∀ amount, state.Recorded pindex.nHeight amount → COIN ≤ amount)
    (active : params.networkUpgradeActive pindex.nHeight .dynamicRewards = true)
    (epoch : params.isDynamicRewardsEpochHeight pindex.nHeight = true) (positive : 0 < nSubsidy)
    (money : params.moneyRange nSubsidy = true)
    (connects : state.connectBlock host params hook pindex nSubsidy = .ok (next, true)) :
    DampedTo (getBlockSubsidy (pindex.nHeight + 1)) (getBlockValue params next.mDynamicRewards (pindex.nHeight + 1)) nSubsidy
        (nDelta host params hook.inputs pindex nSubsidy)
        (nWeightRatio (nDelta host params hook.inputs pindex nSubsidy) nSubsidy) ↔
      COIN ≤ nSubsidy - (nDelta host params hook.inputs pindex nSubsidy *
        nWeightRatio (nDelta host params hook.inputs pindex nSubsidy) nSubsidy).tdiv 100 := by
  have small : |nSubsidy| < 2 ^ 62 := by
    rw [abs_of_pos positive]
    exact lt_of_le_of_lt (Params.moneyRange_iff.mp money).2 params.maxMoney_lt
  have entry := connectBlock_epoch interval below active epoch positive.ne' small connects
  have weight := nWeightRatio_range (nDelta host params hook.inputs pindex nSubsidy) nSubsidy
  rw [getBlockValue_after_epoch interval active epoch]
  change _ ↔ COIN ≤ dampedReward ..
  constructor
  · rintro ⟨-, -, r, value, le, -⟩
    by_contra lost
    -- nothing is stored, and a whole coin or more is paid where less than one is left
    rw [if_neg lost] at entry
    have paid : COIN ≤ capped (getBlockSubsidy (pindex.nHeight + 1)) (next.mDynamicRewards.lookup pindex.nHeight) := by
      have static : COIN ≤ getBlockSubsidy (pindex.nHeight + 1) := getBlockSubsidy_ge (Nat.succ_pos _)
      cases found : next.mDynamicRewards.lookup _ with
      | none => exact static
      | some amount => exact le_min static (whole _ (entry _ found))
    have left : r ≤ dampedReward host params hook.inputs pindex nSubsidy := le
    omega
  · intro left
    have nonneg : 0 ≤ dampedReward host params hook.inputs pindex nSubsidy := le_trans (by decide) left
    rw [if_pos left] at entry
    rw [entry]
    exact ⟨weight.1, weight.2, _, rfl, truncated_range nonneg⟩

theorem nextReward_damped_full_mint : ∃ next,
    emptyRewards.connectBlock labelHost mainConsensus stakedHook (newIndex 1905120) (380 * COIN) = .ok (next, true) ∧
    DampedTo (getBlockSubsidy 1905121) (getBlockValue mainConsensus next.mDynamicRewards 1905121) (380 * COIN)
      (nDelta labelHost mainConsensus stakedHook.inputs (newIndex 1905120) (380 * COIN))
      (nWeightRatio (nDelta labelHost mainConsensus stakedHook.inputs (newIndex 1905120) (380 * COIN)) (380 * COIN)) := by
  have runs : (emptyRewards.connectBlock labelHost mainConsensus stakedHook (newIndex 1905120)
      (380 * COIN)).toOption.any Prod.snd = true := by decide +kernel
  obtain ⟨⟨next, ok⟩, connects, rfl⟩ := exists_ok_of_any runs
  refine ⟨next, connects, ?_⟩
  apply (nextReward_damped_iff (by decide) (by decide) _ (by decide) (by decide) (by decide) (by decide) connects).mpr
  · decide +kernel
  · rintro amount (found | found) <;> cases found

lemma epochBlock_connects (amt : Int) (tried : amt ∈ [380 * COIN, 10 * COIN, COIN / 2]) : ∃ res,
    connectBlock labelHost mainParams ∅ (epochBlock amt) (newIndex 1905120) (indexAt 1905119) stakedView = .ok res ∧
      res.nMint = amt ∧ res.nMoneySupply = amt := by
  have runs : ∀ amt ∈ [380 * COIN, 10 * COIN, COIN / 2], (connectBlock labelHost mainParams ∅ (epochBlock amt) (newIndex 1905120)
      (indexAt 1905119) stakedView).toOption.any (fun res => decide (res.nMint = amt ∧ res.nMoneySupply = amt)) = true := by
    decide +kernel
  exact exists_ok_of_decide (runs _ tried)

/-- Half a coin leaves less than one after the adjustment: nothing is stored. -/
theorem halfCoin_adjustment_lost : ∃ result next,
    connectBlock labelHost mainParams ∅ (epochBlock (COIN / 2)) (newIndex 1905120) (indexAt 1905119) stakedView = .ok result ∧
    0 < result.nMint ∧ result.nMint ≤ getBlockValue mainConsensus ∅ 1905120 ∧
    emptyRewards.connectBlock labelHost mainConsensus stakedHook
      { newIndex 1905120 with nMoneySupply := result.nMoneySupply } result.nMint = .ok (next, true) ∧
    getBlockValue mainConsensus next.mDynamicRewards 1905121 = getBlockSubsidy 1905121 ∧
    ¬ DampedTo (getBlockSubsidy 1905121) (getBlockValue mainConsensus next.mDynamicRewards 1905121) result.nMint
      (nDelta labelHost mainConsensus stakedHook.inputs { newIndex 1905120 with nMoneySupply := result.nMoneySupply }
        result.nMint)
      (nWeightRatio (nDelta labelHost mainConsensus stakedHook.inputs
        { newIndex 1905120 with nMoneySupply := result.nMoneySupply } result.nMint) result.nMint) := by
  obtain ⟨result, connected, minted, supply⟩ := epochBlock_connects (COIN / 2) (by simp)
  have runs : (emptyRewards.connectBlock labelHost mainConsensus stakedHook
      { newIndex 1905120 with nMoneySupply := COIN / 2 } (COIN / 2)).toOption.any
      (fun run => run.2 && decide (getBlockValue mainConsensus run.1.mDynamicRewards 1905121 = getBlockSubsidy 1905121)) =
      true := by decide +kernel
  obtain ⟨⟨next, ok⟩, adjusted, outcome⟩ := exists_ok_of_any runs
  rw [Bool.and_eq_true, decide_eq_true_eq] at outcome
  obtain ⟨rfl, value⟩ := outcome
  refine ⟨result, next, ?_⟩
  rw [minted, supply, value]
  apply And.intro connected
  apply And.intro (by decide)
  apply And.intro (by decide +kernel)
  apply And.intro adjusted
  apply And.intro rfl
  rintro ⟨-, -, r, same, le, -⟩
  have small : COIN / 2 - (nDelta labelHost mainConsensus stakedHook.inputs
      { newIndex 1905120 with nMoneySupply := COIN / 2 } (COIN / 2) * nWeightRatio (nDelta labelHost mainConsensus
      stakedHook.inputs { newIndex 1905120 with nMoneySupply := COIN / 2 } (COIN / 2)) (COIN / 2)).tdiv 100 <
      getBlockSubsidy 1905121 := by decide +kernel
  have least := min_le_right (getBlockSubsidy 1905121) r
  omega

variable {host : Host} {params : Params} {hook : CRewards.Hook} {pindex pindex' : CBlockIndex} {nSubsidy nSubsidy' : Int}
  {state ready next next' : CRewards}

/-- At an epoch height the same whole coins are left; inside an epoch its reward is there, or the mints are one. -/
def SameReward (host : Host) (params : Params) (inputs : EpochInputs) (ready : CRewards) (pindex pindex' : CBlockIndex)
    (nSubsidy nSubsidy' : Int) : Prop :=
  if params.isDynamicRewardsEpochHeight pindex.nHeight then
    max 0 ((dampedReward host params inputs pindex nSubsidy).tdiv COIN) =
      max 0 ((dampedReward host params inputs pindex' nSubsidy').tdiv COIN)
  else
    (ready.mDynamicRewards.lookup (params.getDynamicRewardsEpochHeight pindex.nHeight)).isSome ∨
      max 0 nSubsidy = max 0 nSubsidy'

lemma written_eq_iff (amt amt' : Int) : (if 0 < amt then some amt else none) = (if 0 < amt' then some amt' else none) ↔
      max 0 amt = max 0 amt' := by grind

lemma max_whole_coins (amt amt' : Int) : max 0 (amt * COIN) = max 0 (amt' * COIN) ↔ max 0 amt = max 0 amt' := by
  rw [show COIN = 100000000 from rfl]
  omega

lemma CRewards.maps_agree_iff {epochHeight amt amt'} (absent : ready.mDynamicRewards.lookup epochHeight = none)
    (entries : ∀ k, next.mDynamicRewards.lookup k = if k = epochHeight ∧ 0 < amt then some amt
      else ready.mDynamicRewards.lookup k)
    (entries' : ∀ k, next'.mDynamicRewards.lookup k = if k = epochHeight ∧ 0 < amt' then some amt'
      else ready.mDynamicRewards.lookup k) :
    (∀ k, next.mDynamicRewards.lookup k = next'.mDynamicRewards.lookup k) ↔ max 0 amt = max 0 amt' := by
  rw [← written_eq_iff]
  constructor
  · intro same
    have own := same epochHeight
    rw [entries, entries', absent] at own
    simpa only [true_and] using own
  · grind

lemma adjustSubsidy_ok {inputs amt} (interval : 10 ≤ params.nRewardAdjustmentInterval)
    (money : |nSubsidy| < 2 ^ 62) (adjusts : adjustSubsidy host params inputs pindex nSubsidy = .ok amt) :
    amt = (dampedReward host params inputs pindex nSubsidy).tdiv COIN * COIN := by
  by_cases minted : nSubsidy = 0
  · cases minted
    cases adjusts
  · rw [adjustSubsidy_eq interval minted money] at adjusts
    exact (Except.ok.inj adjusts).symm

/-- The mint does not show exactly when both mints write the same reward. -/
theorem rewards_independent_of_mint_iff (interval : 10 ≤ params.nRewardAdjustmentInterval)
    (below : hook.node.chainActive.height < pindex.nHeight) (height : pindex'.nHeight = pindex.nHeight)
    (fresh : params.isDynamicRewardsEpochHeight pindex.nHeight = true → ∀ amount, ¬ state.Recorded pindex.nHeight amount)
    (money : |nSubsidy| < 2 ^ 62) (money' : |nSubsidy'| < 2 ^ 62)
    (inits : state.init host params hook.node hook.sqlite = .ok (ready, true))
    (connects : state.connectBlock host params hook pindex nSubsidy = .ok (next, true))
    (connects' : state.connectBlock host params hook pindex' nSubsidy' = .ok (next', true)) :
    (∀ k, next.mDynamicRewards.lookup k = next'.mDynamicRewards.lookup k) ↔
      (params.networkUpgradeActive pindex.nHeight .dynamicRewards = true →
        SameReward host params hook.inputs ready pindex pindex' nSubsidy nSubsidy') := by
  obtain ⟨_, inits₁, connected⟩ := connectBlock_ready connects
  cases inits.symm.trans inits₁
  obtain ⟨_, inits₂, connected'⟩ := connectBlock_ready connects'
  cases inits.symm.trans inits₂
  by_cases active : params.networkUpgradeActive pindex.nHeight .dynamicRewards = true
  · rw [imp_iff_right active]
    obtain ⟨amount, computed, entries⟩ := connectReady_lookup connected active
    obtain ⟨amount', computed', entries'⟩ := connectReady_lookup connected' (by rw [height, active])
    rw [height] at entries'
    rw [newSubsidy] at computed computed'
    rw [height] at computed'
    rw [SameReward]
    by_cases epoch : params.isDynamicRewardsEpochHeight pindex.nHeight = true
    · rw [if_pos epoch] at computed computed'
      have own := beq_iff_eq.mp epoch
      have absent :=
        Option.eq_none_iff_forall_ne_some.mpr fun amount found =>
          fresh epoch _ (init_recorded below inits found)
      rw [own] at entries entries'
      rw [if_pos epoch, maps_agree_iff absent entries entries', adjustSubsidy_ok interval money computed,
        adjustSubsidy_ok interval money' computed', max_whole_coins]
    · rw [if_neg epoch] at computed computed' ⊢
      cases held : ready.mDynamicRewards.lookup _ with
      | none =>
        rw [held] at computed computed'
        cases computed
        cases computed'
        rw [maps_agree_iff held entries entries']
        simp
      | some reward =>
        -- the epoch has its reward, and nothing is written
        grind
  · have unchanged : next = ready := by
      rw [connectReady, if_neg active] at connected
      exact (Prod.mk.inj (Except.ok.inj connected)).1.symm
    have unchanged' : next' = ready := by
      rw [connectReady, height, if_neg active] at connected'
      exact (Prod.mk.inj (Except.ok.inj connected')).1.symm
    rw [unchanged, unchanged']
    exact ⟨fun _ on => absurd on active, fun _ _ => rfl⟩

theorem rewards_independent_of_tenth_coin : ∃ next next',
    emptyRewards.connectBlock labelHost mainConsensus stakedHook (newIndex 1905120) (379 * COIN + 9 * (COIN / 10)) =
      .ok (next, true) ∧
    emptyRewards.connectBlock labelHost mainConsensus stakedHook (newIndex 1905120) (379 * COIN + 8 * (COIN / 10)) =
      .ok (next', true) ∧
    ∀ k, next.mDynamicRewards.lookup k = next'.mDynamicRewards.lookup k := by
  have runs : (emptyRewards.connectBlock labelHost mainConsensus stakedHook (newIndex 1905120)
      (379 * COIN + 9 * (COIN / 10))).toOption.any Prod.snd = true := by decide +kernel
  have runs' : (emptyRewards.connectBlock labelHost mainConsensus stakedHook (newIndex 1905120)
      (379 * COIN + 8 * (COIN / 10))).toOption.any Prod.snd = true := by decide +kernel
  obtain ⟨⟨next, ok⟩, connects, rfl⟩ := exists_ok_of_any runs
  obtain ⟨⟨next', ok⟩, connects', rfl⟩ := exists_ok_of_any runs'
  refine ⟨next, next', connects, connects', ?_⟩
  apply (rewards_independent_of_mint_iff (by decide) (by decide) rfl _ (by decide) (by decide) rfl connects connects').mpr
  · intro _
    rw [SameReward, if_pos (by decide)]
    decide +kernel
  · rintro - amount (found | found) <;> cases found

/-- The block that mints ten coins of 380 sets the next limit to nine coins instead of 342. -/
theorem lowMint_lowers_next_limit : ∃ full low next next',
    connectBlock labelHost mainParams ∅ (epochBlock (380 * COIN)) (newIndex 1905120) (indexAt 1905119) stakedView = .ok full ∧
    connectBlock labelHost mainParams ∅ (epochBlock (10 * COIN)) (newIndex 1905120) (indexAt 1905119) stakedView = .ok low ∧
    full.nMint ≤ getBlockValue mainConsensus ∅ 1905120 ∧ low.nMint ≤ getBlockValue mainConsensus ∅ 1905120 ∧
    emptyRewards.connectBlock labelHost mainConsensus stakedHook
      { newIndex 1905120 with nMoneySupply := full.nMoneySupply } full.nMint = .ok (next, true) ∧
    emptyRewards.connectBlock labelHost mainConsensus stakedHook
      { newIndex 1905120 with nMoneySupply := low.nMoneySupply } low.nMint = .ok (next', true) ∧
    getBlockValue mainConsensus next.mDynamicRewards 1905121 = 342 * COIN ∧
    getBlockValue mainConsensus next'.mDynamicRewards 1905121 = 9 * COIN ∧
    ¬ ∀ k, next.mDynamicRewards.lookup k = next'.mDynamicRewards.lookup k := by
  have rewards : ∀ amount ∈ [380, 10], (emptyRewards.connectBlock labelHost mainConsensus stakedHook
      { newIndex 1905120 with nMoneySupply := amount * COIN } (amount * COIN)).toOption.any (fun run => run.2 && decide
      (getBlockValue mainConsensus run.1.mDynamicRewards 1905121 = amount * 9 / 10 * COIN ∧
        run.1.mDynamicRewards.lookup 1905120 = some (amount * 9 / 10 * COIN))) = true := by decide +kernel
  obtain ⟨full, fullConnected, fullMint, fullSupply⟩ := epochBlock_connects (380 * COIN) (by simp)
  obtain ⟨low, lowConnected, lowMint, lowSupply⟩ := epochBlock_connects (10 * COIN) (by simp)
  obtain ⟨⟨next, ok⟩, stored, outcome⟩ := exists_ok_of_any (rewards 380 (by simp))
  rw [Bool.and_eq_true, decide_eq_true_eq] at outcome
  obtain ⟨rfl, value, entry⟩ := outcome
  obtain ⟨⟨next', ok⟩, stored', outcome⟩ := exists_ok_of_any (rewards 10 (by simp))
  rw [Bool.and_eq_true, decide_eq_true_eq] at outcome
  obtain ⟨rfl, value', entry'⟩ := outcome
  refine ⟨full, low, next, next', fullConnected, lowConnected, ?_⟩
  rw [fullMint, fullSupply, lowMint, lowSupply]
  refine ⟨by decide +kernel, by decide +kernel, stored, stored', value, value', ?_⟩
  intro same
  have both := same 1905120
  rw [entry, entry'] at both
  exact absurd both (by decide)

end Peony
