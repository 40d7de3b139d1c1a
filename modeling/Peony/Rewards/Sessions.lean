import Peony.Rewards.ChainLimit

namespace Peony
open Int64Arith Consensus List Nat CRewards Option

/-- A block as the reward hooks see it, with the values its coinstake spends. -/
structure RewardBlock where
  pindex : CBlockIndex
  block : CBlock
  nMint : Int
  spent : COutPoint → Int

/-- What a node reads for an adjustment beside the blocks. Its money supply depends on when it flushed its coins. -/
structure EpochReading where
  nMoneySupply : Int
  inputs : EpochInputs

/-- The adjustments of a node are computed from these readings. -/
def ReadsAs (params : Params) (readings : Nat → EpochReading) (h : Nat) (reading : EpochReading) : Prop :=
  params.networkUpgradeActive h .dynamicRewards = true → params.isDynamicRewardsEpochHeight h = true → reading = readings h

/-- Where dynamic rewards are active the blocks are staked with mint `nMint`. -/
structure RewardChain (params : Params) where
  get : Nat → RewardBlock
  heights : ∀ h, (get h).pindex.nHeight = h
  minted : ∀ h, params.networkUpgradeActive h .dynamicRewards = true → StakeMint (get h).block (get h).spent (get h).nMint

namespace RewardChain
variable {params : Params} (host : Host) (chain : RewardChain params)
/-- The index entry of a node that has this money supply. -/
def indexWith (h : Nat) (nMoneySupply : Int) : CBlockIndex := { (chain.get h).pindex with nMoneySupply := nMoneySupply }

lemma indexWith_height (h nMoneySupply) : (chain.indexWith h nMoneySupply).nHeight = h := chain.heights h

section
variable (readings : Nat → EpochReading)
def epochReward (h : Nat) : Except Failure Int :=
  adjustSubsidy host params (readings h).inputs (chain.indexWith h (readings h).nMoneySupply) (chain.get h).nMint

def limit : Nat → Int :=
  rewardLimit params fun h =>
    if params.networkUpgradeActive h .dynamicRewards then (chain.epochReward host readings h).toOption else none
end

/-- The active chain has these blocks, with the money supplies of the node. -/
structure Active (tip : Nat) (active : CChain) : Prop where
  height : active.height = tip
  index : ∀ h ≤ tip, ∃ pindex, active.index h = some pindex ∧ pindex.hash = (chain.get h).pindex.hash

section
variable (chain : RewardChain params)
def active (tip : Nat) : CChain where
  vChain := (List.range (tip + 1)).map fun h => (chain.get h).pindex
  heights := by
    intro i pindex found
    rw [List.getElem?_map, map_eq_some_iff] at found
    obtain ⟨h, inside, rfl⟩ := found
    obtain ⟨_, rfl⟩ := List.getElem?_eq_some_iff.mp inside
    rw [List.getElem_range]
    exact chain.heights i

lemma active_height (tip) : (chain.active tip).height = tip := by simp [active, CChain.height]
lemma active_index {tip h} (le : h ≤ tip) : (chain.active tip).index h = some (chain.get h).pindex := by
  rw [CChain.index, active, getElem?_map, getElem?_range (by omega)]
  rfl

lemma active_active (tip) : chain.Active tip (chain.active tip) :=
  ⟨chain.active_height tip, fun _ le => ⟨_, chain.active_index le, rfl⟩⟩
end

/-- The block after the epoch height and its coinstake's coins are found. -/
def ReadsBack (node : NodeState) (nEpochHeight : Nat) : Prop :=
  node.readBlockFromDisk host (chain.get (nEpochHeight + 1)).pindex = some (chain.get (nEpochHeight + 1)).block ∧
    ∀ coinstake, (chain.get (nEpochHeight + 1)).block.vtx[1]? = some coinstake → ∀ txin ∈ coinstake.vin,
      ∃ tx hash out, node.getTransaction host txin.prevout.hash = some (tx, hash) ∧
        tx.vout[txin.prevout.n]? = some out ∧ out.nValue = (chain.get (nEpochHeight + 1)).spent txin.prevout

end RewardChain

lemma subtractInputs_found {host node} {spent : COutPoint → Int} {vin} (nSubsidy)
    (found : ∀ txin ∈ vin, ∃ tx hash out, node.getTransaction host txin.prevout.hash = some (tx, hash) ∧
      tx.vout[txin.prevout.n]? = some out ∧ out.nValue = spent txin.prevout) :
    ∃ rest, subtractInputs host node nSubsidy vin = .ok rest ∧
      wrapInt64 rest = wrapInt64 (nSubsidy - (vin.map fun txin => spent txin.prevout).sum) := by
  induction vin generalizing nSubsidy with
  | nil => exact ⟨_, rfl, by simp⟩
  | cons txin vin ih =>
    obtain ⟨tx, hash, out, holds, output, value⟩ := found txin (by simp)
    obtain ⟨rest, runs, same⟩ := ih (wrapInt64 (nSubsidy - out.nValue)) (forall_mem_cons.mp found).2
    refine ⟨rest, ?_, ?_⟩
    · simp [subtractInputs, holds, output, runs]
    · rw [same, wrapInt64_sub_left, map_cons, sum_cons, value, sub_sub]

variable {host : Host} {params : Params} {chain : RewardChain params} {node : NodeState}
lemma RewardChain.ReadsBack.gapValue {tip nEpochHeight} (reads : chain.ReadsBack host node nEpochHeight)
    (follows : chain.Active tip node.chainActive) (below : nEpochHeight < tip)
    (active : params.networkUpgradeActive (nEpochHeight + 1) .dynamicRewards = true) :
    GapValue host node nEpochHeight (chain.get (nEpochHeight + 1)).nMint := by
  obtain ⟨read, found⟩ := reads
  obtain ⟨staked, coinstake, snd, valueOut, minted⟩ := chain.minted _ active
  obtain ⟨rest, runs, wrapped⟩ := subtractInputs_found 0 (found _ snd)
  obtain ⟨pindex, index, same⟩ := follows.index (nEpochHeight + 1) (by omega)
  refine ⟨pindex, (chain.get (nEpochHeight + 1)).block, index, ?_, ?_⟩
  · rw [← read]
    unfold NodeState.readBlockFromDisk
    rw [same]
  · simp only [gapSubsidy, CBlock.isProofOfWork, staked, Bool.not_true, Bool.false_eq_true, if_false, snd, runs, valueOut]
    change Except.ok _ = _
    rw [minted, ← wrapInt64_add_left, wrapped, wrapInt64_add_left]
    ring_nf

lemma GapValue.unique {nEpochHeight amt amt'} (first : GapValue host node nEpochHeight amt)
    (snd : GapValue host node nEpochHeight amt') : amt = amt' := by
  obtain ⟨pIndex, block, found, read, value⟩ := first
  obtain ⟨pIndex', block', found', read', value'⟩ := snd
  cases found.symm.trans found'
  cases read.symm.trans read'
  exact Except.ok.inj (value.symm.trans value')

lemma fillGaps_returns {sqlite state ok epochs}
    (values : ∀ k ∈ epochs, state.mDynamicRewards.lookup k = none → ∃ amt, GapValue host node k amt) :
    ∃ res, fillGaps host node sqlite state ok epochs = .ok res := by
  induction epochs generalizing state ok with
  | nil => exact ⟨_, rfl⟩
  | cons k epochs ih =>
    rw [fillGaps]
    split
    · exact ih (forall_mem_cons.mp values).2
    · rename_i miss
      obtain ⟨amt, pIndex, block, found, read, value⟩ := values k (by simp) (not_isSome_iff_eq_none.mp miss)
      simp only [found, read, value]
      refine ih fun other mem absent => values _ (by simp [mem]) ?_
      by_cases own : other = k
      · subst own
        exact not_isSome_iff_eq_none.mp miss
      · exact (state.store_sameAt _ _ own).1 ▸ absent

structure RewardNode where
  (tip top : Nat)
  rewards : CRewards

/-- In initial block download the hooks are skipped. A restart may find an earlier tip, but the last rows. -/
inductive SessionStep (host : Host) {params : Params} (chain : RewardChain params) (claims : Nat → Prop)
    (reads : Nat → EpochReading → Prop) (gaps : (tip : Nat) → NodeState → (rows : DynamicRewards) → Prop) :
    RewardNode → RewardNode → Prop
  | download {tip top : Nat} {rewards : CRewards} (claimed : claims (tip + 1)) (fresh : rewards.initiated = false) :
      SessionStep host chain claims reads gaps ⟨tip, top, rewards⟩ ⟨tip + 1, max top (tip + 1), rewards⟩
  | live {tip top : Nat} {rewards next : CRewards} (node : NodeState) (sqlite : Sqlite) (reading : EpochReading)
      (claimed : claims (tip + 1)) (own : reads (tip + 1) reading) (follows : chain.Active tip node.chainActive)
      (readable : rewards.initiated = false → gaps tip node rewards.rewards)
      (connects : rewards.connectBlock host params ⟨node, sqlite, reading.inputs⟩
        (chain.indexWith (tip + 1) reading.nMoneySupply) (chain.get (tip + 1)).nMint = .ok (next, true)) :
      SessionStep host chain claims reads gaps ⟨tip, top, rewards⟩ ⟨tip + 1, max top (tip + 1), next⟩
  | restart {tip tip' top : Nat} {rewards : CRewards} (earlier : tip' ≤ tip) :
      SessionStep host chain claims reads gaps ⟨tip, top, rewards⟩ ⟨tip', top, .start rewards.rewards⟩

abbrev SessionRun (host : Host) {params : Params} (chain : RewardChain params) (claims : Nat → Prop)
    (reads : Nat → EpochReading → Prop) (gaps : (tip : Nat) → NodeState → (rows : DynamicRewards) → Prop) :
    RewardNode → RewardNode → Prop :=
  Relation.ReflTransGen (SessionStep host chain claims reads gaps)

structure StartsInside (params : Params) : Prop where
  activated : 0 ≤ params.vUpgrades .dynamicRewards
  inside : params.networkUpgradeActive
    (params.getDynamicRewardsEpochHeight (params.vUpgrades .dynamicRewards).toNat) .dynamicRewards = false

namespace RewardChain
variable {params : Params} (host : Host) (chain : RewardChain params) (readings : Nat → EpochReading)
/-- The adjustment is positive; the block after it, and every one before the first, mints its whole limit. -/
def ClaimsLimit (h : Nat) : Prop :=
  params.networkUpgradeActive h .dynamicRewards = true →
    if params.isDynamicRewardsEpochHeight h then ∃ amount, chain.epochReward host readings h = .ok amount ∧ 0 < amount
    else (params.getDynamicRewardsEpochHeight h + 1 = h ∨
        params.networkUpgradeActive (params.getDynamicRewardsEpochHeight h) .dynamicRewards = false) →
      (chain.get h).nMint = chain.limit host readings h

def GapsReadable (tip : Nat) (node : NodeState) (rows : DynamicRewards) : Prop :=
  ∀ k ∈ gapEpochs params tip, rows.lookup k = none → k < tip ∧ chain.ReadsBack host node k

/-- The stored reward comes from the adjustment, the gap fill or a block before the first adjustment. -/
def Sourced (top k : Nat) (amount : Int) : Prop :=
  params.networkUpgradeActive k .dynamicRewards = true ∧
      (chain.epochReward host readings k = .ok amount ∨ k < top ∧ amount = (chain.get (k + 1)).nMint) ∨
    params.networkUpgradeActive k .dynamicRewards = false ∧
      ∃ h ≤ top, params.networkUpgradeActive h .dynamicRewards = true ∧ params.isDynamicRewardsEpochHeight h = false ∧
        params.getDynamicRewardsEpochHeight h = k ∧ amount = (chain.get h).nMint

lemma Sourced.mono {host} {chain : RewardChain params} {readings} {top top' k} {amt : Int}
    (sourced : chain.Sourced host readings top k amt) (le : top ≤ top') : chain.Sourced host readings top' k amt := by
  rcases sourced with ⟨on, adjusted | ⟨below, minted⟩⟩ | ⟨off, h, below, rest⟩
  · exact .inl ⟨on, .inl adjusted⟩
  · exact .inl ⟨on, .inr ⟨by omega, minted⟩⟩
  · exact .inr ⟨off, h, by omega, rest⟩

end RewardChain

structure SessionInvariant (host : Host) {params : Params} (chain : RewardChain params) (readings : Nat → EpochReading)
    (node : RewardNode) : Prop where
  reached : node.tip ≤ node.top
  claimed : ∀ h, 0 < h → h ≤ node.top → chain.ClaimsLimit host readings h
  agreed : node.rewards.Agreed
  rows : ∀ k amount, node.rewards.rewards.lookup k = some amount → chain.Sourced host readings node.top k amount
  full : node.rewards.initiated = true → ∀ k ≤ node.tip, params.networkUpgradeActive k .dynamicRewards = true →
    params.isDynamicRewardsEpochHeight k = true → (node.rewards.mDynamicRewards.lookup k).isSome = true

section
variable {host : Host} {params : Params} {chain : RewardChain params} {readings : Nat → EpochReading}
lemma StartsInside.active_iff (starts : StartsInside params) {k} :
    params.networkUpgradeActive k .dynamicRewards = true ↔ (params.vUpgrades .dynamicRewards).toNat ≤ k := by
  have activated := starts.activated
  simp only [Consensus.Params.networkUpgradeActive, NO_ACTIVATION_HEIGHT, Bool.and_eq_true, bne_iff_ne, decide_eq_true_eq]
  omega

lemma StartsInside.mem_gapEpochs_iff (starts : StartsInside params) {tip k} :
    k ∈ gapEpochs params tip ↔ params.networkUpgradeActive k .dynamicRewards = true ∧
      params.isDynamicRewardsEpochHeight k = true ∧ k ≤ tip := by
  have inside := starts.inside
  rw [mem_gapEpochs, Params.isEpochHeight_iff, starts.active_iff]
  rw [Bool.eq_false_iff, ne_eq, starts.active_iff] at inside
  constructor
  · rintro ⟨dvd, above, below⟩
    obtain ⟨j, rfl⟩ := dvd
    have later : (params.vUpgrades .dynamicRewards).toNat / params.nRewardAdjustmentInterval < j := by
      refine Nat.lt_of_mul_lt_mul_left (a := params.nRewardAdjustmentInterval) ?_
      rw [Nat.mul_comm]
      exact above
    have reached := (Nat.div_lt_iff_lt_mul params.interval_pos).mp later
    rw [mul_comm] at reached
    exact ⟨reached.le, Dvd.intro j rfl, below⟩
  · omega

variable {tip top : Nat} {rewards ready next : CRewards} {node : NodeState} {sqlite : Sqlite}
section
variable (inv : SessionInvariant host chain readings ⟨tip, top, rewards⟩)
include inv

lemma SessionInvariant.claimed_max
    (claimed : chain.ClaimsLimit host readings (tip + 1)) (h) (pos : 0 < h) (le : h ≤ max top (tip + 1)) :
    chain.ClaimsLimit host readings h := by
  have run : tip ≤ top := inv.reached
  rcases lt_or_ge top h with new | old
  · obtain rfl : h = tip + 1 := by omega
    exact claimed
  · exact inv.claimed h pos old

lemma SessionInvariant.init (starts : StartsInside params) (follows : chain.Active tip node.chainActive)
    (readable : rewards.initiated = false → chain.GapsReadable host tip node rewards.rewards)
    (inits : rewards.init host params node sqlite = .ok (ready, true)) : SessionInvariant host chain readings ⟨tip, top, ready⟩ := by
  obtain ⟨initiated, change⟩ := init_spec inits
  have agreed : ready.Agreed := ⟨fun fresh => absurd initiated (by simp [fresh]), fun _ => inv.agreed.init inits⟩
  rcases change with ⟨done, same⟩ | ⟨⟨fresh, -⟩, full⟩
  · refine ⟨inv.reached, inv.claimed, agreed, fun k amt row => inv.rows k _ ((same k).2 ▸ row), fun _ k le on epoch => ?_⟩
    have before : rewards.initiated = true := by
      rcases done with before | opened
      · exact before
      · by_contra fresh
        rw [(inv.agreed.before (by simpa using fresh)).1] at opened
        cases opened
    rw [(same k).1]
    exact inv.full before k le on epoch
  · have height : node.chainActive.height.toNat = tip := by rw [follows.height, Int.toNat_natCast]
    rw [height] at full
    have unloaded : ∀ k, rewards.load.mDynamicRewards.lookup k = none → rewards.rewards.lookup k = none := by
      intro k absent
      rw [lookup_load, or_eq_none_iff] at absent
      exact absent.1
    refine ⟨inv.reached, inv.claimed, agreed, fun k amt row => ?_, fun _ k le on epoch => ?_⟩
    · rcases full.entries k with ⟨-, inTable⟩ | ⟨absent, mem, stored, value, -, inTable⟩
      · exact inv.rows k _ (inTable ▸ row)
      · -- A row that the gap fill wrote is the mint of the block after the epoch height.
        obtain ⟨on, -, -⟩ := starts.mem_gapEpochs_iff.mp mem
        obtain ⟨below, reads⟩ := readable fresh k mem (unloaded k absent)
        have same := value.unique (reads.gapValue follows below (active_mono on (le_succ k)))
        rw [inTable] at row
        cases row
        exact .inl ⟨on, .inr ⟨lt_of_lt_of_le below inv.reached, same⟩⟩
    · have mem := starts.mem_gapEpochs_iff.mpr ⟨on, epoch, le⟩
      rw [← ne_none_iff_isSome]
      intro absent
      obtain ⟨pIndex, found, unread⟩ := full.complete k mem absent
      have miss : rewards.load.mDynamicRewards.lookup k = none := by
        cases held : rewards.load.mDynamicRewards.lookup k with
        | none => rfl
        | some amt =>
          rw [(full.kept held).1, held] at absent
          cases absent
      obtain ⟨below, read, -⟩ := readable fresh k mem (unloaded k miss)
      obtain ⟨pindex, index, same⟩ := follows.index (k + 1) (by omega)
      cases index.symm.trans found
      unfold NodeState.readBlockFromDisk at read unread
      rw [same, read] at unread
      cases unread
end
section
variable (inv : SessionInvariant host chain readings ⟨tip, top, ready⟩) (initiated : ready.initiated = true)
include inv initiated

lemma SessionInvariant.stored {amt reading} (on : params.networkUpgradeActive (tip + 1) .dynamicRewards = true)
    (own : ReadsAs params readings (tip + 1) reading)
    (comp : ready.newSubsidy host params reading.inputs (chain.indexWith (tip + 1) reading.nMoneySupply)
      (chain.get (tip + 1)).nMint = .ok amt) (pos : 0 < amt) :
    chain.Sourced host readings (max top (tip + 1)) (params.getDynamicRewardsEpochHeight (tip + 1)) amt := by
  rw [newSubsidy, chain.indexWith_height] at comp
  split at comp
  · rename_i epoch
    rw [beq_iff_eq.mp epoch]
    rw [own on epoch] at comp
    exact .inl ⟨on, .inl comp⟩
  · rename_i other
    rw [Bool.not_eq_true] at other
    split at comp
    · rename_i absent
      cases comp
      have below := epochHeight_lt other
      have epoch := Params.isEpochHeight_iff.mpr (params.epochHeight_dvd (tip + 1))
      refine .inr ⟨?_, _, le_max_right _ _, on, other, rfl, rfl⟩
      by_contra active
      have held := inv.full initiated _ (Nat.lt_succ_iff.mp below) (by simpa using active) epoch
      rw [isNone_iff_eq_none.mp absent] at held
      cases held
    · cases comp
      omega

lemma SessionInvariant.connectReady {reading} (claimed : chain.ClaimsLimit host readings (tip + 1)) (agreed : next.Agreed)
    (own : ReadsAs params readings (tip + 1) reading)
    (conn : ready.connectReady host params ⟨node, sqlite, reading.inputs⟩ (chain.indexWith (tip + 1) reading.nMoneySupply)
      (chain.get (tip + 1)).nMint = .ok (next, true)) : SessionInvariant host chain readings ⟨tip + 1, max top (tip + 1), next⟩ := by
  have spec := connectReady_spec conn
  rw [chain.indexWith_height] at spec
  refine ⟨le_max_right _ _, inv.claimed_max claimed, agreed, fun k amt row => ?_, fun _ k le on epoch => ?_⟩
  · rcases spec with ⟨stored, on, comp, pos, done, rfl⟩ | ⟨rfl, -⟩
    · by_cases last : k = params.getDynamicRewardsEpochHeight (tip + 1)
      · subst last
        cases (ready.store_storedAt _ done).2.symm.trans row
        exact inv.stored initiated on own comp pos
      · exact (inv.rows k _ ((ready.store_sameAt _ _ last).2 ▸ row)).mono (le_max_left _ _)
    · exact (inv.rows k _ row).mono (le_max_left _ _)
  · rcases lt_or_ge _ k with new | old
    · obtain rfl : k = tip + 1 := le_antisymm le new
      have adjusts := claimed on
      rw [if_pos epoch] at adjusts
      obtain ⟨reward, comp, pos⟩ := adjusts
      have last := beq_iff_eq.mp epoch
      rcases spec with ⟨stored, -, -, -, done, rfl⟩ | ⟨rfl, nothing⟩
      · rw [last] at done ⊢
        exact isSome_iff_exists.mpr ⟨_, (ready.store_storedAt _ done).1⟩
      · obtain ⟨amt, again, small⟩ := nothing on
        rw [newSubsidy, chain.indexWith_height, if_pos epoch, own on epoch] at again
        cases comp.symm.trans again
        omega
    · have before := inv.full initiated k old on epoch
      rcases spec with ⟨stored, -, -, -, done, rfl⟩ | ⟨rfl, -⟩
      · by_cases last : k = params.getDynamicRewardsEpochHeight (tip + 1)
        · subst last
          exact isSome_iff_exists.mpr ⟨_, (ready.store_storedAt _ done).1⟩
        · exact (ready.store_sameAt _ _ last).1 ▸ before
      · exact before
end

lemma SessionInvariant.fresh (host) (chain : RewardChain params) (readings) :
    SessionInvariant host chain readings ⟨0, 0, .start ∅⟩ where
  reached := le_rfl
  claimed h pos le := absurd pos (by simpa using le)
  agreed := start_agreed _
  rows k amt row := by cases (AList.lookup_empty (β := fun _ => Int) k).symm.trans row
  full initiated := by cases initiated

section
variable {before after : RewardNode} (inv : SessionInvariant host chain readings before) (starts : StartsInside params)
include inv starts

lemma SessionInvariant.step (step : SessionStep host chain (chain.ClaimsLimit host readings) (ReadsAs params readings)
    (chain.GapsReadable host) before after) :
    SessionInvariant host chain readings after := by
  cases step with
  | download claimed fresh =>
    exact ⟨le_max_right _ _, inv.claimed_max claimed, inv.agreed,
      fun k amt row => (inv.rows k _ row).mono (le_max_left _ _), fun initiated => absurd initiated (by simp [fresh])⟩
  | live node sqlite reading claimed own follows readable conn =>
    obtain ⟨ready, inits, connected⟩ := connectBlock_ready conn
    exact (inv.init starts follows readable inits).connectReady (init_spec inits).1 claimed
      (inv.agreed.connect conn) own connected
  | restart earlier => exact ⟨le_trans earlier inv.reached, inv.claimed, start_agreed _, inv.rows, fun initiated => by cases initiated⟩

lemma SessionInvariant.run (run : SessionRun host chain (chain.ClaimsLimit host readings) (ReadsAs params readings)
    (chain.GapsReadable host) before after) :
    SessionInvariant host chain readings after := by
  induction run with
  | refl => exact inv
  | tail _ step ih => exact ih.step starts step
end

lemma StartsInside.pos (starts : StartsInside params) {k}
    (active : params.networkUpgradeActive k .dynamicRewards = true) : 0 < k := by
  have inside := starts.inside
  rw [Bool.eq_false_iff, ne_eq, starts.active_iff] at inside
  rw [starts.active_iff] at active
  omega

def FlatSubsidy (params : Params) (top : Nat) : Prop :=
  ∀ h ≤ top + 1, params.networkUpgradeActive h .dynamicRewards = true → params.isDynamicRewardsEpochHeight h = false →
    getBlockSubsidy h = getBlockSubsidy (params.getDynamicRewardsEpochHeight h + 1)

lemma SessionInvariant.capped_eq (inv : SessionInvariant host chain readings ⟨tip, top, rewards⟩) (starts : StartsInside params)
    (initiated : rewards.initiated = true) (flat : FlatSubsidy params top) {h} (le : h ≤ tip + 1)
    (on : params.networkUpgradeActive h .dynamicRewards = true) (other : params.isDynamicRewardsEpochHeight h = false) :
    capped (getBlockSubsidy h) (rewards.mDynamicRewards.lookup (params.getDynamicRewardsEpochHeight h)) =
      capped (getBlockSubsidy h) (if params.networkUpgradeActive (params.getDynamicRewardsEpochHeight h) .dynamicRewards then
        (chain.epochReward host readings (params.getDynamicRewardsEpochHeight h)).toOption else none) := by
  have below := epochHeight_lt other
  have epoch := Params.isEpochHeight_iff.mpr (params.epochHeight_dvd h)
  have run : tip ≤ top := inv.reached
  have static := flat h (by omega) on other
  have next := epochHeight_succ other
  generalize params.getDynamicRewardsEpochHeight h = k at below epoch static next ⊢
  have same := inv.agreed.after initiated k
  cases active : params.networkUpgradeActive k _ with
  | true =>
    obtain ⟨amt, held⟩ := isSome_iff_exists.mp (inv.full initiated k (show k ≤ tip by omega) active epoch)
    rw [held, if_pos rfl]
    rcases inv.rows k _ (same ▸ held) with ⟨-, adjusted | ⟨lt, minted⟩⟩ | ⟨off, -⟩
    · rw [adjusted]
      rfl
    · -- The entry was filled in from the next block, which minted its whole limit: the two caps are one.
      have adjusts := inv.claimed k (starts.pos active) (show k ≤ top by omega) active
      rw [if_pos epoch] at adjusts
      obtain ⟨reward, comp, -⟩ := adjusts
      have onNext := active_mono active (le_succ k)
      have otherNext : params.isDynamicRewardsEpochHeight (k + 1) = false := by
        simp [Consensus.Params.isDynamicRewardsEpochHeight, next]
      have claims := inv.claimed _ (succ_pos k) lt onNext
      rw [otherNext, next] at claims
      rw [minted, claims (.inl rfl), RewardChain.limit, rewardLimit_of_other onNext otherNext, next, if_pos active, comp]
      simp only [Except.toOption, capped, static, ← min_assoc, min_self]
    · rw [active] at off
      cases off
  | false =>
    rw [if_neg (by simp)]
    cases held : rewards.mDynamicRewards.lookup k with
    | none => rfl
    | some amt =>
      rcases inv.rows k _ (same ▸ held) with ⟨activated, -⟩ | ⟨-, h', le', on', other', rfl, minted⟩
      · rw [active] at activated
        cases activated
      · have claims := inv.claimed h' (zero_lt_of_lt (epochHeight_lt other')) le' on'
        rw [other', active] at claims
        rw [minted, claims (.inr rfl), RewardChain.limit, rewardLimit_of_other on' other', if_neg (by simp [active]), capped,
          capped, capped, static, flat h' (le_succ_of_le le') on' other', min_self]

lemma RewardChain.GapsReadable.init_returns (readable : chain.GapsReadable host tip node rewards.rewards)
    (starts : StartsInside params) {sqlite} (follows : chain.Active tip node.chainActive) :
    ∃ res, rewards.init host params node sqlite = .ok res := by
  rw [init]
  repeat' split
  all_goals try exact ⟨_, rfl⟩
  have height : node.chainActive.height.toNat = tip := by rw [follows.height, Int.toNat_natCast]
  rw [height]
  obtain ⟨res, fills⟩ : ∃ res, fillGaps _ _ _ _ _ _ = .ok _ := by
    apply fillGaps_returns
    intro k mem absent
    rw [lookup_load, or_eq_none_iff] at absent
    obtain ⟨below, reads⟩ := readable k mem absent.1
    have on := (starts.mem_gapEpochs_iff.mp mem).1
    exact ⟨_, reads.gapValue follows below (active_mono on (le_succ k))⟩
  rw [fills]
  exact ⟨_, rfl⟩
end

/-- Nodes that have run `Init` and read the same at each adjustment have one reward limit, whatever their history. -/
theorem getBlockValue_eq_limit {host : Host} {params : Params} {chain : RewardChain params} {readings : Nat → EpochReading}
    (starts : StartsInside params)
    {node : RewardNode} (flat : FlatSubsidy params node.top)
    (run : SessionRun host chain (chain.ClaimsLimit host readings) (ReadsAs params readings) (chain.GapsReadable host)
      ⟨0, 0, .start ∅⟩ node) :
    (node.rewards.initiated = true → ∀ h ≤ node.tip + 1,
      getBlockValue params node.rewards.mDynamicRewards h = chain.limit host readings h) ∧
    ∀ (state : NodeState) (sqlite : Sqlite), chain.Active node.tip state.chainActive →
      chain.GapsReadable host node.tip state node.rewards.rewards →
      ∃ result, node.rewards.init host params state sqlite = .ok result := by
  have inv := (SessionInvariant.fresh _ _ _).run starts run
  constructor
  · intro initiated h le
    rw [getBlockValue_eq_rewardLimit]
    apply rewardLimit_congr
    intro h' le' on other
    exact inv.capped_eq starts initiated flat (by omega) on other
  · intro state sqlite follows readable
    exact readable.init_returns starts follows

lemma SessionRun.download {host params} {chain : RewardChain params} {claims : Nat → Prop}
    {reads gaps} (rows n)
    (claimed : ∀ h, 0 < h → h ≤ n → claims h) :
    SessionRun host chain claims reads gaps ⟨0, 0, .start rows⟩ ⟨n, n, .start rows⟩ := by
  induction n with
  | zero => exact .refl
  | succ n ih =>
    have step : SessionStep host chain claims reads gaps ⟨n, n, .start rows⟩ ⟨n + 1, max n (n + 1), .start rows⟩ :=
      .download (claimed _ (succ_pos n) le_rfl) rfl
    rw [max_eq_right (le_succ n)] at step
    exact (ih fun h pos le => claimed h pos (by omega)).tail step

instance (computed : Except Failure Int) : Decidable (∃ amount, computed = .ok amount ∧ 0 < amount) :=
  match computed with
  | .ok amount => decidable_of_iff (0 < amount) (by simp)
  | .error _ => .isFalse (by simp)

instance {params : Params} (host : Host) (chain : RewardChain params) (readings : Nat → EpochReading) (h : Nat) :
    Decidable (chain.ClaimsLimit host readings h) :=
  inferInstanceAs (Decidable (_ → _))

def smallNetwork : Params :=
  { mainConsensus with
    nRewardAdjustmentInterval := 3
    vUpgrades := fun idx => if idx = .dynamicRewards then 4 else mainUpgrades idx
    interval_pos := by decide }

def fundingTx : CTransaction := ⟨1, [], [⟨10 * COIN, []⟩], 500⟩

def rewardedBlock (nHeight : Nat) (nMint : Int) : CBlock :=
  blockAt nHeight [coinbaseTx 0 0, paymentTx 1 [⟨500, 0⟩] [⟨0, []⟩, ⟨10 * COIN + nMint, []⟩]]

variable (full : Bool)
/-- 50 coins up to the first adjustment, which lowers the limit to 45; then that, or one less. -/
def sampleMint (h : Nat) : Int := if h ≤ 6 then 50 * COIN else if full then 45 * COIN else 44 * COIN

lemma rewardedBlock_mint (h) : StakeMint (rewardedBlock h (sampleMint full h)) (fun _ => 10 * COIN) (sampleMint full h) := by
  have mints : sampleMint full h = 50 * COIN ∨ sampleMint full h = 45 * COIN ∨ sampleMint full h = 44 * COIN := by grind [sampleMint]
  rcases mints with mint | mint | mint <;> rw [mint] <;> exact ⟨rfl, _, rfl, by decide, by decide⟩

def sampleChain : RewardChain smallNetwork where
  get h := ⟨indexAt h, rewardedBlock h (sampleMint full h), sampleMint full h, fun _ => 10 * COIN⟩
  heights _ := rfl
  minted h _ := rewardedBlock_mint full h

def sampleNode (tip : Nat) : NodeState :=
  { emptyNode with
    chainActive := (sampleChain full).active tip
    txIndex := (∅ : AssocMap UInt256 (CBlockHeader × CTransaction)).insert 500 ((blockAt 1 []).toCBlockHeader, fundingTx)
    blockFiles := (∅ : AssocMap UInt256 CBlock).insert 7 (rewardedBlock 7 (sampleMint full 7)) }

def sampleReadings : Nat → EpochReading := fun _ => ⟨0, ∅, 0⟩

lemma sampleChain_claims : ∀ h < 9, (sampleChain true).ClaimsLimit labelHost sampleReadings h := by decide +kernel
lemma smallNetwork_startsInside : StartsInside smallNetwork := ⟨by decide, by decide⟩

def storedRewards (rows : List (Nat × Int)) : CRewards :=
  let entries := rows.foldl (fun entries row => entries.insert row.1 row.2) (∅ : DynamicRewards)
  ⟨true, true, entries, entries⟩

lemma sampleNode_reads : (sampleChain full).GapsReadable labelHost 7 (sampleNode full 7) ∅ := by
  intro k mem _
  have only : gapEpochs smallNetwork 7 = [6] := by decide
  rw [only, mem_singleton] at mem
  subst mem
  refine ⟨by decide, by cases full <;> decide +kernel, ?_⟩
  rintro coinstake snd txin mem
  cases snd
  cases mem_singleton.mp mem
  exact ⟨_, _, _, rfl, rfl, rfl⟩

/-- Seven blocks are downloaded; `Init` for the eighth gives the chain's limit. -/
theorem downloaded_limit : ∃ next : CRewards, SessionRun labelHost (sampleChain true)
    ((sampleChain true).ClaimsLimit labelHost sampleReadings)
      (ReadsAs smallNetwork sampleReadings) ((sampleChain true).GapsReadable labelHost) ⟨0, 0, .start ∅⟩ ⟨8, 8, next⟩ ∧
    next.initiated = true ∧
    ∀ h ≤ 9, getBlockValue smallNetwork next.mDynamicRewards h = (sampleChain true).limit labelHost sampleReadings h := by
  obtain ⟨⟨next, ok⟩, connects, facts⟩ := Except.exists_ok_of_any (show
    ((start ∅).connectBlock labelHost smallNetwork ⟨sampleNode true 7, sqliteDone, ⟨∅, 0⟩⟩ (indexAt 8)
      (sampleMint true 8)).toOption.any (fun result => result.2 && result.1.initiated) = true by decide +kernel)
  obtain ⟨rfl, initiated⟩ : ok = true ∧ next.initiated = true := by simpa using facts
  have claims := sampleChain_claims
  have run : SessionRun labelHost (sampleChain true) ((sampleChain true).ClaimsLimit labelHost sampleReadings)
      (ReadsAs smallNetwork sampleReadings) ((sampleChain true).GapsReadable labelHost) ⟨0, 0, .start ∅⟩ ⟨8, 8, next⟩ :=
    (SessionRun.download ∅ 7 fun h _ le => claims h (by omega)).tail
      (.live (sampleNode true 7) sqliteDone (sampleReadings 8) (claims 8 (by decide)) (fun _ _ => rfl)
        ((sampleChain true).active_active 7) (fun _ => sampleNode_reads true) connects)
  have flat : FlatSubsidy smallNetwork 8 := by
    unfold FlatSubsidy
    decide
  exact ⟨next, run, initiated, (getBlockValue_eq_limit smallNetwork_startsInside flat run).1 initiated⟩

/-- A node that downloads the next block takes its mint for the limit; `Init` a block earlier reads above the tip. -/
theorem limit_depends_on_history : ∃ live downloaded : CRewards,
    SessionRun labelHost (sampleChain false) (fun _ => True) (ReadsAs smallNetwork sampleReadings) (fun _ _ _ => True)
      ⟨0, 0, .start ∅⟩ ⟨7, 7, live⟩ ∧
    live.initiated = true ∧ getBlockValue smallNetwork live.mDynamicRewards 8 = 45 * COIN ∧
    SessionRun labelHost (sampleChain false) (fun _ => True) (ReadsAs smallNetwork sampleReadings) (fun _ _ _ => True)
      ⟨0, 0, .start ∅⟩ ⟨7, 7, .start ∅⟩ ∧
    (start ∅).init labelHost smallNetwork (sampleNode false 7) sqliteDone = .ok (downloaded, true) ∧
    getBlockValue smallNetwork downloaded.mDynamicRewards 8 = 44 * COIN ∧
    SessionRun labelHost (sampleChain false) (fun _ => True) (ReadsAs smallNetwork sampleReadings) (fun _ _ _ => True)
      ⟨0, 0, .start ∅⟩ ⟨6, 6, .start ∅⟩ ∧
    (start ∅).init labelHost smallNetwork (sampleNode false 6) sqliteDone =
      .error (.fault "ReadBlockFromDisk(block, nullptr)") := by
  have step : ∀ (tip : Nat) (before after : CRewards),
      before.connectBlock labelHost smallNetwork ⟨sampleNode false tip, sqliteDone, ⟨∅, 0⟩⟩ (indexAt (tip + 1))
        (sampleMint false (tip + 1)) = .ok (after, true) →
      SessionStep labelHost (sampleChain false) (fun _ => True) (ReadsAs smallNetwork sampleReadings) (fun _ _ _ => True) ⟨tip, tip, before⟩
        ⟨tip + 1, tip + 1, after⟩ := by
    intro tip before after connects
    have live : SessionStep labelHost (sampleChain false) (fun _ => True) (ReadsAs smallNetwork sampleReadings)
      (fun _ _ _ => True) ⟨tip, tip, before⟩
        ⟨tip + 1, max tip (tip + 1), after⟩ :=
      .live (sampleNode false tip) sqliteDone (sampleReadings _) trivial (fun _ _ => rfl) ((sampleChain false).active_active tip)
        (fun _ => trivial) connects
    rwa [max_eq_right (le_succ tip)] at live
  have adjusted : adjustSubsidy labelHost smallNetwork ⟨∅, 0⟩ (indexAt 6) (50 * COIN) = .ok (45 * COIN) := by decide +kernel
  have adjusting : (storedRewards [(3, 50 * COIN)]).connectBlock labelHost smallNetwork
      ⟨sampleNode false 5, sqliteDone, ⟨∅, 0⟩⟩ (indexAt 6) (50 * COIN) =
        .ok (storedRewards [(3, 50 * COIN), (6, 45 * COIN)], true) := by
    rw [connectBlock_initiated rfl, connectReady, if_pos (by decide), newSubsidy,
      if_pos (by decide), adjusted]
    rfl
  have stored := ((((Relation.ReflTransGen.refl.tail (step 0 (.start ∅) emptyRewards rfl)).tail (step 1 _ emptyRewards rfl)).tail
    (step 2 _ emptyRewards rfl)).tail (step 3 _ (storedRewards [(3, 50 * COIN)]) rfl)).tail (step 4 _ (storedRewards [(3, 50 * COIN)]) rfl)
  have run := (stored.tail (step 5 _ _ adjusting)).tail (step 6 _ (storedRewards [(3, 50 * COIN), (6, 45 * COIN)]) rfl)
  exact ⟨_, storedRewards [(6, 44 * COIN)], run, rfl, by decide +kernel, .download ∅ 7 (fun _ _ _ => trivial),
    rfl, by decide +kernel, .download ∅ 6 (fun _ _ _ => trivial), by decide +kernel⟩

end Peony
