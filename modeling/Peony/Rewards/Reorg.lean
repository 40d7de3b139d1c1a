import Mathlib.Logic.Relation
import Peony.Consensus.MainNet
import Peony.Rewards.Adjust
import Peony.Rewards.Init

namespace Peony
open Consensus CRewards Option

namespace CRewards

structure Hook where
  node : NodeState
  sqlite : Sqlite
  inputs : EpochInputs

def newSubsidy (host : Host) (params : Params) (inputs : EpochInputs) (state : CRewards) (pindex : CBlockIndex)
    (nSubsidy : Int) : Except Failure Int :=
  if params.isDynamicRewardsEpochHeight pindex.nHeight then adjustSubsidy host params inputs pindex nSubsidy
  else if (state.mDynamicRewards.lookup (params.getDynamicRewardsEpochHeight pindex.nHeight)).isNone then .ok nSubsidy
  else .ok 0

variable (host : Host) (params : Params) (hook : Hook) (state : CRewards) (pindex : CBlockIndex) (nSubsidy : Int)
def connectReady : Except Failure (CRewards × Bool) :=
  if params.networkUpgradeActive pindex.nHeight .dynamicRewards then do
    let nNewSubsidy ← newSubsidy host params hook.inputs state pindex nSubsidy
    let nEpochHeight := params.getDynamicRewardsEpochHeight pindex.nHeight
    if 0 < nNewSubsidy then .ok (state.store hook.sqlite nEpochHeight nNewSubsidy, hook.sqlite.insertDone nEpochHeight)
    else .ok (state, true)
  else .ok (state, true)

def connectBlock : Except Failure (CRewards × Bool) := do
  let (ready, ok) ← state.init host params hook.node hook.sqlite
  if ok then connectReady host params hook ready pindex nSubsidy else .ok (ready, false)

/-- The epoch height of an active epoch whose entry the map holds. -/
def erases (params : Params) (state : CRewards) (nHeight : Nat) : Bool :=
  params.networkUpgradeActive nHeight .dynamicRewards && params.isDynamicRewardsEpochHeight nHeight &&
    (state.mDynamicRewards.lookup nHeight).isSome

/-- The map loses one key, the table every row from that height on. -/
def disconnectBlock (params : Params) (sqlite : Sqlite) (state : CRewards) (pindex : CBlockIndex) : CRewards × Bool :=
  if state.erases params pindex.nHeight then
    ({ state with
        mDynamicRewards := state.mDynamicRewards.erase pindex.nHeight
        rewards := if sqlite.deleteDone pindex.nHeight then
          state.rewards.restrict fun height => decide (height < pindex.nHeight) else state.rewards },
      sqlite.deleteDone pindex.nHeight)
  else (state, true)

section
variable {host : Host} {params : Params} {hook : Hook} {sqlite : Sqlite} {pindex : CBlockIndex} {nSubsidy : Int}
  {state ready next last : CRewards}

lemma connectBlock_initiated (initiated : state.initiated = true) :
    state.connectBlock host params hook pindex nSubsidy = state.connectReady host params hook pindex nSubsidy := by
  rw [connectBlock, init, if_pos initiated]
  rfl

lemma connectBlock_ready (connects : state.connectBlock host params hook pindex nSubsidy = .ok (next, true)) :
    ∃ ready, state.init host params hook.node hook.sqlite = .ok (ready, true) ∧
      ready.connectReady host params hook pindex nSubsidy = .ok (next, true) := by
  obtain ⟨⟨ready, ok⟩, inits, connects⟩ := Except.bind_eq_ok.mp connects
  cases ok with
  | true => grind
  | false => cases connects

section
variable (connects : ready.connectReady host params hook pindex nSubsidy = .ok (next, true))
include connects

lemma connectReady_spec : (∃ amt, params.networkUpgradeActive pindex.nHeight .dynamicRewards = true ∧
        ready.newSubsidy host params hook.inputs pindex nSubsidy = .ok amt ∧ 0 < amt ∧
        hook.sqlite.insertDone (params.getDynamicRewardsEpochHeight pindex.nHeight) = true ∧
        next = ready.store hook.sqlite (params.getDynamicRewardsEpochHeight pindex.nHeight) amt) ∨
      next = ready ∧ (params.networkUpgradeActive pindex.nHeight .dynamicRewards = true →
        ∃ amt, ready.newSubsidy host params hook.inputs pindex nSubsidy = .ok amt ∧ amt ≤ 0) := by
  rw [connectReady] at connects
  split at connects
  · rename_i active
    obtain ⟨amt, comp, connects⟩ := Except.bind_eq_ok.mp connects
    split at connects
    · rename_i pos
      obtain ⟨rfl, done⟩ := Prod.mk.inj (Except.ok.inj connects)
      exact .inl ⟨_, active, comp, pos, done, rfl⟩
    · cases connects
      exact .inr ⟨rfl, fun _ => ⟨_, comp, by omega⟩⟩
  · rename_i inactive
    cases connects
    exact .inr ⟨rfl, fun active => absurd active inactive⟩

lemma connectReady_initiated : next.initiated = ready.initiated := by
  rcases connectReady_spec connects with ⟨amt, -, -, -, -, rfl⟩ | ⟨rfl, -⟩ <;> rfl
end

lemma disconnectBlock_kept (keeps : state.erases params pindex.nHeight = false)
    (disconnects : state.disconnectBlock params sqlite pindex = (last, true)) : last = state := by
  rw [disconnectBlock, keeps] at disconnects
  cases disconnects
  rfl

lemma disconnectBlock_erased (erasing : state.erases params pindex.nHeight = true)
    (disconnects : state.disconnectBlock params sqlite pindex = (last, true)) (k) :
    last.mDynamicRewards.lookup k = (if k = pindex.nHeight then none else state.mDynamicRewards.lookup k) ∧
      last.rewards.lookup k = if k < pindex.nHeight then state.rewards.lookup k else none := by
  rw [disconnectBlock, if_pos erasing] at disconnects
  obtain ⟨rfl, done⟩ := Prod.mk.inj disconnects
  constructor
  · exact AssocMap.lookup_erase_ite ..
  · simp [done, AssocMap.lookup_restrict]

lemma disconnectBlock_initiated (disconnects : state.disconnectBlock params sqlite pindex = (last, true)) :
    last.initiated = state.initiated := by
  rw [disconnectBlock] at disconnects
  split at disconnects
  · obtain ⟨rfl, -⟩ := Prod.mk.inj disconnects
    rfl
  · cases disconnects
    rfl
end
section
variable {host : Host} {params : Params} {hook : Hook} {sqlite : Sqlite} {pindex : CBlockIndex} {nSubsidy : Int}
  {state ready next last : CRewards}

/-- Connecting stores nothing that disconnecting leaves behind, or removes though it was there before. -/
def Reversible (host : Host) (params : Params) (inputs : EpochInputs) (state : CRewards) (pindex : CBlockIndex)
    (nSubsidy : Int) : Prop :=
  params.networkUpgradeActive pindex.nHeight .dynamicRewards = true →
    if params.isDynamicRewardsEpochHeight pindex.nHeight then
      state.mDynamicRewards.lookup pindex.nHeight = none ∧
        ∀ amount, adjustSubsidy host params inputs pindex nSubsidy = .ok amount → 0 < amount →
          ∀ k, pindex.nHeight ≤ k → state.rewards.lookup k = none
    else (state.mDynamicRewards.lookup (params.getDynamicRewardsEpochHeight pindex.nHeight)).isSome = true ∨ nSubsidy ≤ 0

lemma Reversible.congr {inputs} (same : ∀ k, state.SameAt ready k) :
    ready.Reversible host params inputs pindex nSubsidy ↔ state.Reversible host params inputs pindex nSubsidy := by
  simp [Reversible, fun k => (same k).1, fun k => (same k).2]

section
variable (connects : ready.connectReady host params hook pindex nSubsidy = .ok (next, true))
  (disconnects : next.disconnectBlock params sqlite pindex = (last, true))
include connects disconnects

section
variable (active : params.networkUpgradeActive pindex.nHeight .dynamicRewards = true)
include active

lemma restored_of_epoch (epoch : params.isDynamicRewardsEpochHeight pindex.nHeight = true) :
    (∀ k, ready.SameAt last k) ↔ ready.Reversible host params hook.inputs pindex nSubsidy := by
  have own := beq_iff_eq.mp epoch
  simp only [Reversible, active, epoch, if_true, true_implies]
  rcases connectReady_spec connects with ⟨amt, -, comp, pos, done, rfl⟩ | ⟨rfl, nothing⟩
  · -- The connect stored an entry at the block's own height, and the disconnect erases exactly that entry.
    rw [newSubsidy, if_pos epoch] at comp
    rw [own] at done disconnects
    have stored := ready.store_storedAt amt done
    have effect := disconnectBlock_erased (by simp [erases, active, epoch, stored.1]) disconnects
    constructor
    · intro same
      constructor
      · rw [← (same _).1, (effect _).1, if_pos rfl]
      · intro _ _ _ k above
        rw [← (same k).2, (effect k).2, if_neg (by omega)]
    · rintro ⟨absent, empty⟩ k
      obtain ⟨inMap, inTable⟩ := effect k
      rw [SameAt, inMap, inTable]
      by_cases at_height : k = pindex.nHeight
      · subst at_height
        rw [if_pos rfl, if_neg (lt_irrefl _), absent, empty _ comp pos _ le_rfl]
        exact ⟨rfl, rfl⟩
      · obtain ⟨keptMap, keptTable⟩ := ready.store_sameAt _ _ at_height
        rw [if_neg at_height]
        refine ⟨keptMap, ?_⟩
        split
        · exact keptTable
        · rw [empty _ comp pos k (by omega)]
  · obtain ⟨amt, comp, small⟩ := nothing active
    rw [newSubsidy, if_pos epoch] at comp
    cases held : next.mDynamicRewards.lookup _ with
    | some kept =>
      have effect := disconnectBlock_erased (by simp [erases, active, epoch, held]) disconnects
      constructor
      · intro same
        have lost := (same pindex.nHeight).1
        rw [(effect _).1, if_pos rfl, held] at lost
        cases lost
      · rintro ⟨⟨⟩, -⟩
    | none =>
      cases disconnectBlock_kept (by simp [erases, held]) disconnects
      refine ⟨fun _ => ⟨rfl, fun other again pos => ?_⟩, fun _ k => ⟨rfl, rfl⟩⟩
      rw [comp] at again
      cases again
      omega

lemma restored_of_other (other : params.isDynamicRewardsEpochHeight pindex.nHeight = false) :
    (∀ k, ready.SameAt last k) ↔ ready.Reversible host params hook.inputs pindex nSubsidy := by
  cases disconnectBlock_kept (by simp [erases, other]) disconnects
  simp only [Reversible, active, other, Bool.false_eq_true, if_false, true_implies]
  rcases connectReady_spec connects with ⟨amt, -, comp, pos, done, rfl⟩ | ⟨rfl, nothing⟩
  · simp only [newSubsidy, other, Bool.false_eq_true, if_false] at comp
    split at comp
    · rename_i absent
      cases comp
      have empty := isNone_iff_eq_none.mp absent
      constructor
      · intro same
        have kept := (same (params.getDynamicRewardsEpochHeight pindex.nHeight)).1
        rw [(ready.store_storedAt _ done).1, empty] at kept
        cases kept
      · grind
    · cases comp
      omega
  · refine ⟨fun _ => ?_, fun _ k => ⟨rfl, rfl⟩⟩
    obtain ⟨amt, comp, small⟩ := nothing active
    simp only [newSubsidy, other, Bool.false_eq_true, if_false] at comp
    split at comp
    · cases comp
      exact .inr small
    · grind [isNone_iff_eq_none, isSome_iff_ne_none]
end

lemma restored_of_ready : (∀ k, ready.SameAt last k) ↔ ready.Reversible host params hook.inputs pindex nSubsidy := by
  cases active : params.networkUpgradeActive _ _ with
  | true =>
    cases epoch : params.isDynamicRewardsEpochHeight _ with
    | true => exact restored_of_epoch connects disconnects active epoch
    | false => exact restored_of_other connects disconnects active epoch
  | false =>
    rcases connectReady_spec connects with ⟨amt, on, -⟩ | ⟨rfl, -⟩
    · grind
    · cases disconnectBlock_kept (by simp [erases, active]) disconnects
      exact ⟨fun _ on => absurd on (by simp [active]), fun _ k => ⟨rfl, rfl⟩⟩
end

/-- `Init` has run, or would change neither the map nor the table. -/
def Settled (host : Host) (params : Params) (node : NodeState) (state : CRewards) : Prop :=
  (state.initiated = true ∨ state.fOpen = true) ∨
    (∀ k amount, state.rewards.lookup k = some amount → state.mDynamicRewards.lookup k = some amount) ∧
      ∀ k ∈ gapEpochs params node.chainActive.height.toNat, state.mDynamicRewards.lookup k = none → Unreadable host node k

lemma Settled.sameAt {node} (done : state.Settled host params node)
    (inits : state.init host params node sqlite = .ok (ready, true)) (k) : state.SameAt ready k := by
  obtain ⟨-, ⟨-, same⟩ | ⟨⟨fresh, closed⟩, filled⟩⟩ := init_spec inits
  · exact same k
  · rcases done with (init | opened) | ⟨loaded, full⟩
    · grind
    · grind
    · have own : state.load.mDynamicRewards.lookup k = state.mDynamicRewards.lookup k := by
        rw [lookup_load]
        cases row : state.rewards.lookup k with
        | none => rfl
        | some amt => exact (loaded k _ row).symm
      rcases filled.entries k with ⟨inMap, inTable⟩ | ⟨absent, mem, amt, ⟨pIndex, block, found, read, -⟩, -⟩
      · exact ⟨inMap.trans own, inTable⟩
      · obtain ⟨other, again, unread⟩ := full k mem (own ▸ absent)
        rw [found] at again
        cases again
        rw [read] at unread
        cases unread

lemma kept_or_erased (connects : ready.connectReady host params hook pindex nSubsidy = .ok (next, true))
    (disconnects : next.disconnectBlock params sqlite pindex = (last, true)) {k amt}
    (held : ready.mDynamicRewards.lookup k = some amt) :
    last.mDynamicRewards.lookup k = some amt ∨ k = pindex.nHeight ∧ last.rewards.lookup k = none := by
  cases erasing : next.erases _ _ with
  | true =>
    have effect := disconnectBlock_erased erasing disconnects k
    by_cases own : k = pindex.nHeight
    · rw [own, if_neg (lt_irrefl _)] at effect
      exact .inr ⟨own, own ▸ effect.2⟩
    · rw [if_neg own] at effect
      refine .inl (effect.1.trans ?_)
      rcases connectReady_spec connects with ⟨stored, -, -, -, -, rfl⟩ | ⟨rfl, -⟩
      · simp only [erases, Bool.and_eq_true] at erasing
        have epoch := beq_iff_eq.mp erasing.1.2
        exact (ready.store_sameAt _ _ fun same => own (same.trans epoch)).1.trans held
      · exact held
  | false =>
    cases disconnectBlock_kept erasing disconnects
    rcases connectReady_spec connects with ⟨stored, active, comp, pos, done, rfl⟩ | ⟨rfl, -⟩
    · refine .inl ?_
      by_cases own : k = params.getDynamicRewardsEpochHeight pindex.nHeight
      · subst own
        cases epoch : params.isDynamicRewardsEpochHeight _ with
        | true =>
          have height := beq_iff_eq.mp epoch
          have inMap := (ready.store_storedAt stored done).1
          rw [height] at inMap erasing
          simp [erases, active, epoch, inMap] at erasing
        | false =>
          simp only [newSubsidy, epoch, held, Bool.false_eq_true, if_false, isNone_some] at comp
          cases comp
          omega
      · exact (ready.store_sameAt _ _ own).1.trans held
    · exact .inl held

variable (below : hook.node.chainActive.height < pindex.nHeight)
include below

lemma settled_of_restored (inits : state.init host params hook.node hook.sqlite = .ok (ready, true))
    (connects : ready.connectReady host params hook pindex nSubsidy = .ok (next, true))
    (disconnects : next.disconnectBlock params sqlite pindex = (last, true)) (back : ∀ k, state.SameAt last k) :
    state.Settled host params hook.node := by
  obtain ⟨-, ⟨done, -⟩ | ⟨-, full⟩⟩ := init_spec inits
  · exact .inl done
  have rows : ∀ k amt, state.rewards.lookup k = some amt → state.mDynamicRewards.lookup k = some amt := by
    intro k amt row
    have loaded : state.load.mDynamicRewards.lookup k = some amt := by rw [lookup_load, row, some_or]
    rcases kept_or_erased connects disconnects ((full.kept loaded).1.trans loaded) with kept | ⟨-, gone⟩
    · rw [← (back k).1, kept]
    · rw [(back k).2, row] at gone
      cases gone
  refine .inr ⟨rows, fun k mem absent => ?_⟩
  -- An entry that `Init` added for a gap lies below the block, so the disconnect would have left it behind.
  cases held : ready.mDynamicRewards.lookup k with
  | none => exact full.complete k mem held
  | some amt =>
    obtain ⟨-, above, run⟩ := mem_gapEpochs.mp mem
    rcases kept_or_erased connects disconnects held with kept | ⟨own, -⟩
    · rw [(back k).1, absent] at kept
      cases kept
    · omega

lemma restored_iff (connects : state.connectBlock host params hook pindex nSubsidy = .ok (next, true))
    (disconnects : next.disconnectBlock params sqlite pindex = (last, true)) :
    (∀ k, state.SameAt last k) ↔
      state.Settled host params hook.node ∧ state.Reversible host params hook.inputs pindex nSubsidy := by
  obtain ⟨ready, inits, connects⟩ := connectBlock_ready connects
  have steps := restored_of_ready connects disconnects
  constructor
  · intro back
    have done := settled_of_restored below inits connects disconnects back
    refine ⟨done, (Reversible.congr (done.sameAt inits)).mp (steps.mp fun k => ?_)⟩
    obtain ⟨inMap, inTable⟩ := done.sameAt inits k
    exact ⟨(back k).1.trans inMap.symm, (back k).2.trans inTable.symm⟩
  · rintro ⟨done, reversible⟩ k
    obtain ⟨inMap, inTable⟩ := done.sameAt inits k
    obtain ⟨backMap, backTable⟩ := steps.mpr ((Reversible.congr (done.sameAt inits)).mpr reversible) k
    exact ⟨backMap.trans inMap, backTable.trans inTable⟩
end

def NoLaterEntry (params : Params) (state : CRewards) (nHeight : Nat) : Prop :=
  state.erases params nHeight = true → ∀ k, nHeight < k → state.mDynamicRewards.lookup k = none

/-- A hook that succeeds; a disconnect finds no entry of a later epoch in the map. -/
inductive RewardStep (host : Host) (params : Params) : CRewards → CRewards → Prop
  | connect {state next : CRewards} (hook : Hook) (pindex : CBlockIndex) (nSubsidy : Int)
      (connects : state.connectBlock host params hook pindex nSubsidy = .ok (next, true)) : RewardStep host params state next
  | disconnect {state next : CRewards} (sqlite : Sqlite) (pindex : CBlockIndex) (latest : state.NoLaterEntry params pindex.nHeight)
      (disconnects : state.disconnectBlock params sqlite pindex = (next, true)) : RewardStep host params state next

abbrev RewardRun (host : Host) (params : Params) := Relation.ReflTransGen (RewardStep host params)

structure Agreed (state : CRewards) : Prop where
  before : state.initiated = false → state.fOpen = false ∧ ∀ k, state.mDynamicRewards.lookup k = none
  after : state.initiated = true → ∀ k, state.mDynamicRewards.lookup k = state.rewards.lookup k

variable {host : Host} {params : Params} {hook : Hook} {sqlite : Sqlite} {pindex : CBlockIndex} {nSubsidy : Int}
  {state ready next : CRewards}

lemma start_agreed (rows) : (start rows).Agreed := by
  refine ⟨fun _ => ⟨rfl, fun k => AList.lookup_empty k⟩, fun init => ?_⟩
  cases init

variable (agreed : state.Agreed)
include agreed

lemma Agreed.init {node} (inits : state.init host params node sqlite = .ok (ready, true)) (k) :
    ready.mDynamicRewards.lookup k = ready.rewards.lookup k := by
  obtain ⟨-, ⟨done, same⟩ | ⟨⟨fresh, -⟩, full⟩⟩ := init_spec inits
  · have init : state.initiated = true := by
      rcases done with init | opened
      · exact init
      · by_contra fresh
        rw [(agreed.before (by simpa using fresh)).1] at opened
        cases opened
    rw [(same k).1, (same k).2, agreed.after init]
  · rcases full.entries k with ⟨inMap, inTable⟩ | ⟨-, -, amt, -, inMap, inTable⟩
    · rw [inMap, inTable, lookup_load, (agreed.before fresh).2, or_none]
      rfl
    · rw [inMap, inTable]

lemma Agreed.connect (connects : state.connectBlock host params hook pindex nSubsidy = .ok (next, true)) : next.Agreed := by
  obtain ⟨ready, inits, connects⟩ := connectBlock_ready connects
  have init := (connectReady_initiated connects).trans (init_spec inits).1
  refine ⟨fun fresh => absurd init (by simp [fresh]), fun _ k => ?_⟩
  rcases connectReady_spec connects with ⟨amt, -, -, -, done, rfl⟩ | ⟨rfl, -⟩
  · by_cases own : k = params.getDynamicRewardsEpochHeight pindex.nHeight
    · subst own
      obtain ⟨inMap, inTable⟩ := ready.store_storedAt _ done
      rw [inMap, inTable]
    · obtain ⟨inMap, inTable⟩ := ready.store_sameAt _ _ own
      rw [inMap, inTable, agreed.init inits]
  · exact agreed.init inits k

lemma Agreed.disconnect (latest : state.NoLaterEntry params pindex.nHeight)
    (disconnects : state.disconnectBlock params sqlite pindex = (next, true)) : next.Agreed := by
  cases erasing : state.erases _ _ with
  | false =>
    cases disconnectBlock_kept erasing disconnects
    exact agreed
  | true =>
    have init : state.initiated = true := by
      by_contra fresh
      simp [erases, (agreed.before (by simpa using fresh)).2] at erasing
    have kept := (disconnectBlock_initiated disconnects).trans init
    refine ⟨fun fresh => absurd kept (by simp [fresh]), fun _ k => ?_⟩
    obtain ⟨inMap, inTable⟩ := disconnectBlock_erased erasing disconnects k
    rw [inMap, inTable]
    rcases Nat.lt_trichotomy k pindex.nHeight with below | rfl | above
    · rw [if_neg (by omega), if_pos below, agreed.after init]
    · simp
    · rw [if_neg (by omega), if_neg (by omega), latest erasing k above]

lemma Agreed.step (step : RewardStep host params state next) : next.Agreed := by
  cases step with
  | connect hook pindex nSubsidy connects => exact agreed.connect connects
  | disconnect sqlite pindex latest disconnects => exact agreed.disconnect latest disconnects

lemma Agreed.run (run : RewardRun host params state next) : next.Agreed := by
  induction run with
  | refl => exact agreed
  | tail _ step ih => exact ih.step step

end CRewards

/-- For a settled state, and a block that stores nothing but a new last entry at its own height. -/
theorem rewards_restored_iff (host : Host) (params : Params) :
    (∀ (state next last : CRewards) (hook : CRewards.Hook) (sqlite : Sqlite) (pindex : CBlockIndex) (nSubsidy : Int),
      hook.node.chainActive.height < pindex.nHeight →
      state.connectBlock host params hook pindex nSubsidy = .ok (next, true) →
      next.disconnectBlock params sqlite pindex = (last, true) →
      ((∀ k, last.mDynamicRewards.lookup k = state.mDynamicRewards.lookup k ∧ last.rewards.lookup k = state.rewards.lookup k) ↔
        state.Settled host params hook.node ∧ state.Reversible host params hook.inputs pindex nSubsidy)) ∧
    ∀ (rows : DynamicRewards) (state : CRewards), CRewards.RewardRun host params (.start rows) state →
      state.initiated = true → ∀ k, state.mDynamicRewards.lookup k = state.rewards.lookup k := by
  constructor
  · intro state next last hook sqlite pindex nSubsidy below connects disconnects
    exact restored_iff below connects disconnects
  · intro rows state run initiated
    exact ((start_agreed _).run run).after initiated

def sqliteDone : Sqlite := ⟨true, true, fun _ => true, fun _ => true⟩
def sampleHook : CRewards.Hook := ⟨emptyNode, sqliteDone, ⟨∅, 0⟩⟩
def emptyRewards : CRewards := ⟨true, true, ∅, ∅⟩

theorem epochBlock_restored : ∃ next last : CRewards,
      (start ∅).connectBlock permissiveHost mainConsensus sampleHook (indexAt 1905120) (380 * COIN) =
        .ok (next, true) ∧
      next.mDynamicRewards.lookup 1905120 = some (342 * COIN) ∧
      next.disconnectBlock mainConsensus sqliteDone (indexAt 1905120) = (last, true) ∧
      (∀ k, last.mDynamicRewards.lookup k = none ∧ last.rewards.lookup k = none) ∧
      ∀ k, next.mDynamicRewards.lookup k = next.rewards.lookup k := by
  obtain ⟨⟨next, ok⟩, connects, facts⟩ := Except.exists_ok_of_any (show
    ((start ∅).connectBlock permissiveHost mainConsensus sampleHook (indexAt 1905120) (380 * COIN)).toOption.any
      (fun result => result.2 && decide (result.1.mDynamicRewards.lookup 1905120 = some (342 * COIN)) &&
        (result.1.disconnectBlock mainConsensus sqliteDone (indexAt 1905120)).2) = true by decide +kernel)
  simp only [Bool.and_eq_true, decide_eq_true_eq] at facts
  obtain ⟨⟨rfl, stored⟩, deleted⟩ := facts
  have disconnects : next.disconnectBlock mainConsensus sqliteDone (indexAt 1905120) = (_, true) := Prod.ext rfl deleted
  refine ⟨next, _, connects, stored, disconnects, ?_, ?_⟩
  · have settled : (start ∅).Settled permissiveHost mainConsensus sampleHook.node := by
      refine .inr ⟨fun k amount row => (by cases row), fun k member => ?_⟩
      obtain ⟨-, above, below⟩ := mem_gapEpochs.mp member
      exact absurd (lt_of_lt_of_le above below) (Nat.not_lt_zero _)
    exact ((rewards_restored_iff permissiveHost mainConsensus).1 (.start ∅) next _ sampleHook sqliteDone (indexAt 1905120)
      (380 * COIN) (by decide) connects disconnects).mpr ⟨settled, fun _ => ⟨rfl, fun _ _ _ _ _ => rfl⟩⟩
  · refine (rewards_restored_iff permissiveHost mainConsensus).2 ∅ next (.single (.connect sampleHook _ _ connects)) ?_
    obtain ⟨ready, inits, connects⟩ := connectBlock_ready connects
    exact (connectReady_initiated connects).trans (init_spec inits).1

/-- The first active block stores its mint as the epoch's reward, and disconnecting leaves the entry. -/
theorem connectBlock_leaves_epoch_entry : ∃ next last : CRewards,
      emptyRewards.connectBlock permissiveHost mainConsensus sampleHook (indexAt 1900001) (379 * COIN) = .ok (next, true) ∧
      next.disconnectBlock mainConsensus sqliteDone (indexAt 1900001) = (last, true) ∧
      emptyRewards.mDynamicRewards.lookup 1895040 = none ∧ emptyRewards.rewards.lookup 1895040 = none ∧
      last.mDynamicRewards.lookup 1895040 = some (379 * COIN) ∧ last.rewards.lookup 1895040 = some (379 * COIN) :=
  ⟨_, _, rfl, rfl, rfl, rfl, rfl, rfl⟩

end Peony
