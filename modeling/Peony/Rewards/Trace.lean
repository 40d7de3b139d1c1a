import Peony.Rewards.Reorg

namespace Peony
open Consensus Option

section
variable (host : Host) (node : NodeState)
def gapBlock (nEpochHeight : Nat) : Option CBlock :=
  (node.chainActive.index (nEpochHeight + 1)).bind (node.readBlockFromDisk host)

def firstGap (mDynamicRewards : DynamicRewards) (epochs : List Nat) : Option (Nat × CBlock) :=
  epochs.findSome? fun nEpochHeight =>
    if (mDynamicRewards.lookup nEpochHeight).isSome then none else (gapBlock host node nEpochHeight).map (nEpochHeight, ·)

variable {host : Host} {node : NodeState} {sqlite : Sqlite} {state filled : CRewards} {ok done : Bool} {epochs : List Nat}
  {nEpochHeight : Nat}
lemma fillGaps_cons (fills : fillGaps host node sqlite state ok (nEpochHeight :: epochs) = .ok (filled, done)) :
    ((state.mDynamicRewards.lookup nEpochHeight).isSome = true ∨ gapBlock host node nEpochHeight = none) ∧
        fillGaps host node sqlite state ok epochs = .ok (filled, done) ∨
      state.mDynamicRewards.lookup nEpochHeight = none ∧ ∃ block, gapBlock host node nEpochHeight = some block ∧
        ((∀ amt, gapSubsidy host node block ≠ .ok amt) ∧ filled = state ∧ done = false ∨
          ∃ amt, gapSubsidy host node block = .ok amt ∧
            fillGaps host node sqlite (state.store sqlite nEpochHeight amt) (ok && sqlite.insertDone nEpochHeight) epochs =
              .ok (filled, done)) := by
  rw [fillGaps] at fills
  split at fills
  · rename_i present
    exact .inl ⟨.inl present, fills⟩
  · rename_i miss
    have absent : state.mDynamicRewards.lookup nEpochHeight = none := not_isSome_iff_eq_none.mp miss
    split at fills
    · cases fills
    · rename_i pIndex atIndex
      split at fills
      · rename_i unread
        exact .inl ⟨.inr (by rw [gapBlock, atIndex, bind_some, unread]), fills⟩
      · rename_i block read
        apply Or.inr
        apply And.intro absent
        refine ⟨_, by rw [gapBlock, atIndex, bind_some, read], ?_⟩
        split at fills
        · cases fills
        · rename_i thrown
          cases fills
          refine .inl ⟨fun amt value => ?_, rfl, rfl⟩
          rw [thrown] at value
          cases value
        · rename_i amt value
          exact .inr ⟨_, value, fills⟩

lemma fillGaps_keeps {k amt} (fills : fillGaps host node sqlite state ok epochs = .ok (filled, done))
    (held : state.mDynamicRewards.lookup k = some amt) : state.SameAt filled k := by
  induction epochs generalizing state ok with
  | nil =>
    cases fills
    exact ⟨rfl, rfl⟩
  | cons nEpochHeight epochs ih =>
    rcases fillGaps_cons fills with ⟨-, rest⟩ | ⟨absent, block, -, ⟨-, rfl, -⟩ | ⟨value, -, rest⟩⟩
    · exact ih rest held
    · exact ⟨rfl, rfl⟩
    · have other : k ≠ nEpochHeight := by grind
      have stored := CRewards.store_sameAt sqlite state value other
      have kept := ih rest (stored.1.trans held)
      exact ⟨kept.1.trans stored.1, kept.2.trans stored.2⟩

section
variable {mDynamicRewards : DynamicRewards}
lemma firstGap_cons {epochs}
    (skipped : (mDynamicRewards.lookup nEpochHeight).isSome = true ∨ gapBlock host node nEpochHeight = none) :
    firstGap host node mDynamicRewards (nEpochHeight :: epochs) = firstGap host node mDynamicRewards epochs := by
  unfold firstGap
  rw [List.findSome?_cons]
  rcases skipped with present | unread
  · rw [if_pos present]
  · grind

lemma firstGap_here {block epochs}
    (absent : mDynamicRewards.lookup nEpochHeight = none) (read : gapBlock host node nEpochHeight = some block) :
    firstGap host node mDynamicRewards (nEpochHeight :: epochs) = some (nEpochHeight, block) := by
  unfold firstGap
  rw [List.findSome?_cons, absent, read]
  rfl

variable (fills : fillGaps host node sqlite state ok epochs = .ok (filled, done))
include fills

lemma fillGaps_stores {k block amt}
    (gap : firstGap host node state.mDynamicRewards epochs = some (k, block)) (value : gapSubsidy host node block = .ok amt) :
    state.mDynamicRewards.lookup k = none ∧ filled.mDynamicRewards.lookup k = some amt := by
  induction epochs generalizing state ok with
  | nil => cases gap
  | cons nEpochHeight epochs ih =>
    rcases fillGaps_cons fills with ⟨skipped, rest⟩ | ⟨absent, own, read, outcome⟩
    · rw [firstGap_cons skipped] at gap
      exact ih rest gap
    · rw [firstGap_here absent read] at gap
      cases gap
      rcases outcome with ⟨throws, -, -⟩ | ⟨stored, same, rest⟩
      · exact absurd value (throws _)
      · cases same.symm.trans value
        have held : (state.store sqlite k amt).mDynamicRewards.lookup k = some amt := AList.lookup_insert _
        exact ⟨absent, (fillGaps_keeps rest held).1.trans held⟩

lemma fillGaps_idle (worthless : ∀ k block amt, firstGap host node state.mDynamicRewards epochs = some (k, block) →
      gapSubsidy host node block ≠ .ok amt) : filled = state := by
  induction epochs generalizing state ok with
  | nil =>
    cases fills
    rfl
  | cons nEpochHeight epochs ih =>
    rcases fillGaps_cons fills with ⟨skipped, rest⟩ | ⟨absent, own, read, ⟨-, same, -⟩ | ⟨amt, value, -⟩⟩
    · rw [firstGap_cons skipped] at worthless
      exact ih rest worthless
    · exact same
    · exact absurd value (worthless _ _ _ (firstGap_here absent read))
end

lemma fillGaps_done_iff (dist : epochs.Nodup) (fills : fillGaps host node sqlite state ok epochs = .ok (filled, done)) :
    done = true ↔ ok = true ∧ ∀ k ∈ epochs, state.mDynamicRewards.lookup k = none → ∀ block, gapBlock host node k = some block →
      sqlite.insertDone k = true ∧ ∃ amt, gapSubsidy host node block = .ok amt := by
  induction epochs generalizing state ok with
  | nil =>
    cases fills
    simp
  | cons nEpochHeight epochs ih =>
    obtain ⟨outside, dist⟩ := List.nodup_cons.mp dist
    rcases fillGaps_cons fills with ⟨skipped, rest⟩ | ⟨absent, own, read, ⟨throws, -, rfl⟩ | ⟨amt, value, rest⟩⟩
    · rw [ih dist rest, List.forall_mem_cons]
      apply and_congr_right
      intro _
      refine (and_iff_right ?_).symm
      intro absent block read
      rcases skipped with present | unread
      · rw [absent] at present
        cases present
      · rw [unread] at read
        cases read
    · constructor
      · intro never
        cases never
      · rintro ⟨-, each⟩
        obtain ⟨amt, value⟩ := (each _ List.mem_cons_self absent _ read).2
        exact absurd value (throws _)
    · rw [ih dist rest, List.forall_mem_cons, Bool.and_eq_true, and_assoc]
      apply and_congr_right
      intro _
      refine and_congr ⟨fun inserted _ block found => ?_, fun each => (each absent _ read).1⟩ (forall₂_congr fun k mem => ?_)
      · cases found.symm.trans read
        exact ⟨inserted, _, value⟩
      · have other : k ≠ nEpochHeight := fun same => outside (same ▸ mem)
        rw [(CRewards.store_sameAt _ _ _ other).1]

lemma gapEpochs_nodup {params nCurrentHeight} : (gapEpochs params nCurrentHeight).Nodup := by
  apply List.Nodup.map _ List.nodup_range
  intro i j same
  have pos := params.interval_pos
  exact Nat.eq_of_mul_eq_mul_left pos (Nat.add_left_cancel same)
end

namespace CRewards

def Same (before after : CRewards) : Prop := ∀ k, before.SameAt after k

def readsTable (sqlite : Sqlite) (state : CRewards) : Bool :=
  !state.initiated && !state.fOpen && sqlite.fDirectory && sqlite.fPrepared

variable (host : Host) (params : Params) (node : NodeState) (sqlite : Sqlite)
/-- Table and gaps bring nothing new, the epochs in `own` aside. -/
def NothingToRead (own : Nat → Prop) (state : CRewards) : Prop :=
  state.readsTable sqlite = true →
    (∀ k amount, ¬ own k → state.rewards.lookup k = some amount → state.mDynamicRewards.lookup k = some amount) ∧
      ∀ k block amount, firstGap host node state.load.mDynamicRewards (gapEpochs params node.chainActive.height.toNat) = some (k, block) →
        gapSubsidy host node block ≠ .ok amount

/-- The directory or a statement is missing, or some gap has no value or no row. -/
def InitFails (state : CRewards) : Prop :=
  state.initiated = false ∧ state.fOpen = false ∧
    (sqlite.fDirectory = false ∨ sqlite.fPrepared = false ∨
      ∃ k ∈ gapEpochs params node.chainActive.height.toNat, state.load.mDynamicRewards.lookup k = none ∧
        ∃ block, gapBlock host node k = some block ∧
          ¬ (sqlite.insertDone k = true ∧ ∃ amount, gapSubsidy host node block = .ok amount))

def Refused (host : Host) (params : Params) (hook : Hook) (ready : CRewards) (pindex : CBlockIndex) (nSubsidy amount : Int) : Prop :=
  params.networkUpgradeActive pindex.nHeight .dynamicRewards = true ∧
    ready.newSubsidy host params hook.inputs pindex nSubsidy = .ok amount ∧ 0 < amount ∧
      hook.sqlite.insertDone (params.getDynamicRewardsEpochHeight pindex.nHeight) = false

section
variable {host : Host} {params : Params} {node : NodeState} {sqlite : Sqlite} {state ready : CRewards} {ok : Bool}
section
variable (runs : state.init host params node sqlite = .ok (ready, ok))
include runs

lemma init_cases : state.readsTable sqlite = false ∧ state.Same ready ∧
        (ok = false ↔ state.initiated = false ∧ state.fOpen = false ∧ (sqlite.fDirectory = false ∨ sqlite.fPrepared = false)) ∨
      (state.initiated = false ∧ state.fOpen = false ∧ sqlite.fDirectory = true ∧ sqlite.fPrepared = true) ∧
        ∃ filled, fillGaps host node sqlite state.load true (gapEpochs params node.chainActive.height.toNat) = .ok (filled, ok) ∧
          ready = { filled with initiated := ok } := by
  unfold readsTable
  rw [init] at runs
  split at runs
  · rename_i initiated
    cases runs
    exact .inl ⟨by simp [initiated], fun _ => ⟨rfl, rfl⟩, by simp [initiated]⟩
  · rename_i fresh
    rw [Bool.not_eq_true] at fresh
    split at runs
    · rename_i opened
      cases runs
      exact .inl ⟨by simp [opened], fun _ => ⟨rfl, rfl⟩, by simp [opened]⟩
    · rename_i closed
      rw [Bool.not_eq_true] at closed
      split at runs
      · rename_i miss
        cases runs
        rw [Bool.not_eq_true'] at miss
        exact .inl ⟨by simp [miss], fun _ => ⟨rfl, rfl⟩, by simp [fresh, closed, miss]⟩
      · rename_i present
        split at runs
        · rename_i unprepared
          cases runs
          rw [Bool.not_eq_true'] at unprepared
          exact .inl ⟨by simp [unprepared], fun _ => ⟨rfl, rfl⟩, by grind⟩
        · rename_i prepared
          obtain ⟨⟨filled, done⟩, fills, runs⟩ := Except.bind_eq_ok.mp runs
          cases runs
          exact .inr ⟨⟨fresh, closed, by simpa using present, by simpa using prepared⟩, _, fills, rfl⟩

lemma init_failed_iff : ok = false ↔ state.InitFails host params node sqlite := by
  unfold InitFails
  rcases init_cases runs with ⟨unread, -, failed⟩ | ⟨⟨fresh, closed, present, prepared⟩, filled, fills, -⟩
  · rw [failed]
    refine and_congr_right fun fresh => and_congr_right fun closed => ?_
    rw [readsTable, fresh, closed] at unread
    rcases Bool.and_eq_false_iff.mp unread with miss | miss
    · have miss : sqlite.fDirectory = false := by simpa using miss
      simp [miss]
    · simp [miss]
  · have done := fillGaps_done_iff (gapEpochs_nodup) fills
    rw [← Bool.not_eq_true, done]
    simp only [fresh, closed, present, prepared, true_and, Bool.true_eq_false, false_or]
    push Not
    rfl
end

lemma init_same_iff {own} (held : ∀ k, own k → (state.mDynamicRewards.lookup k).isSome = true)
    (runs : state.init host params node sqlite = .ok (ready, ok)) :
    (∀ k, ¬ own k → state.SameAt ready k) ↔ state.NothingToRead host params node sqlite own := by
  rcases init_cases runs with ⟨unread, same, -⟩ | ⟨⟨fresh, closed, present, prepared⟩, filled, fills, rfl⟩
  · constructor
    · intro _ reads
      rw [unread] at reads
      cases reads
    · intro _ k _
      exact same k
  · have reads : state.readsTable sqlite = true := by simp [readsTable, fresh, closed, present, prepared]
    constructor
    · intro same _
      constructor
      · intro k amt other row
        have loaded : state.load.mDynamicRewards.lookup k = some amt := by rw [lookup_load, row, some_or]
        rw [← (same k other).1]
        exact (fillGaps_keeps fills loaded).1.trans loaded
      · intro k block amt gap value
        obtain ⟨absent, stored⟩ := fillGaps_stores fills gap value
        rw [lookup_load, or_eq_none_iff] at absent
        have other : ¬ own k := by
          intro ins
          have present := held k ins
          rw [absent.2] at present
          cases present
        have kept := (same k other).1
        rw [absent.2] at kept
        cases kept.symm.trans stored
    · intro nothing k other
      obtain ⟨rows, worthless⟩ := nothing reads
      rw [fillGaps_idle fills worthless]
      refine ⟨?_, rfl⟩
      rw [lookup_load]
      cases row : state.rewards.lookup k with
      | none => rfl
      | some amt => exact (rows k _ other row).symm
end

variable {host : Host} {params : Params} {hook : Hook} {pindex : CBlockIndex} {nSubsidy : Int} {state ready next : CRewards}
lemma connectReady_refused (fails : ready.connectReady host params hook pindex nSubsidy = .ok (next, false)) :
    ∃ amt, ready.Refused host params hook pindex nSubsidy amt ∧
      next = ready.store hook.sqlite (params.getDynamicRewardsEpochHeight pindex.nHeight) amt := by
  unfold connectReady at fails
  split at fails
  · rename_i active
    obtain ⟨amt, value, fails⟩ := Except.bind_eq_ok.mp fails
    split at fails
    · rename_i pos
      have both := Prod.mk.inj (Except.ok.inj fails)
      exact ⟨_, ⟨active, value, pos, both.2⟩, both.1.symm⟩
    · cases fails
  · cases fails

/-- The hook fails only where it has nothing to write. -/
structure FailsClean (host : Host) (params : Params) (hook : Hook) (state : CRewards) (pindex : CBlockIndex)
    (nSubsidy : Int) : Prop where
  init : ∀ ready ok, state.init host params hook.node hook.sqlite = .ok (ready, ok) →
    state.InitFails host params hook.node hook.sqlite → state.NothingToRead host params hook.node hook.sqlite fun _ => False
  insert : ∀ ready amount, state.init host params hook.node hook.sqlite = .ok (ready, true) →
    ready.Refused host params hook pindex nSubsidy amount →
      state.mDynamicRewards.lookup (params.getDynamicRewardsEpochHeight pindex.nHeight) = some amount ∧
        state.NothingToRead host params hook.node hook.sqlite (· = params.getDynamicRewardsEpochHeight pindex.nHeight)

lemma refused_same_iff {amt} (runs : state.init host params hook.node hook.sqlite = .ok (ready, true))
    (bad : ready.Refused host params hook pindex nSubsidy amt) :
    state.Same (ready.store hook.sqlite (params.getDynamicRewardsEpochHeight pindex.nHeight) amt) ↔
      state.mDynamicRewards.lookup (params.getDynamicRewardsEpochHeight pindex.nHeight) = some amt ∧
        state.NothingToRead host params hook.node hook.sqlite (· = params.getDynamicRewardsEpochHeight pindex.nHeight) := by
  obtain ⟨-, -, -, bad⟩ := bad
  generalize params.getDynamicRewardsEpochHeight _ = nEpochHeight at bad
  have stored : (ready.store hook.sqlite nEpochHeight amt).mDynamicRewards.lookup nEpochHeight = some amt := AList.lookup_insert _
  have rows : (ready.store hook.sqlite nEpochHeight amt).rewards = ready.rewards := by simp [store, bad]
  have away : ∀ k, k ≠ nEpochHeight → (state.SameAt (ready.store hook.sqlite nEpochHeight amt) k ↔ state.SameAt ready k) := by
    intro k other
    have kept := store_sameAt hook.sqlite ready amt other
    rw [SameAt, SameAt, kept.1, kept.2]
  constructor
  · intro same
    have held := (same _).1.symm.trans stored
    have present : ∀ k, k = nEpochHeight → (state.mDynamicRewards.lookup k).isSome = true := by grind
    apply And.intro held
    rw [← init_same_iff present runs]
    exact fun k other => (away k other).mp (same k)
  · rintro ⟨held, nothing⟩
    have present : ∀ k, k = nEpochHeight → (state.mDynamicRewards.lookup k).isSome = true := by grind
    rw [← init_same_iff present runs] at nothing
    intro k
    by_cases own : k = nEpochHeight
    · subst own
      refine ⟨stored.trans held.symm, ?_⟩
      rw [rows]
      -- `Init` writes rows for gaps only, and the map holds this epoch
      rcases init_cases runs with ⟨-, same, -⟩ | ⟨-, filled, fills, rfl⟩
      · exact (same k).2
      · cases row : state.load.mDynamicRewards.lookup k with
        | none =>
          rw [lookup_load, or_eq_none_iff, held] at row
          cases row.2
        | some _ => exact (fillGaps_keeps fills row).2
    · exact (away k own).mpr (nothing k own)

lemma connectReady_of_refused {amt} (bad : ready.Refused host params hook pindex nSubsidy amt) :
    ready.connectReady host params hook pindex nSubsidy =
      .ok (ready.store hook.sqlite (params.getDynamicRewardsEpochHeight pindex.nHeight) amt, false) := by
  obtain ⟨active, value, pos, miss⟩ := bad
  rw [connectReady, if_pos active, value]
  change (if 0 < amt then _ else _) = _
  rw [if_pos pos, miss]

lemma failsClean_iff : (∀ next, state.connectBlock host params hook pindex nSubsidy = .ok (next, false) → state.Same next) ↔
    state.FailsClean host params hook pindex nSubsidy := by
  constructor
  · intro unchanged
    constructor
    · intro ready ok runs fails
      cases (init_failed_iff runs).mpr fails
      have same : state.Same ready := by
        apply unchanged
        rw [connectBlock, runs]
        rfl
      exact (init_same_iff (fun _ never => absurd never id) runs).mp fun k _ => same k
    · intro ready amt runs bad
      rw [← refused_same_iff runs bad]
      apply unchanged
      rw [connectBlock, runs]
      exact connectReady_of_refused bad
  · intro clean next fails
    obtain ⟨⟨ready, ok⟩, runs, fails⟩ := Except.bind_eq_ok.mp fails
    cases ok with
    | false =>
      cases fails
      intro k
      exact (init_same_iff (fun _ never => absurd never id) runs).mpr (clean.init _ _ runs ((init_failed_iff runs).mp rfl)) k id
    | true =>
      obtain ⟨amt, bad, rfl⟩ := connectReady_refused fails
      exact (refused_same_iff runs bad).mpr (clean.insert _ _ runs bad)

end CRewards

end Peony
