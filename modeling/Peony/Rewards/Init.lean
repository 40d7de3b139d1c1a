import Peony.Library.Except
import Peony.Chain.Node
import Peony.Rewards.Value

namespace Peony
open Int64Arith Consensus List

/-- The static members of `CRewards`, with the rows of its sqlite table. -/
structure CRewards where
  (fOpen initiated : Bool)
  (mDynamicRewards rewards : DynamicRewards)
  deriving DecidableEq

structure Sqlite where
  (fDirectory fPrepared : Bool)
  insertDone : Nat → Bool
  deleteDone : Nat → Bool

namespace CRewards

def start (rows : DynamicRewards) : CRewards := ⟨false, false, ∅, rows⟩

def store (sqlite : Sqlite) (state : CRewards) (nEpochHeight : Nat) (amount : Int) : CRewards :=
  { state with
    mDynamicRewards := state.mDynamicRewards.insert nEpochHeight amount
    rewards := if sqlite.insertDone nEpochHeight then state.rewards.insert nEpochHeight amount else state.rewards }

def load (state : CRewards) : CRewards :=
  { state with fOpen := true, mDynamicRewards := state.rewards.overlay some state.mDynamicRewards }

end CRewards

def subtractInputs (host : Host) (node : NodeState) (nSubsidy : Int) : List CTxIn → Except Failure Int
  | [] => .ok nSubsidy
  | txin :: vin =>
    match node.getTransaction host txin.prevout.hash with
    | none => subtractInputs host node nSubsidy vin
    | some (tx, _) =>
      match tx.vout[txin.prevout.n]? with
      | none => .error (.fault "tx.vout[outpoint.n]")
      | some out => subtractInputs host node (wrapInt64 (nSubsidy - out.nValue)) vin

/-- The gap fill's mint of a block: coinbase or coinstake, less the inputs. -/
def gapSubsidy (host : Host) (node : NodeState) (block : CBlock) : Except Failure Int :=
  match block.vtx[if block.isProofOfWork then 0 else 1]? with
  | none => .error (.fault "block.vtx[block.IsProofOfWork() ? 0 : 1]")
  | some tx => do
    let nSubsidy ← subtractInputs host node 0 tx.vin
    let nValueOut ← tx.getValueOut
    return wrapInt64 (nSubsidy + nValueOut)

/-- The epochs the gap fill visits. The activation epoch itself is not one of them. -/
def gapEpochs (params : Params) (nCurrentHeight : Nat) : List Nat :=
  let interval := params.nRewardAdjustmentInterval
  let first := params.getDynamicRewardsEpochHeight (params.vUpgrades .dynamicRewards).toNat + interval
  (List.range ((nCurrentHeight + interval - first) / interval)).map fun i => first + interval * i

/-- The loop with the `ok` flag of `Init`. The read of the null entry above the tip is not caught. -/
def fillGaps (host : Host) (node : NodeState) (sqlite : Sqlite) (state : CRewards) (ok : Bool) : List Nat →
    Except Failure (CRewards × Bool)
  | [] => .ok (state, ok)
  | nEpochHeight :: epochs =>
    if (state.mDynamicRewards.lookup nEpochHeight).isSome then fillGaps host node sqlite state ok epochs
    else match node.chainActive.index (nEpochHeight + 1) with
      | none => .error (.fault "ReadBlockFromDisk(block, nullptr)")
      | some pIndex =>
        match node.readBlockFromDisk host pIndex with
        | none => fillGaps host node sqlite state ok epochs
        | some block =>
          match gapSubsidy host node block with
          | .error (.fault what) => .error (.fault what)
          | .error _ => .ok (state, false)
          | .ok nSubsidy =>
            fillGaps host node sqlite (state.store sqlite nEpochHeight nSubsidy) (ok && sqlite.insertDone nEpochHeight)
              epochs

/-- Runs outside initial block download only, hence never in a reindex. -/
def CRewards.init (host : Host) (params : Params) (node : NodeState) (sqlite : Sqlite) (state : CRewards) :
    Except Failure (CRewards × Bool) :=
  if state.initiated then .ok (state, true)
  else if state.fOpen then .ok ({ state with initiated := true }, true)
  else if !sqlite.fDirectory then .ok (state, false)
  else if !sqlite.fPrepared then .ok ({ state with fOpen := true }, false)
  else do
    let (filled, ok) ← fillGaps host node sqlite state.load true (gapEpochs params node.chainActive.height.toNat)
    return ({ filled with initiated := ok }, ok)

variable {host : Host} {params : Params} {node : NodeState} {sqlite : Sqlite}
section
variable (host : Host) (node : NodeState) (nEpochHeight : Nat)
def GapValue (amount : Int) : Prop :=
  ∃ pIndex block, node.chainActive.index (nEpochHeight + 1) = some pIndex ∧
    node.readBlockFromDisk host pIndex = some block ∧ gapSubsidy host node block = .ok amount

def Unreadable : Prop :=
  ∃ pIndex, node.chainActive.index (nEpochHeight + 1) = some pIndex ∧ node.readBlockFromDisk host pIndex = none
end

namespace CRewards

def SameAt (before after : CRewards) (k : Nat) : Prop :=
  after.mDynamicRewards.lookup k = before.mDynamicRewards.lookup k ∧ after.rewards.lookup k = before.rewards.lookup k

def StoredAt (after : CRewards) (k : Nat) (amount : Int) : Prop :=
  after.mDynamicRewards.lookup k = some amount ∧ after.rewards.lookup k = some amount

lemma store_sameAt (sqlite : Sqlite) (state : CRewards) {nEpochHeight k} (amt) (other : k ≠ nEpochHeight) :
    state.SameAt (state.store sqlite nEpochHeight amt) k := by
  constructor
  · exact AList.lookup_insert_ne other
  · simp only [store]
    split
    · exact AList.lookup_insert_ne other
    · rfl

lemma store_storedAt (state : CRewards) {nEpochHeight : Nat} (amt)
    (done : sqlite.insertDone nEpochHeight = true) : (state.store sqlite nEpochHeight amt).StoredAt nEpochHeight amt := by
  constructor
  · exact AList.lookup_insert _
  · simp only [store, done, if_true]
    exact AList.lookup_insert _

structure GapsFilled (host : Host) (node : NodeState) (epochs : List Nat) (before after : CRewards) : Prop where
  entries : ∀ k, before.SameAt after k ∨
    before.mDynamicRewards.lookup k = none ∧ k ∈ epochs ∧ ∃ amount, GapValue host node k amount ∧ after.StoredAt k amount
  complete : ∀ k ∈ epochs, after.mDynamicRewards.lookup k = none → Unreadable host node k

lemma GapsFilled.kept {epochs pre after} (filled : GapsFilled host node epochs pre after)
    {k amt} (held : pre.mDynamicRewards.lookup k = some amt) : pre.SameAt after k := by
  rcases filled.entries k with same | ⟨absent, -⟩
  · exact same
  · grind

end CRewards

section
variable {state filled : CRewards} {ok : Bool} {epochs : List Nat}
  (fills : fillGaps host node sqlite state ok epochs = .ok (filled, true))
include fills

lemma fillGaps_ok : ok = true := by
  induction epochs generalizing state ok with
  | nil => cases fills; rfl
  | cons nEpochHeight epochs ih =>
    rw [fillGaps] at fills
    split at fills
    · exact ih fills
    · split at fills
      · cases fills
      · split at fills
        · exact ih fills
        · split at fills
          · cases fills
          · cases fills
          · have both := ih fills
            rw [Bool.and_eq_true] at both
            exact both.1

lemma fillGaps_spec : CRewards.GapsFilled host node epochs state filled := by
  induction epochs generalizing state ok with
  | nil =>
    cases fills
    exact ⟨fun k => .inl ⟨rfl, rfl⟩, fun k mem => absurd mem not_mem_nil⟩
  | cons nEpochHeight epochs ih =>
    -- a round that stores nothing leaves the rest of the loop to account for the entries
    have skip : ∀ ok, fillGaps host node sqlite state ok epochs = .ok (filled, true) →
        (filled.mDynamicRewards.lookup nEpochHeight = none → Unreadable host node nEpochHeight) →
        CRewards.GapsFilled host node (nEpochHeight :: epochs) state filled := by
      intro ok fills head
      have rest := ih fills
      refine ⟨fun k => ?_, fun k mem absent => ?_⟩
      · rcases rest.entries k with same | ⟨absent, mem, stored⟩
        · exact .inl same
        · exact .inr ⟨absent, mem_cons_of_mem _ mem, stored⟩
      · rcases mem_cons.mp mem with rfl | mem
        · exact head absent
        · exact rest.complete k mem absent
    rw [fillGaps] at fills
    split at fills
    · rename_i present
      obtain ⟨amt, held⟩ := Option.isSome_iff_exists.mp present
      refine skip ok fills fun absent => ?_
      rw [((ih fills).kept held).1, held] at absent
      cases absent
    · rename_i miss
      have absent : state.mDynamicRewards.lookup nEpochHeight = none := Option.not_isSome_iff_eq_none.mp miss
      split at fills
      · cases fills
      · rename_i pIndex atIndex
        split at fills
        · rename_i unread
          exact skip ok fills fun _ => ⟨_, atIndex, unread⟩
        · rename_i block read
          split at fills
          · cases fills
          · cases fills
          · rename_i nSubsidy minted
            have both := fillGaps_ok fills
            rw [Bool.and_eq_true] at both
            have stored := CRewards.store_storedAt state nSubsidy both.2
            have rest := ih fills
            have head : filled.StoredAt nEpochHeight nSubsidy := by
              obtain ⟨inMap, inTable⟩ := rest.kept stored.1
              exact ⟨inMap.trans stored.1, inTable.trans stored.2⟩
            refine ⟨fun k => ?_, fun k mem none => ?_⟩
            · by_cases own : k = nEpochHeight
              · subst own
                exact .inr ⟨absent, mem_cons_self, _, ⟨_, _, atIndex, read, minted⟩, head⟩
              · obtain ⟨inMap, inTable⟩ := CRewards.store_sameAt _ _ _ own
                rcases rest.entries k with ⟨sameMap, sameTable⟩ | ⟨pre, mem, found⟩
                · exact .inl ⟨sameMap.trans inMap, sameTable.trans inTable⟩
                · exact .inr ⟨inMap ▸ pre, mem_cons_of_mem _ mem, found⟩
            · rcases mem_cons.mp mem with rfl | mem
              · rw [head.1] at none
                cases none
              · exact rest.complete k mem none
end

lemma CRewards.init_spec {state ready : CRewards} (runs : state.init host params node sqlite = .ok (ready, true)) :
    ready.initiated = true ∧
      ((state.initiated = true ∨ state.fOpen = true) ∧ (∀ k, state.SameAt ready k) ∨
        (state.initiated = false ∧ state.fOpen = false) ∧
          GapsFilled host node (gapEpochs params node.chainActive.height.toNat) state.load ready) := by
  rw [CRewards.init] at runs
  split at runs
  · rename_i init
    cases runs
    exact ⟨init, .inl ⟨.inl init, fun _ => ⟨rfl, rfl⟩⟩⟩
  · rename_i fresh
    split at runs
    · rename_i opened
      cases runs
      exact ⟨rfl, .inl ⟨.inr opened, fun _ => ⟨rfl, rfl⟩⟩⟩
    · rename_i closed
      split at runs
      · cases runs
      · split at runs
        · cases runs
        · obtain ⟨⟨filled, ok⟩, fills, runs⟩ := Except.bind_eq_ok.mp runs
          cases runs
          have spec := fillGaps_spec fills
          exact ⟨rfl, .inr ⟨⟨by simpa using fresh, by simpa using closed⟩, spec.entries, spec.complete⟩⟩

lemma CRewards.lookup_load (state : CRewards) (k : Nat) :
    state.load.mDynamicRewards.lookup k = (state.rewards.lookup k).or (state.mDynamicRewards.lookup k) := by
  rw [load, AssocMap.lookup_overlay]
  cases state.rewards.lookup k <;> rfl

lemma mem_gapEpochs {nCurrentHeight k} : k ∈ gapEpochs params nCurrentHeight ↔ params.nRewardAdjustmentInterval ∣ k ∧
      params.getDynamicRewardsEpochHeight (params.vUpgrades .dynamicRewards).toNat < k ∧ k ≤ nCurrentHeight := by
  have pos := params.interval_pos
  have aligned := params.epochHeight_dvd (params.vUpgrades .dynamicRewards).toNat
  simp only [gapEpochs, mem_map, mem_range]
  generalize params.getDynamicRewardsEpochHeight _ = first at aligned
  generalize params.nRewardAdjustmentInterval = interval at pos aligned
  constructor
  · rintro ⟨i, small, rfl⟩
    have bound : (i + 1) * interval ≤ nCurrentHeight + interval - (first + interval) :=
      (Nat.le_div_iff_mul_le pos).mp small
    refine ⟨Nat.dvd_add (Nat.dvd_add aligned (Nat.dvd_refl _)) (Nat.dvd_mul_right _ _), by omega, ?_⟩
    have expand : (i + 1) * interval = interval * i + interval := by ring
    omega
  · rintro ⟨dvd, above, below⟩
    obtain ⟨j, distance⟩ := (Nat.dvd_sub dvd aligned)
    have later : 0 < j := by grind
    refine ⟨j - 1, ?_, ?_⟩
    · have expand : (j - 1 + 1) * interval = interval * j := by rw [Nat.sub_add_cancel later, Nat.mul_comm]
      apply (Nat.le_div_iff_mul_le pos).mpr
      change (j - 1 + 1) * interval ≤ _
      omega
    · have expand : interval * (j - 1) + interval = interval * j := by
        rw [← Nat.mul_succ, Nat.succ_eq_add_one, Nat.sub_add_cancel later]
      omega

end Peony
