import Mathlib.Logic.Relation
import Peony.Masternode.CoinSlice
import Peony.Stake.Depth

namespace Peony
open Consensus CollateralMaps Relation List

structure MnState where
  maps : CollateralMaps
  blocks : List CBlock

structure MnHook.Sees (hook : MnHook) (nHeight : Nat) (coins : FlatMap) : Prop where
  tip : hook.node.chainActive.height = nHeight
  coins : ∀ outpoint, coins outpoint = (hook.coins.lookup outpoint).bind Coin.unspent

variable (host : Host) (params : Params) (nBase : Nat) (base : FlatMap)
def chainCoins : List CBlock → FlatMap
  | [] => base
  | block :: blocks => (chainCoins blocks).applyTxs host (nBase + blocks.length + 1) block.vtx

/-- The calls along a chain, for the blocks that may be connected and disconnected. -/
inductive MnStep (mayConnect : MnState → MnHook → CBlock → Prop)
    (mayDisconnect : CollateralMaps → Int → CBlock → List CBlock → Prop) :
    MnState → MnState → Prop where
  | connect {state : MnState} (hook : MnHook) (pindex : CBlockIndex) {block : CBlock} {maps : CollateralMaps}
      (height : pindex.nHeight = nBase + state.blocks.length + 1)
      (sees : hook.Sees (nBase + state.blocks.length) (chainCoins host nBase base state.blocks))
      (allowed : mayConnect state hook block)
      (connects : state.maps.connectBlock host params hook pindex block = .ok maps) :
      MnStep mayConnect mayDisconnect state ⟨maps, block :: state.blocks⟩
  | disconnect {maps : CollateralMaps} (now : Int) (pindex : CBlockIndex) {block : CBlock} {rest : List CBlock}
      (height : pindex.nHeight = nBase + rest.length + 1)
      (allowed : mayDisconnect maps now block rest) :
      MnStep mayConnect mayDisconnect ⟨maps, block :: rest⟩ ⟨maps.disconnectBlock host params now pindex block, rest⟩

def InitAt (state : MnState) : Prop :=
  ∃ (old : CollateralMaps) (hook : MnHook), old.initiatedAt ≤ 0 ∧ old.init host params hook = .ok state.maps ∧
    hook.Sees (nBase + state.blocks.length) (chainCoins host nBase base state.blocks)

variable {maps : CollateralMaps}
variable (outputOf : COutPoint → CTxOut) (host : Host) (params : Params) (nCollateral : Int) (nBase : Nat) (base : FlatMap)
def Recorded (maps : CollateralMaps) (block : CBlock) (rest : List CBlock) : Prop :=
  SameCollaterals (maps.removedAt (nBase + rest.length + 1 : Nat))
    (connectCollaterals host params (nBase + rest.length + 1) (valueSlice nCollateral (chainCoins host nBase base rest)) block.vtx).2

/-- The index is the slice of the chain's coins, with undo data for every block above the last rebuild. -/
structure Follows (state : MnState) : Prop where
  initiated : 0 ≤ state.maps.initiatedAt
  tracks : SameCollaterals state.maps.coins (valueSlice nCollateral (chainCoins host nBase base state.blocks))
  records : ∀ block rest, block :: rest <:+ state.blocks → state.maps.initiatedAt < (nBase + rest.length + 1 : Nat) →
    Recorded host params nCollateral nBase base state.maps block rest
  rebuilt : ∀ block rest, block :: rest <:+ state.blocks → state.maps.initiatedAt = (nBase + rest.length + 1 : Nat) →
    (state.maps.removedAt (nBase + rest.length + 1 : Nat) = fun _ => none) ∨
      Recorded host params nCollateral nBase base state.maps block rest
  above : ∀ k : Nat, nBase + state.blocks.length < k → state.maps.removedAt k = fun _ => none

structure MayConnect (state : MnState) (_hook : MnHook) (block : CBlock) : Prop where
  plain : PlainBlock outputOf host nCollateral block
  parent : Steady params nCollateral (nBase + state.blocks.length)
  steady : Steady params nCollateral (nBase + state.blocks.length + 1)

/-- The block creates new outputs, spends no collateral of its own, and none at the height of the rebuild. -/
structure MayDisconnect (maps : CollateralMaps) (now : Int) (block : CBlock) (rest : List CBlock) : Prop where
  plain : PlainBlock outputOf host nCollateral block
  steady : Steady params nCollateral (nBase + rest.length + 1)
  fresh : ∀ tx ∈ block.vtx, ∀ n < tx.vout.length, chainCoins host nBase base rest ⟨host.getHash tx, n⟩ = none
  separate : ∀ tx ∈ block.vtx, ∀ n out, tx.vout[n]? = some out → out.nValue = nCollateral →
    ⟨host.getHash tx, n⟩ ∉ spentBy block.vtx
  recorded : (maps.wake now).initiatedAt = (nBase + rest.length + 1 : Nat) →
    ∀ outpoint ∈ spentBy block.vtx, valueSlice nCollateral (chainCoins host nBase base rest) outpoint = none

abbrev TrackedStep : MnState → MnState → Prop :=
  MnStep host params nBase base (MayConnect outputOf host params nCollateral nBase)
    (MayDisconnect outputOf host params nCollateral nBase base)

variable {outputOf host params nCollateral nBase base} in
lemma MayDisconnect.created {now block rest}
    (may : MayDisconnect outputOf host params nCollateral nBase base maps now block rest) (op)
    (created : createsCollateral host params (nBase + rest.length + 1) block.vtx op = true) :
    valueSlice nCollateral (chainCoins host nBase base rest) op = none ∧ op ∉ spentBy block.vtx := by
  obtain ⟨tx, mem, own, out, found, amt⟩ := createsCollateral_eq_true created
  rw [show op = ⟨host.getHash tx, op.n⟩ by rw [← own]]
  constructor
  · rw [valueSlice, may.fresh tx mem op.n (List.getElem?_eq_some_iff.mp found).1]
    rfl
  · exact may.separate tx mem op.n out found ((may.steady.isCollateralAmount_iff _).mp amt)

/-- Either the next block rebuilds the index, or the index follows the chain. -/
structure IndexInvariant (state : MnState) : Prop where
  ids : ∀ block ∈ state.blocks, ∀ tx ∈ block.vtx, NamesOutputs outputOf host tx
  follows : state.maps.initiatedAt < 0 ∨ Follows host params nCollateral nBase base state

variable {outputOf host params nCollateral nBase base}
lemma chainCoins_named {blocks} (named : CoinsNamed outputOf base)
    (ids : ∀ block ∈ blocks, ∀ tx ∈ block.vtx, NamesOutputs outputOf host tx) :
    CoinsNamed outputOf (chainCoins host nBase base blocks) := by
  induction blocks with
  | nil => exact named
  | cons block blocks ih =>
    exact (ih (forall_mem_cons.mp ids).2).applyTxs (ids _ (by simp))

variable {block : CBlock}
lemma connectCollaterals_slice {coins nHeight} (steady : Steady params nCollateral nHeight)
    (named : CoinsNamed outputOf coins) (plain : PlainBlock outputOf host nCollateral block) :
    SameCollaterals (connectCollaterals host params nHeight (valueSlice nCollateral coins) block.vtx).1
      (valueSlice nCollateral (coins.applyTxs host nHeight block.vtx)) := by
  rw [← steady.slice_eq, ← steady.slice_eq]
  exact applyCollateralTxs_same _ steady named plain.ids plain.spendable (.refl _)

variable {hook : MnHook}
lemma loaded_eq_slice {nHeight coins} (sees : hook.Sees nHeight coins) :
    (fun op => (hook.coins.lookup op).filter fun coin =>
      !coin.isSpent && isCollateralAmount params nHeight coin.out.nValue) = collateralSlice params nHeight coins := by
  funext op
  unfold collateralSlice
  rw [sees.coins]
  cases hook.coins.lookup _ with
  | none => rfl
  | some coin =>
    cases spent : coin.isSpent <;> simp [Option.filter, Coin.unspent, spent]

lemma rebuilt_follows {state} (rebuilt : Rebuilt params hook (nBase + state.blocks.length) state.maps)
    (steady : Steady params nCollateral (nBase + state.blocks.length))
    (sees : hook.Sees (nBase + state.blocks.length) (chainCoins host nBase base state.blocks)) :
    Follows host params nCollateral nBase base state := by
  have below : ∀ (block : CBlock) (rest : List CBlock), block :: rest <:+ state.blocks → rest.length + 1 ≤ state.blocks.length :=
    fun block rest suffix => suffix.length_le
  constructor
  · rw [rebuilt.initiatedAt]
    omega
  · rw [rebuilt.coins (by rw [steady.now]; exact steady.positive), loaded_eq_slice sees, steady.slice_eq]
    exact .refl _
  · intro block rest suffix later
    have short := below _ _ suffix
    rw [rebuilt.initiatedAt] at later
    omega
  · intro block rest suffix here
    exact .inl (rebuilt.removed _)
  · intro k high
    exact rebuilt.removed k

lemma ready_follows {state ready}
    (inv : IndexInvariant outputOf host params nCollateral nBase base state)
    (steady : Steady params nCollateral (nBase + state.blocks.length))
    (sees : hook.Sees (nBase + state.blocks.length) (chainCoins host nBase base state.blocks))
    (readies : state.maps.ready host params hook = .ok ready) :
    Follows host params nCollateral nBase base ⟨ready, state.blocks⟩ := by
  unfold CollateralMaps.ready at readies
  dsimp only at readies
  split at readies
  · have rebuilt := init_rebuilt sees.tip (by omega) readies
    exact rebuilt_follows rebuilt steady sees
  · cases readies
    have same := (state.maps.wake_initiatedAt hook.now).resolve_left (by omega)
    rcases inv.follows with stale | follows
    · omega
    · constructor
      · exact same ▸ follows.initiated
      · exact follows.tracks
      · intro block rest suffix later
        exact follows.records _ _ suffix (same ▸ later)
      · intro block rest suffix here
        exact follows.rebuilt _ _ suffix (same ▸ here)
      · exact follows.above

lemma connectReady_follows {blocks pindex}
    (height : pindex.nHeight = nBase + blocks.length + 1) (follows : Follows host params nCollateral nBase base ⟨maps, blocks⟩)
    (named : CoinsNamed outputOf (chainCoins host nBase base blocks))
    (steady : Steady params nCollateral (nBase + blocks.length + 1)) (plain : PlainBlock outputOf host nCollateral block) :
    Follows host params nCollateral nBase base ⟨maps.connectReady host params hook pindex block, block :: blocks⟩ := by
  have conn := connectReady_connected host params hook maps pindex block
  generalize maps.connectReady .. = next at conn
  have unused : maps.removedAt (pindex.nHeight : Int) = fun _ => none := follows.above _ (show nBase + blocks.length < _ by omega)
  have effect := applyCollateralTxs_congr host params pindex.nHeight block.vtx follows.tracks (.refl fun _ => none)
  have coins := conn.coins
  have gone := conn.removedAt
  rw [unused, height] at coins gone
  rw [height, ← coins, ← gone] at effect
  -- the blocks below keep their undo data, the one that is pruned aside
  have kept : ∀ k, k ≤ nBase + blocks.length → (k : Int) ≠ pindex.nHeight - DEFAULT_MAX_REORG_DEPTH →
      next.removedAt k = maps.removedAt k := by
    intro k low unpruned
    apply removedAt_congr
    rw [conn.otherRemoved k (by omega), if_neg unpruned]
  have started := conn.initiatedAt
  have suffixes : ∀ (other : CBlock) (rest : List CBlock), other :: rest <:+ block :: blocks →
      (other = block ∧ rest = blocks) ∨ (other :: rest <:+ blocks ∧ rest.length + 1 ≤ blocks.length) := by
    intro other rest suffix
    rcases suffix_cons_iff.mp suffix with whole | below
    · cases whole
      exact .inl ⟨rfl, rfl⟩
    · exact .inr ⟨below, below.length_le⟩
  constructor
  · have init : 0 ≤ maps.initiatedAt := follows.initiated
    change 0 ≤ next.initiatedAt
    omega
  · exact effect.1.trans (connectCollaterals_slice steady named plain)
  · intro other rest suffix later
    dsimp only at later
    rcases suffixes _ _ suffix with ⟨rfl, rfl⟩ | ⟨below, short⟩
    · exact effect.2
    · unfold Recorded
      rw [kept _ (by omega) (by omega)]
      exact follows.records _ _ below (show maps.initiatedAt < _ by omega)
  · intro other rest suffix here
    dsimp only at here
    rcases suffixes _ _ suffix with ⟨rfl, rfl⟩ | ⟨below, short⟩
    · exact .inr effect.2
    · by_cases pruned : ((nBase + rest.length + 1 : Nat) : Int) = pindex.nHeight - DEFAULT_MAX_REORG_DEPTH
      · left
        apply removedAt_eq_none
        rw [conn.otherRemoved _ (by omega), if_pos pruned]
      · unfold Recorded
        rw [kept _ (by omega) pruned]
        exact follows.rebuilt _ _ below (show maps.initiatedAt = _ by omega)
  · intro k high
    simp only [length_cons] at high
    have absent := follows.above k (show nBase + blocks.length < k by omega)
    exact conn.removedAt_above (by omega) absent

lemma Recorded.undo {now rest} (recorded : Recorded host params nCollateral nBase base maps block rest)
    (tracks : SameCollaterals maps.coins (valueSlice nCollateral (chainCoins host nBase base (block :: rest))))
    (named : CoinsNamed outputOf (chainCoins host nBase base rest))
    (may : MayDisconnect outputOf host params nCollateral nBase base maps now block rest) :
    SameCollaterals (fun op => (maps.removedAt (nBase + rest.length + 1 : Nat) op).or
      (if createsCollateral host params (nBase + rest.length + 1) block.vtx op then none else maps.coins op))
      (valueSlice nCollateral (chainCoins host nBase base rest)) := by
  have conn := tracks.trans (connectCollaterals_slice may.steady named may.plain).symm
  have restores := undo_restores _ (fun _ own => (may.created _ own).1) fun _ own => (may.created _ own).2
  rw [← restores]
  refine recorded.or fun op => ?_
  split
  · rfl
  · exact conn _

lemma disconnectBlock_follows {now pindex rest}
    (height : pindex.nHeight = nBase + rest.length + 1) (named : CoinsNamed outputOf (chainCoins host nBase base rest))
    (may : MayDisconnect outputOf host params nCollateral nBase base maps now block rest)
    (follows : Follows host params nCollateral nBase base ⟨maps, block :: rest⟩)
    (same : (maps.wake now).initiatedAt = maps.initiatedAt) (run : maps.initiatedAt ≤ pindex.nHeight) :
    Follows host params nCollateral nBase base ⟨maps.disconnectBlock host params now pindex block, rest⟩ := by
  have recorded : Recorded host params nCollateral nBase base maps block rest := by
    by_cases here : maps.initiatedAt = (nBase + rest.length + 1 : Nat)
    · rcases follows.rebuilt _ _ suffix_rfl here with unrecorded | recorded
      · unfold Recorded
        rw [unrecorded, undo_of_unspent _ _ (fun _ own => (may.created _ own).2) (may.recorded (same.trans here))]
        exact .refl _
      · exact recorded
    · exact follows.records _ _ suffix_rfl (show maps.initiatedAt < _ by omega)
  have back := recorded.undo follows.tracks named may
  have disc := disconnectBlock_disconnected host params block (same.trans_le run)
  generalize maps.disconnectBlock .. = next at disc
  have kept : ∀ k, k ≠ pindex.nHeight → next.removedAt k = maps.removedAt k := by
    intro k other
    apply removedAt_congr
    rw [disc.removed, if_neg (by omega)]
  have started := disc.initiatedAt.trans same
  constructor
  · exact started.symm ▸ follows.initiated
  · rw [disc.coins, height]
    exact back
  · intro other below suffix later
    have short : below.length + 1 ≤ rest.length := suffix.length_le
    unfold Recorded
    rw [kept _ (by omega)]
    exact follows.records _ _ (suffix.trans (suffix_cons ..)) (started ▸ later)
  · intro other below suffix here
    have short : below.length + 1 ≤ rest.length := suffix.length_le
    unfold Recorded
    rw [kept _ (by omega)]
    exact follows.rebuilt _ _ (suffix.trans (suffix_cons ..)) (started ▸ here)
  · intro k high
    by_cases own : k = pindex.nHeight
    · apply removedAt_eq_none
      rw [disc.removed, if_pos (by rw [own])]
    · rw [kept k own]
      exact follows.above k (by grind)

lemma MnStep.indexInvariant {state next} (named : CoinsNamed outputOf base)
    (step : TrackedStep outputOf host params nCollateral nBase base state next)
    (inv : IndexInvariant outputOf host params nCollateral nBase base state) :
    IndexInvariant outputOf host params nCollateral nBase base next := by
  have ids := inv.ids
  cases step with
  | connect hook pindex height sees may conn =>
    obtain ⟨ready, readies, -, -, rfl⟩ := connectBlock_eq_ok.mp conn
    refine ⟨?_, .inr ?_⟩
    · exact forall_mem_cons.mpr ⟨may.plain.ids, ids⟩
    · have follows := ready_follows inv may.parent sees readies
      exact connectReady_follows height follows (chainCoins_named named ids) may.steady may.plain
  | disconnect now pindex height may =>
    rename_i maps block rest
    have below : ∀ other ∈ rest, ∀ tx ∈ other.vtx, NamesOutputs outputOf host tx :=
      (forall_mem_cons.mp ids).2
    refine ⟨below, ?_⟩
    rcases maps.wake_initiatedAt now with idle | same
    · exact .inl (disconnectBlock_stale _ _ _ (by omega))
    · rcases inv.follows with stale | follows
      · exact .inl (disconnectBlock_stale _ _ _ (same.trans_lt stale))
      · by_cases run : maps.initiatedAt ≤ pindex.nHeight
        · exact .inr (disconnectBlock_follows height (chainCoins_named named below) may follows same run)
        · grind [disconnectBlock]

lemma run_indexInvariant {start final} (named : CoinsNamed outputOf base)
    (run : ReflTransGen (TrackedStep outputOf host params nCollateral nBase base) start final)
    (inv : IndexInvariant outputOf host params nCollateral nBase base start) :
    IndexInvariant outputOf host params nCollateral nBase base final := by
  induction run with
  | refl => exact inv
  | tail _ step ih => exact step.indexInvariant named ih

/-- The index of every run is the slice of the coins that `Init` would load. -/
theorem collateralIndex_eq_slice {start final : MnState} (named : CoinsNamed outputOf base)
    (ids : ∀ block ∈ start.blocks, ∀ tx ∈ block.vtx, NamesOutputs outputOf host tx)
    (steady : Steady params nCollateral (nBase + start.blocks.length)) (inits : InitAt host params nBase base start)
    (run : ReflTransGen (TrackedStep outputOf host params nCollateral nBase base) start final)
    (live : 0 ≤ final.maps.initiatedAt) (steady' : Steady params nCollateral (nBase + final.blocks.length)) :
    SameCollaterals final.maps.coins (collateralSlice params (nBase + final.blocks.length) (chainCoins host nBase base final.blocks)) ∧
      ∀ loaded, InitAt host params nBase base ⟨loaded, final.blocks⟩ → SameCollaterals final.maps.coins loaded.coins := by
  have opening : IndexInvariant outputOf host params nCollateral nBase base start := by
    obtain ⟨old, hook, stale, inits, sees⟩ := inits
    have rebuilt := init_rebuilt sees.tip stale inits
    exact ⟨ids, .inr (rebuilt_follows rebuilt steady sees)⟩
  have invariant := run_indexInvariant named run opening
  have tracks : SameCollaterals final.maps.coins
      (collateralSlice params (nBase + final.blocks.length) (chainCoins host nBase base final.blocks)) := by
    rw [steady'.slice_eq]
    rcases invariant.follows with waits | follows
    · omega
    · exact follows.tracks
  refine ⟨tracks, ?_⟩
  rintro loaded ⟨old, hook, stale, inits, sees⟩
  have rebuilt := init_rebuilt sees.tip stale inits
  rw [rebuilt.coins (by rw [steady'.now]; exact steady'.positive), loaded_eq_slice sees]
  exact tracks

def emptyMaps : CollateralMaps := ⟨-1, 0, ∅, ∅, ∅, ∅, ∅, ∅, []⟩

section
variable (nHeight : Nat) (coins : CoinMap)
def straightHook : MnHook where
  now := 0
  node := { emptyNode with chainActive := straightChain (nHeight + 1) }
  coins := coins
  mDynamicRewards := ∅

def MnHook.unspent (hook : MnHook) : FlatMap := fun outpoint => (hook.coins.lookup outpoint).bind Coin.unspent

lemma straightHook_sees : (straightHook nHeight coins).Sees nHeight (straightHook nHeight coins).unspent := by
  refine ⟨?_, fun _ => rfl⟩
  simp [straightHook, CChain.height, straightChain]
end

def firstCollateral : Coin := ⟨false, false, ⟨20000 * COIN, [1]⟩, 1⟩
def firstHook : MnHook := straightHook 2 ((∅ : CoinMap).insert ⟨5, 0⟩ firstCollateral)
def movingBlock : CBlock := blockAt 3 [coinbaseTx 10 0, paymentTx 11 [⟨5, 0⟩] [⟨20000 * COIN, [2]⟩]]

def sampleOutputs (outpoint : COutPoint) : CTxOut :=
  if outpoint.hash = 5 then ⟨20000 * COIN, [1]⟩ else if outpoint.hash = 11 then ⟨20000 * COIN, [2]⟩ else ⟨0, []⟩

lemma steady_low (nHeight) (pos : 0 < nHeight) (low : nHeight ≤ 100) : Steady mainConsensus (20000 * COIN) nHeight := by
  have week : mainConsensus.nBlocksPerWeek = 10080 := rfl
  refine ⟨by decide, ?_, ?_⟩
  · unfold getMasternodeNodeCollateral
    rw [if_neg (by omega), if_neg (by omega), if_neg (by omega), if_neg (by omega), if_pos (by omega)]
  · unfold getMasternodeNodeCollateral
    rw [if_neg (by omega), if_neg (by omega), if_neg (by omega), if_neg (by omega), if_pos (by omega)]

section
variable {outputOf : COutPoint → CTxOut}
lemma straightHook_named {nHeight coins}
    (names : ∀ entry ∈ coins.entries, entry.2.out = outputOf entry.1 ∧ entry.1.isNull = false) :
    CoinsNamed outputOf (straightHook nHeight coins).unspent := by
  intro op coin shown
  obtain ⟨entry, found, unspent⟩ := Option.bind_eq_some_iff.mp shown
  unfold Coin.unspent at unspent
  split at unspent
  · cases unspent
  · cases unspent
    exact names _ (AList.mem_lookup_iff.mp found)

lemma namesOutputs_single {host tx out}
    (shape : tx.vout = [out]) (name : outputOf ⟨host.getHash tx, 0⟩ = out) : NamesOutputs outputOf host tx := by
  constructor
  · intro n other found
    rw [shape] at found
    cases n with
    | zero =>
      cases found
      exact name
    | succ n => cases found
  · rw [shape, length_singleton]
    decide
end

lemma movingBlock_plain : PlainBlock sampleOutputs labelHost (20000 * COIN) movingBlock := by
  constructor
  · intro tx mem
    rcases mem_pair.mp mem with rfl | rfl
    · exact namesOutputs_single rfl (by decide)
    · exact namesOutputs_single rfl (by decide)
  · decide

lemma movingBlock_undoable (maps) (below : (maps.wake 0).initiatedAt = 2) :
    MayDisconnect sampleOutputs labelHost mainConsensus (20000 * COIN) 2 firstHook.unspent maps 0 movingBlock [] where
  plain := movingBlock_plain
  steady := steady_low 3 (by decide) (by decide)
  fresh := by decide +kernel
  separate := by
    intro tx mem n out found amt
    rcases mem_pair.mp mem with rfl | rfl
    · cases n <;> cases found
      cases amt
    · cases n <;> cases found
      decide
  recorded := by omega

def openedMaps : CollateralMaps := (emptyMaps.init labelHost mainConsensus firstHook).toOption.getD emptyMaps
def movedMaps : CollateralMaps := openedMaps.connectReady labelHost mainConsensus firstHook (indexAt 3) movingBlock

lemma openedMaps_init : InitAt labelHost mainConsensus 2 firstHook.unspent ⟨openedMaps, []⟩ :=
  ⟨emptyMaps, firstHook, by decide, rfl, straightHook_sees ..⟩

theorem collateralIndex_of_movingBlock : (movedMaps.disconnectBlock labelHost mainConsensus 0 (indexAt 3) movingBlock).initiatedAt = 2 ∧
    SameCollaterals (movedMaps.disconnectBlock labelHost mainConsensus 0 (indexAt 3) movingBlock).coins
      (collateralSlice mainConsensus 2 firstHook.unspent) := by
  have connects : TrackedStep sampleOutputs labelHost mainConsensus (20000 * COIN) 2 firstHook.unspent
      ⟨openedMaps, []⟩ ⟨movedMaps, [movingBlock]⟩ :=
    .connect firstHook (indexAt 3) rfl (straightHook_sees ..)
      ⟨movingBlock_plain, steady_low 2 (by decide) (by decide), steady_low 3 (by decide) (by decide)⟩ rfl
  have disconnects : TrackedStep sampleOutputs labelHost mainConsensus (20000 * COIN) 2 firstHook.unspent
      ⟨movedMaps, [movingBlock]⟩ ⟨movedMaps.disconnectBlock labelHost mainConsensus 0 (indexAt 3) movingBlock, []⟩ :=
    .disconnect 0 (indexAt 3) rfl (movingBlock_undoable movedMaps rfl)
  exact ⟨rfl, (collateralIndex_eq_slice (straightHook_named (by decide +kernel)) (by simp)
    (steady_low 2 (by decide) (by decide)) openedMaps_init
    (.tail (.single connects) disconnects) (by decide +kernel) (steady_low 2 (by decide) (by decide))).1⟩

def earlyCollateral : Coin := ⟨false, false, ⟨30000 * COIN, [1]⟩, 7⟩
def weekHook : MnHook := straightHook 89920 ((∅ : CoinMap).insert ⟨5, 0⟩ earlyCollateral)

def weekMaps : CollateralMaps :=
  { emptyMaps with
    initiatedAt := 89920
    mapPaidPayeesBlocks := (∅ : AssocMap CScript (List CBlockIndex)).insert [] [indexAt 89920]
    mapPaidPayeesHeight := (∅ : AssocMap Nat CScript).insert 89920 [] }

lemma init_of_nothing {host params} {hook : MnHook} {loaded} {nHeight : Nat}
    {pindex} (stale : maps.initiatedAt ≤ 0) (tip : hook.node.chainActive.height = nHeight)
    (index : hook.node.chainActive.index nHeight = some pindex)
    (scanned : loadCollaterals params hook nHeight maps.clear = loaded) (nothing : loaded.mapScriptCollaterals.entries.length = 0) :
    maps.init host params hook = .ok { loaded.registerPaidPayee ((hook.node.readBlockFromDisk host pindex).elim []
      (·.getPaidPayee (getMasternodePayment params hook.mDynamicRewards nHeight))) pindex nHeight with
        initiatedAt := nHeight, lastProcess := hook.now } := by
  unfold init
  rw [if_neg (by omega), tip]
  dsimp only
  rw [Int.toNat_natCast, scanned, nothing, Nat.sub_zero, List.range'_one]
  unfold loadPaidPayees
  rw [index]
  rfl

lemma weekHook_inits : emptyMaps.init labelHost mainConsensus weekHook = .ok weekMaps := by
  have tip : weekHook.node.chainActive.height = 89920 := (straightHook_sees _ _).tip
  have index : weekHook.node.chainActive.index 89920 = some (indexAt 89920) := by
    simp [weekHook, straightHook, CChain.index, straightChain]
  exact init_of_nothing (by decide) tip index rfl rfl

/-- An older output of the new amount belongs to the slice, and is not in the index. -/
theorem earlyCollateral_missing : ∃ final : MnState, InitAt labelHost mainConsensus 89920 weekHook.unspent ⟨weekMaps, []⟩ ∧
    MnStep labelHost mainConsensus 89920 weekHook.unspent (fun _ _ _ => True) (fun _ _ _ _ => True) ⟨weekMaps, []⟩ final ∧
    final.blocks = [blockAt 89921 [coinbaseTx 10 0]] ∧
    collateralSlice mainConsensus 89921 (chainCoins labelHost 89920 weekHook.unspent final.blocks) ⟨5, 0⟩ = some earlyCollateral ∧
    final.maps.coins ⟨5, 0⟩ = none := by
  refine ⟨⟨weekMaps.connectReady labelHost mainConsensus weekHook (indexAt 89921) (blockAt 89921 [coinbaseTx 10 0]),
    [blockAt 89921 [coinbaseTx 10 0]]⟩, ?_, ?_, rfl, ?_, ?_⟩
  · exact ⟨emptyMaps, weekHook, by decide, weekHook_inits, straightHook_sees ..⟩
  · exact .connect weekHook (indexAt 89921) rfl (straightHook_sees ..) trivial rfl
  · decide +kernel
  · decide +kernel

/-- In the week before a change the loop over the amounts erases the new one, at which it stands. -/
example : ({ weekMaps with mapCAmountCollaterals := (∅ : AssocMap Int _).insert (30000 * COIN) [⟨5, 0⟩] }).connectBlock
    labelHost mainConsensus weekHook (indexAt 89922) (blockAt 89922 [coinbaseTx 10 0]) = .error (.fault "kv") := rfl

def keyCollateral : Coin := ⟨false, false, ⟨20000 * COIN, 33 :: List.replicate 33 2 ++ [OP_CHECKSIG]⟩, 7⟩

/-- The script of a spent pay-to-public-key collateral is read after it was freed. -/
example : ({ weekMaps with mapCOutPointCollaterals := (∅ : CoinMap).insert ⟨5, 0⟩ keyCollateral }).connectBlock labelHost
    mainConsensus weekHook (indexAt 89921) (blockAt 89921 [coinbaseTx 10 0, ⟨1, [⟨⟨5, 0⟩, [], 0⟩], [], 11⟩]) =
      .error (.fault "scriptPubKey") := rfl

end Peony
