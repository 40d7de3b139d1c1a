import Peony.Masternode.Consistency

namespace Peony
open Consensus Relation CollateralMaps AList

/-- The call that connects the block, and the time of the one that disconnects it. -/
structure ReorgCall where
  hook : MnHook
  pindex : CBlockIndex
  block : CBlock
  now : Int

section
variable (nHeight : Nat)
def unpaid (paidAt : Option CScript) (blocks : CScript → Option (List CBlockIndex)) (script : CScript) : Option (List CBlockIndex) :=
  if paidAt = some script then
    if ((blocks script).getD []).dropLast.isEmpty then none else some ((blocks script).getD []).dropLast
  else blocks script

lemma unregisterPaidPayee_lookup (maps : CollateralMaps) :
    (∀ script, (maps.unregisterPaidPayee nHeight).mapPaidPayeesBlocks.lookup script =
      unpaid (maps.mapPaidPayeesHeight.lookup nHeight) (fun script => maps.mapPaidPayeesBlocks.lookup script) script) ∧
    ∀ k, (maps.unregisterPaidPayee nHeight).mapPaidPayeesHeight.lookup k =
      if k = nHeight then none else maps.mapPaidPayeesHeight.lookup k := by
  unfold unregisterPaidPayee unpaid
  cases found : maps.mapPaidPayeesHeight.lookup _ with
  | none => grind
  | some payee =>
    constructor
    · intro script
      by_cases own : script = payee
      · cases own
        simp only [if_true]
        split
        · exact lookup_erase ..
        · exact lookup_insert ..
      · have other : payee ≠ script := fun same => own same.symm
        simp only [Option.some.injEq, other, if_false]
        split
        · exact lookup_erase_ne own
        · exact lookup_insert_ne own
    · intro k
      exact AssocMap.lookup_erase_ite ..

section
variable {maps : CollateralMaps} (below : PaidBelow nHeight maps)
include below

lemma unpaid_of_below : maps.mapPaidPayeesHeight.lookup (nHeight + 1) = none := by
  cases found : maps.mapPaidPayeesHeight.lookup _ with
  | none => rfl
  | some script => exact absurd (below.heights _ _ found) (by omega)

lemma unpaid_registerPaidPayee (paidPayee pindex) :
    let registered := maps.registerPaidPayee paidPayee pindex (nHeight + 1)
    (∀ script, unpaid (registered.mapPaidPayeesHeight.lookup (nHeight + 1))
      (fun script => registered.mapPaidPayeesBlocks.lookup script) script = maps.mapPaidPayeesBlocks.lookup script) ∧
    ∀ k, (if k = nHeight + 1 then none else registered.mapPaidPayeesHeight.lookup k) = maps.mapPaidPayeesHeight.lookup k := by
  intro registered
  have absent := unpaid_of_below _ below
  constructor
  · intro script
    have paidAt : registered.mapPaidPayeesHeight.lookup (nHeight + 1) = some paidPayee := lookup_insert ..
    unfold unpaid
    rw [paidAt]
    by_cases own : paidPayee = script
    · cases own
      have blocks : registered.mapPaidPayeesBlocks.lookup paidPayee =
          some ((maps.mapPaidPayeesBlocks.lookup paidPayee).getD [] ++ [pindex]) := lookup_insert ..
      simp only [if_true, blocks, Option.getD_some, List.dropLast_concat]
      cases found : maps.mapPaidPayeesBlocks.lookup _ with
      | none => rfl
      | some earlier =>
        have some : earlier.isEmpty = false := by simpa using below.blocks _ _ found
        simp [some]
    · rw [if_neg (by simpa using own)]
      exact lookup_insert_ne fun same => own same.symm
  · intro k
    by_cases own : k = nHeight + 1
    · rw [if_pos own, own, absent]
    · rw [if_neg own]
      exact lookup_insert_ne own
end

lemma payees_restored {host : Host} {params hook} {maps connected top : CollateralMaps} {pindex block}
    (height : pindex.nHeight = nHeight + 1) (below : PaidBelow nHeight maps)
    (conn : Connected host params hook maps pindex block connected)
    (blocks : ∀ script, top.mapPaidPayeesBlocks.lookup script = connected.mapPaidPayeesBlocks.lookup script)
    (heights : ∀ k, top.mapPaidPayeesHeight.lookup k = connected.mapPaidPayeesHeight.lookup k) :
    (∀ script, (top.unregisterPaidPayee pindex.nHeight).mapPaidPayeesBlocks.lookup script =
      maps.mapPaidPayeesBlocks.lookup script) ∧
    ∀ k, (top.unregisterPaidPayee pindex.nHeight).mapPaidPayeesHeight.lookup k = maps.mapPaidPayeesHeight.lookup k := by
  obtain ⟨undoneBlocks, undoneHeights⟩ := unregisterPaidPayee_lookup pindex.nHeight top
  obtain ⟨paidBlocks, paidHeights⟩ := conn.paid
  simp only [undoneBlocks, undoneHeights, blocks, heights, paidBlocks, paidHeights]
  rw [height]
  split
  · have absent := unpaid_of_below _ below
    constructor
    · intro script
      rw [absent]
      rfl
    · intro k
      by_cases own : k = nHeight + 1
      · rw [if_pos own, own, absent]
      · rw [if_neg own]
  · exact unpaid_registerPaidPayee _ below _ _
end
section
variable (outputOf : COutPoint → CTxOut) {host : Host} {params : Params} {hook : MnHook} {nHeight : Nat}
  {maps connected : CollateralMaps}

structure Settled (nHeight : Nat) (maps : CollateralMaps) : Prop where
  agrees : Agrees outputOf maps
  above : ∀ k : Int, nHeight < k → maps.removedAt k = fun _ => none
  initiated : 0 ≤ maps.initiatedAt
  reached : maps.initiatedAt ≤ nHeight
  paid : PaidBelow nHeight maps

variable {outputOf}
lemma Settled.wake (done : Settled outputOf nHeight maps) {now}
    (same : (maps.wake now).initiatedAt = maps.initiatedAt) : Settled outputOf nHeight (maps.wake now) := by
  have agrees := done.agrees
  refine ⟨agrees.of_same rfl rfl rfl agrees.removed, done.above, ?_, ?_, ?_⟩
  · exact same ▸ done.initiated
  · exact same ▸ done.reached
  · exact ⟨done.paid.heights, done.paid.blocks⟩

section
variable (names : HookNamed outputOf hook) (tip : hook.node.chainActive.height = nHeight)
include names tip

lemma init_settled
    (stale : maps.initiatedAt ≤ 0) (inits : maps.init host params hook = .ok conn) : Settled outputOf nHeight conn := by
  have rebuilt := init_rebuilt tip stale inits
  refine ⟨init_agrees names stale inits, fun k _ => rebuilt.removed k, ?_, ?_, rebuilt.paid⟩
  · rw [rebuilt.initiatedAt]
    omega
  · rw [rebuilt.initiatedAt]

lemma ready_settled (done : Settled outputOf nHeight maps) (readies : maps.ready host params hook = .ok conn) :
    Settled outputOf nHeight conn := by
  unfold ready at readies
  dsimp only at readies
  split at readies
  · exact init_settled names tip (by omega) readies
  · cases readies
    exact done.wake ((maps.wake_initiatedAt _).resolve_left (by omega))
end

variable {pindex : CBlockIndex} {block : CBlock} (height : pindex.nHeight = nHeight + 1)
include height

lemma connected_paidBelow (below : PaidBelow nHeight maps) (conn : Connected host params hook maps pindex block connected) :
    PaidBelow (nHeight + 1) connected := by
  have wider : PaidBelow (nHeight + 1) maps := by
    refine ⟨fun k script found => ?_, below.blocks⟩
    have low := below.heights k _ found
    omega
  obtain ⟨blocks, heights⟩ := conn.paid
  split at blocks
  · rename_i empty
    rw [if_pos empty] at heights
    exact ⟨by rw [heights]; exact wider.heights, by rw [blocks]; exact wider.blocks⟩
  · rename_i payee
    rw [if_neg payee] at heights
    have registered := registerPaidPayee_paidBelow wider
      (block.getPaidPayee (getMasternodePayment params hook.mDynamicRewards pindex.nHeight)) pindex height.le
    exact ⟨by rw [heights]; exact registered.heights, by rw [blocks]; exact registered.blocks⟩

lemma connectReady_settled (done : Settled outputOf nHeight maps) (ids : ∀ tx ∈ block.vtx, NamesOutputs outputOf host tx)
    (sole : SpendsSole host params (nHeight + 1) maps.coins block.vtx) :
    Settled outputOf (nHeight + 1) (maps.connectReady host params hook pindex block) := by
  have agrees : Agrees outputOf (maps.connectReady host params hook pindex block) :=
    connectReady_agrees done.agrees ids (height ▸ sole)
  have conn := connectReady_connected host params hook maps pindex block
  have started := conn.initiatedAt
  have initiated := done.initiated
  have reached := done.reached
  unfold DEFAULT_MAX_REORG_DEPTH at started
  refine ⟨agrees, ?_, by omega, by omega, connected_paidBelow height done.paid conn⟩
  intro k high
  exact conn.removedAt_above (by omega) (done.above k (by omega))
end

variable (outputOf : COutPoint → CTxOut) (host : Host) (params : Params)
def roundTrip : List ReorgCall → CollateralMaps → Except Failure CollateralMaps
  | [], maps => .ok maps
  | call :: calls, maps => do
    let connected ← maps.connectBlock host params call.hook call.pindex call.block
    let top ← roundTrip calls connected
    return top.disconnectBlock host params call.now call.pindex call.block

/-- Connected within an hour of the last call, without a fault, and with new collaterals that it does not spend, no two on
one script. -/
structure BlockUndoable (nHeight : Nat) (maps : CollateralMaps) (call : ReorgCall) : Prop where
  height : call.pindex.nHeight = nHeight + 1
  prompt : call.hook.now ≤ maps.lastProcess + HOUR_IN_SECONDS
  ids : ∀ tx ∈ call.block.vtx, NamesOutputs outputOf host tx
  fresh : ∀ outpoint, createsCollateral host params (nHeight + 1) call.block.vtx outpoint = true → maps.coins outpoint = none
  separate : ∀ outpoint, createsCollateral host params (nHeight + 1) call.block.vtx outpoint = true →
    outpoint ∉ spentBy call.block.vtx
  distinct : ∀ before after, call.block.vtx = before ++ after →
    DistinctScripts (connectCollaterals host params (nHeight + 1) maps.coins before).1
  keeps : ∀ nValue ∈ maps.mapCAmountCollaterals.keys, keepsAmount params (nHeight + 1) nValue = true
  inline : ∀ script, SpendsScript host params (nHeight + 1) maps.coins call.block.vtx script → script.length ≤ CScriptBase.N

def Undoable : Nat → CollateralMaps → List ReorgCall → Prop
  | _, _, [] => True
  | nHeight, maps, call :: calls => BlockUndoable outputOf host params nHeight maps call ∧
    ∀ connected, maps.connectBlock host params call.hook call.pindex call.block = .ok connected →
      Undoable (nHeight + 1) connected calls ∧
      ∀ top, roundTrip host params calls connected = .ok top → call.now ≤ top.lastProcess + HOUR_IN_SECONDS

/-- The maps after a round trip from `nHeight` to a tip whose undo data reach down to `low`. -/
structure Returned (low : Int) (nHeight : Nat) (maps back : CollateralMaps) : Prop where
  coins : back.coins = maps.coins
  agrees : Agrees outputOf back
  removed : ∀ k : Int, low < k → k ≤ nHeight → back.removedAt k = maps.removedAt k
  initiated : 0 ≤ back.initiatedAt
  reached : back.initiatedAt ≤ max maps.initiatedAt low
  paidBlocks : ∀ script, back.mapPaidPayeesBlocks.lookup script = maps.mapPaidPayeesBlocks.lookup script
  paidHeight : ∀ k, back.mapPaidPayeesHeight.lookup k = maps.mapPaidPayeesHeight.lookup k

variable {outputOf host params} {maps : CollateralMaps}
lemma wake_of_prompt {now} (prompt : now ≤ maps.lastProcess + HOUR_IN_SECONDS) :
    (maps.wake now).initiatedAt = maps.initiatedAt := by grind [wake]

variable {nHeight : Nat} {call : ReorgCall}
lemma BlockUndoable.uncreatesSole {maps conn}
    (undoable : BlockUndoable outputOf host params nHeight maps call) (agrees : Agrees outputOf conn)
    (coins : conn.coins = (connectCollaterals host params (nHeight + 1) maps.coins call.block.vtx).1) :
    UncreatesSole host params (nHeight + 1) conn.coins call.block.vtx := by
  intro tx mem n out found amt other coin' apart held' same
  have made : createsCollateral host params (nHeight + 1) call.block.vtx ⟨host.getHash tx, n⟩ = true := by
    apply List.any_eq_true.mpr
    refine ⟨tx, mem, ?_⟩
    rw [collateralOf_of_output rfl found amt]
    rfl
  have there : ∃ coin, conn.coins ⟨host.getHash tx, n⟩ = some coin := by
    rw [coins]
    exact applied_of_created _ _ made (undoable.separate _ made)
  obtain ⟨coin, held⟩ := there
  have name : coin.out = out :=
    (agrees.coins _ _ held).trans ((undoable.ids tx mem).outputs n _ found)
  have distinct := undoable.distinct _ [] (List.append_nil _).symm
  rw [← coins] at distinct
  apply apart
  apply distinct _ _ _ _ held' held
  rw [same, Coin.script, name]

lemma BlockUndoable.connectBlock
    (undoable : BlockUndoable outputOf host params nHeight maps call) (done : Settled outputOf nHeight maps) :
    ∃ conn, maps.connectBlock host params call.hook call.pindex call.block = .ok conn ∧
      Settled outputOf (nHeight + 1) conn ∧
      Connected host params call.hook (maps.wake call.hook.now) call.pindex call.block conn := by
  have same := wake_of_prompt undoable.prompt
  have woken := done.wake same
  have readies : maps.ready host params call.hook = .ok (maps.wake call.hook.now) := by
    have initiated := woken.initiated
    unfold ready
    rw [if_neg (by omega)]
  refine ⟨(maps.wake call.hook.now).connectReady host params call.hook call.pindex call.block, ?_, ?_, ?_⟩
  · refine connectBlock_eq_ok.mpr ⟨_, readies, ?_, fun script spent => ?_, rfl⟩
    · rw [undoable.height]
      exact undoable.keeps
    · rw [mem_vinSpent_connectReady _ _ _ _ _ rfl, undoable.height] at spent
      exact undoable.inline _ spent
  · refine connectReady_settled undoable.height woken undoable.ids fun pre tx after split txin _ => ?_
    exact (undoable.distinct pre (tx :: after) split).solePayer _
  · exact connectReady_connected ..

lemma Returned.around {low maps connected top}
    (undoable : BlockUndoable outputOf host params nHeight maps call) (done : Settled outputOf nHeight maps)
    (conn : Connected host params call.hook (maps.wake call.hook.now) call.pindex call.block connected)
    (settled' : Settled outputOf (nHeight + 1) connected) (returned : Returned outputOf low (nHeight + 1) connected top)
    (shallow : low ≤ nHeight) (deep : nHeight + 1 - DEFAULT_MAX_REORG_DEPTH ≤ low)
    (prompt : call.now ≤ top.lastProcess + HOUR_IN_SECONDS) :
    Returned outputOf low nHeight maps (top.disconnectBlock host params call.now call.pindex call.block) := by
  have height := undoable.height
  have unused : maps.removedAt (call.pindex.nHeight : Int) = fun _ => none := done.above _ (by omega)
  have coins := conn.coins
  have removed := conn.removedAt
  change connected.coins = (List.foldl _ (maps.coins, maps.removedAt _) _).1 at coins
  change connected.removedAt _ = (List.foldl _ (maps.coins, maps.removedAt _) _).2 at removed
  rw [unused] at coins removed
  rw [height] at coins
  have same := wake_of_prompt prompt
  have started := conn.initiatedAt
  have initiated := returned.initiated
  have reached := returned.reached
  have reached' := settled'.reached
  have atLeast : (top.wake call.now).initiatedAt ≤ call.pindex.nHeight := by omega
  have agrees : Agrees outputOf (top.disconnectBlock host params call.now call.pindex call.block) := by
    refine disconnectBlock_agrees returned.agrees undoable.ids fun _ => ?_
    rw [height, returned.coins]
    exact undoable.uncreatesSole settled'.agrees coins
  have undone := disconnectBlock_disconnected host params call.block atLeast
  have below : PaidBelow nHeight (maps.wake call.hook.now) := ⟨done.paid.heights, done.paid.blocks⟩
  have payees := payees_restored _ height below conn returned.paidBlocks returned.paidHeight
  constructor
  · rw [undone.coins, returned.coins, returned.removed _ (by omega) (by omega), removed, height, coins]
    exact undo_restores _ undoable.fresh undoable.separate
  · exact agrees
  · intro k above low
    funext op
    have kept := congrFun (returned.removed k above (by omega)) op
    unfold CollateralMaps.removedAt at kept ⊢
    rw [undone.removed, if_neg (by omega), kept, conn.otherRemoved k (by omega), if_neg (by omega)]
    rfl
  · rw [undone.initiatedAt, same]
    exact initiated
  · rw [undone.initiatedAt]
    rw [wake_of_prompt undoable.prompt] at started
    omega
  · rw [undone.paid.1]
    exact payees.1
  · rw [undone.paid.2]
    exact payees.2

lemma roundTrip_returned {calls} {low : Int}
    (done : Settled outputOf nHeight maps) (undoable : Undoable outputOf host params nHeight maps calls)
    (shallow : low ≤ nHeight) (deep : nHeight + calls.length - DEFAULT_MAX_REORG_DEPTH ≤ low) :
    ∃ back, roundTrip host params calls maps = .ok back ∧ Returned outputOf low nHeight maps back := by
  induction calls generalizing nHeight maps with
  | nil =>
    refine ⟨_, rfl, rfl, done.agrees, fun _ _ _ => rfl, done.initiated, ?_, fun _ => rfl, fun _ => rfl⟩
    exact le_max_left ..
  | cons call calls ih =>
    obtain ⟨first, later⟩ := undoable
    obtain ⟨connected, conn, settled', effect⟩ := first.connectBlock done
    obtain ⟨undoable, prompt⟩ := later _ conn
    rw [List.length_cons, Nat.cast_add] at deep
    obtain ⟨top, trips, returned⟩ := ih settled' undoable (by omega) (by omega)
    refine ⟨top.disconnectBlock host params call.now call.pindex call.block, ?_, ?_⟩
    · unfold roundTrip
      rw [conn]
      change (roundTrip .. >>= _) = _
      rw [trips]
      rfl
    · exact returned.around first done effect settled' shallow (by omega) (prompt _ trips)

lemma getMasternodeNodeCollateral_pos {nHeight} : 0 < getMasternodeNodeCollateral (nHeight + 1 : Nat) := by
  unfold getMasternodeNodeCollateral
  split_ifs <;> first | decide | omega

variable {outputOf : COutPoint → CTxOut} {host : Host} {params : Params} {nBase : Nat} {base : FlatMap}
structure Restored (maps back : CollateralMaps) : Prop where
  coins : ∀ outpoint, back.mapCOutPointCollaterals.lookup outpoint = maps.mapCOutPointCollaterals.lookup outpoint
  scripts : ∀ script, back.mapScriptCollaterals.lookup script = maps.mapScriptCollaterals.lookup script
  paidBlocks : ∀ script, back.mapPaidPayeesBlocks.lookup script = maps.mapPaidPayeesBlocks.lookup script
  paidHeight : ∀ k, back.mapPaidPayeesHeight.lookup k = maps.mapPaidPayeesHeight.lookup k

lemma Returned.restored {low nHeight maps back} (agrees : Agrees outputOf maps)
    (dist : DistinctScripts maps.coins) (returned : Returned outputOf low nHeight maps back) : Restored maps back := by
  refine ⟨congrFun returned.coins, fun script => ?_, returned.paidBlocks, returned.paidHeight⟩
  have apart : ∀ op coin outpoint' coin', maps.coins op = some coin → maps.coins outpoint' = some coin' →
      coin.script = coin'.script → op = outpoint' := fun op coin outpoint' coin' => dist _ _ _ _
  have scripts := returned.agrees.scripts
  rw [returned.coins] at scripts
  apply Option.ext
  intro coin
  exact (scripts.lookup_iff apart _ _).trans (agrees.scripts.lookup_iff apart _ _).symm

/-- The collaterals that a block spent are there again, or the next block rebuilds the maps. -/
def RestoresOrRebuilds (params : Params) (nHeight : Nat) (before : FlatMap) (block : CBlock) (next : CollateralMaps) : Prop :=
  next.initiatedAt < 0 ∨ ∀ outpoint ∈ spentBy block.vtx,
    (next.coins outpoint).map Coin.outHeight = (collateralSlice params nHeight before outpoint).map Coin.outHeight

variable {maps : CollateralMaps}
section
variable {now : Int} {pindex : CBlockIndex}
/-- Without undo data what was spent comes back only if that is nothing. -/
lemma disconnectBlock_at_rebuild_iff {block pre after}
    (prompt : now ≤ maps.lastProcess + HOUR_IN_SECONDS) (rebuilt : maps.initiatedAt = pindex.nHeight)
    (coins : maps.coins = collateralSlice params pindex.nHeight after)
    (unrecorded : maps.removedAt pindex.nHeight = fun _ => none) (gone : ∀ op ∈ spentBy block.vtx, after op = none) :
    RestoresOrRebuilds params pindex.nHeight pre block (maps.disconnectBlock host params now pindex block) ↔
      ∀ op ∈ spentBy block.vtx, collateralSlice params pindex.nHeight pre op = none := by
  have same := (wake_of_prompt prompt).trans rebuilt
  have undone := disconnectBlock_disconnected host params block same.le
  have lost : ∀ op ∈ spentBy block.vtx, (maps.disconnectBlock host params now pindex block).coins op = none := by
    intro op spent
    have absent : collateralSlice params pindex.nHeight after op = none := by simp [collateralSlice, gone _ spent]
    rw [undone.coins, unrecorded, coins]
    change none.or _ = none
    rw [absent, ite_self]
    rfl
  unfold RestoresOrRebuilds
  rw [undone.initiatedAt]
  constructor
  · intro restores op spent
    rcases restores with negative | restores
    · omega
    · have there := restores _ spent
      rw [lost _ spent] at there
      exact Option.map_eq_none_iff.mp there.symm
  · intro idle
    right
    intro op spent
    rw [lost _ spent, idle _ spent]
end

abbrev SoleConnect (outputOf : COutPoint → CTxOut) (host : Host) (params : Params) (nBase : Nat) (base : FlatMap) :
    MnState → MnState → Prop :=
  MnStep host params nBase base (ConnectsSole outputOf host params nBase) fun _ _ _ _ => False

structure SettledOnChain (outputOf : COutPoint → CTxOut) (host : Host) (nBase : Nat) (state : MnState) : Prop where
  ids : ∀ block ∈ state.blocks, ∀ tx ∈ block.vtx, NamesOutputs outputOf host tx
  settled : Settled outputOf (nBase + state.blocks.length) state.maps

lemma MnStep.settledOnChain {state next} (named : CoinsNamed outputOf base)
    (step : SoleConnect outputOf host params nBase base state next) (inv : SettledOnChain outputOf host nBase state) :
    SettledOnChain outputOf host nBase next := by
  have ids := inv.ids
  cases step with
  | connect hook pindex height sees may conn =>
    obtain ⟨ready, readies, -, -, rfl⟩ := connectBlock_eq_ok.mp conn
    constructor
    · exact List.forall_mem_cons.mpr ⟨may.ids, ids⟩
    · have names := hookNamed_of_sees sees (chainCoins_named named ids)
      exact connectReady_settled height (ready_settled names sees.tip inv.settled readies) may.ids
        (may.sole _ readies)
  | disconnect now pindex height may => exact may.elim

lemma run_settledOnChain {start state} (named : CoinsNamed outputOf base)
    (run : ReflTransGen (SoleConnect outputOf host params nBase base) start state)
    (inv : SettledOnChain outputOf host nBase start) : SettledOnChain outputOf host nBase state := by
  induction run with
  | refl => exact inv
  | tail _ step ih => exact step.settledOnChain named ih

lemma Undoable.restored {calls nHeight} (done : Settled outputOf nHeight maps)
    (undoable : Undoable outputOf host params nHeight maps calls) (short : (calls.length : Int) ≤ DEFAULT_MAX_REORG_DEPTH) :
    ∃ back, roundTrip host params calls maps = .ok back ∧ Restored maps back := by
  obtain ⟨back, trips, returned⟩ := roundTrip_returned done undoable le_rfl (by omega)
  refine ⟨_, trips, ?_⟩
  cases calls with
  | nil =>
    cases trips
    exact ⟨fun _ => rfl, fun _ => rfl, fun _ => rfl, fun _ => rfl⟩
  | cons call calls => exact returned.restored done.agrees (undoable.1.distinct [] _ rfl)

/-- Connecting and disconnecting up to a hundred blocks restores the maps, or has them rebuilt. -/
theorem masternodeMaps_survive_reorg {start state : MnState} {calls : List ReorgCall} (named : CoinsNamed outputOf base)
    (ids : ∀ block ∈ start.blocks, ∀ tx ∈ block.vtx, NamesOutputs outputOf host tx) (inits : InitAt host params nBase base start)
    (run : ReflTransGen (SoleConnect outputOf host params nBase base) start state)
    (short : (calls.length : Int) ≤ DEFAULT_MAX_REORG_DEPTH)
    (undoable : Undoable outputOf host params (nBase + state.blocks.length) state.maps calls) :
    (∃ back, roundTrip host params calls state.maps = .ok back ∧ Restored state.maps back) ∧
    (∀ (maps : CollateralMaps) (now : Int) (pindex : CBlockIndex) (block : CBlock), start.maps.initiatedAt ≤ maps.initiatedAt →
      (pindex.nHeight : Int) < (nBase + start.blocks.length : Nat) →
      (maps.disconnectBlock host params now pindex block).initiatedAt < 0) ∧
    ∀ (block : CBlock) (rest : List CBlock) (now : Int) (pindex : CBlockIndex), start.blocks = block :: rest →
      pindex.nHeight = nBase + start.blocks.length → now ≤ start.maps.lastProcess + HOUR_IN_SECONDS →
      (∀ outpoint ∈ spentBy block.vtx, chainCoins host nBase base start.blocks outpoint = none) →
      (RestoresOrRebuilds params pindex.nHeight (chainCoins host nBase base rest) block
          (start.maps.disconnectBlock host params now pindex block) ↔
        ∀ outpoint ∈ spentBy block.vtx,
          collateralSlice params pindex.nHeight (chainCoins host nBase base rest) outpoint = none) := by
  obtain ⟨old, hook, stale, inits, sees⟩ := inits
  have rebuilt := init_rebuilt sees.tip stale inits
  have opening : SettledOnChain outputOf host nBase start :=
    ⟨ids, init_settled (hookNamed_of_sees sees (chainCoins_named named ids)) sees.tip stale inits⟩
  refine ⟨undoable.restored (run_settledOnChain named run opening).settled short, ?_, ?_⟩
  · intro maps now pindex block later below
    have initiated := rebuilt.initiatedAt
    rcases maps.wake_initiatedAt now with late | same
    · exact disconnectBlock_stale _ _ _ (by omega)
    · grind [disconnectBlock]
  · intro block rest now pindex chain height prompt gone
    have positive : 0 < getMasternodeNodeCollateral (nBase + start.blocks.length : Nat) := by
      rw [chain]
      exact getMasternodeNodeCollateral_pos
    have coins := rebuilt.coins positive
    rw [loaded_eq_slice sees, ← height] at coins
    exact disconnectBlock_at_rebuild_iff prompt (by rw [rebuilt.initiatedAt, height]) coins (rebuilt.removed _) gone

def movingCall : ReorgCall := ⟨firstHook, indexAt 3, movingBlock, 0⟩

lemma movingBlock_creates {op}
    (made : createsCollateral labelHost mainConsensus 3 movingBlock.vtx op = true) : op = ⟨11, 0⟩ := by
  obtain ⟨tx, mem, own, out, found, amt⟩ := createsCollateral_eq_true made
  obtain ⟨hash, n⟩ := op
  rcases List.mem_pair.mp mem with rfl | rfl
  · cases n <;> cases found
    exact absurd amt (by decide +kernel)
  · cases n <;> cases found
    cases own
    rfl

lemma movingCall_undoable : Undoable sampleOutputs labelHost mainConsensus 2 openedMaps [movingCall] := by
  refine ⟨⟨rfl, by decide, movingBlock_plain.ids, ?_, ?_, ?_, ?_, ?_⟩, ?_⟩
  · intro op made
    rw [movingBlock_creates made]
    rfl
  · intro op made
    rw [movingBlock_creates made]
    decide
  · intro pre after split
    change [coinbaseTx 10 0, paymentTx 11 _ _] = pre ++ after at split
    rw [← connectTxs_coins]
    rcases pre with _ | ⟨first, _ | ⟨snd, _ | ⟨third, pre⟩⟩⟩
    · exact distinctScripts_of_entries (by decide +kernel)
    · cases split
      exact distinctScripts_of_entries (by decide +kernel)
    · cases split
      exact distinctScripts_of_entries (by decide +kernel)
    · simp at split
  · decide +kernel
  · intro script spent
    have started : openedMaps.vinSpent = [] := rfl
    have short : ∀ script ∈ movedMaps.vinSpent, script.length ≤ CScriptBase.N := by decide +kernel
    exact short _ ((mem_vinSpent_connectReady _ _ firstHook (indexAt 3) movingBlock started _).mpr spent)
  · intro connected conn
    cases conn
    refine ⟨trivial, fun top trips => ?_⟩
    cases trips
    decide

theorem movingCall_returns : ∃ back, roundTrip labelHost mainConsensus [movingCall] openedMaps = .ok back ∧
    Restored openedMaps back := by
  exact (masternodeMaps_survive_reorg (straightHook_named (by decide +kernel)) (by simp) openedMaps_init .refl (by decide)
    movingCall_undoable).1

def passingBlock : CBlock := blockAt 3
  [coinbaseTx 10 0, paymentTx 11 [⟨7, 0⟩] [⟨20000 * COIN, [2]⟩], paymentTx 12 [⟨11, 0⟩] [⟨100, [3]⟩]]

def movedHook : MnHook := straightHook 3 (((∅ : CoinMap).insert ⟨10, 0⟩ (txCoin (coinbaseTx 10 0) 3 ⟨0, []⟩)).insert ⟨11, 0⟩
  (txCoin (paymentTx 11 [⟨5, 0⟩] []) 3 ⟨20000 * COIN, [2]⟩))

def rebuiltMaps : CollateralMaps := (emptyMaps.init labelHost mainConsensus movedHook).toOption.getD emptyMaps

lemma createdCoin_single {host tx nHeight out} (shape : tx.vout = [out])
    (live : isUnspendable out.scriptPubKey = false) (op) :
    createdCoin host tx nHeight op = if op = ⟨host.getHash tx, 0⟩ then some (txCoin tx nHeight out) else none := by
  obtain ⟨hash, n⟩ := op
  unfold createdCoin
  rw [shape]
  cases n with
  | zero => grind
  | succ n => simp

lemma movedHook_sees : movedHook.Sees 3 (chainCoins labelHost 2 firstHook.unspent [movingBlock]) := by
  refine ⟨(straightHook_sees 3 _).tip, fun op => ?_⟩
  change (createdCoin _ _ 3 _).or (if op ∈ [⟨5, 0⟩] then none
    else (createdCoin _ _ 3 _).or (if op ∈ [] then none else firstHook.unspent _)) = _
  by_cases moved : op = ⟨11, 0⟩
  · rw [moved]
    rfl
  · by_cases reward : op = ⟨10, 0⟩
    · rw [reward]
      rfl
    · have absent : movedHook.coins.lookup op = none :=
        (lookup_insert_ne moved).trans (lookup_insert_ne reward)
      have unmade : createdCoin labelHost (paymentTx 11 [⟨5, 0⟩] [⟨20000 * COIN, [2]⟩]) 3 op = none := by
        rw [createdCoin_single rfl rfl]
        exact if_neg moved
      have unmade' : createdCoin labelHost (coinbaseTx 10 0) 3 op = none := by
        rw [createdCoin_single rfl rfl]
        exact if_neg reward
      rw [absent, unmade, unmade']
      by_cases spent : op = ⟨5, 0⟩
      · rw [spent]
        rfl
      · have unknown : firstHook.coins.lookup op = none := lookup_insert_ne spent
        simp [MnHook.unspent, unknown]

/-- A collateral that the block also spends stays behind; at the height of `Init` the spent one is lost. -/
theorem reorg_loses_collaterals : ∃ back,
    roundTrip labelHost mainConsensus [⟨firstHook, indexAt 3, passingBlock, 0⟩] openedMaps = .ok back ∧
    openedMaps.coins ⟨11, 0⟩ = none ∧ back.coins ⟨11, 0⟩ = some ⟨true, false, ⟨20000 * COIN, [2]⟩, 3⟩ ∧
    InitAt labelHost mainConsensus 2 firstHook.unspent ⟨rebuiltMaps, [movingBlock]⟩ ∧
    (rebuiltMaps.disconnectBlock labelHost mainConsensus 0 (indexAt 3) movingBlock).initiatedAt = 3 ∧
    collateralSlice mainConsensus 3 firstHook.unspent ⟨5, 0⟩ = some firstCollateral ∧
    (rebuiltMaps.disconnectBlock labelHost mainConsensus 0 (indexAt 3) movingBlock).coins ⟨5, 0⟩ = none := by
  refine ⟨_, rfl, by decide +kernel, by decide +kernel, ?_, by decide +kernel, by decide +kernel, by decide +kernel⟩
  exact ⟨emptyMaps, movedHook, by decide, rfl, movedHook_sees⟩

end Peony
