import Peony.Masternode.Effects

namespace Peony
open Consensus

namespace CollateralMaps
variable (host : Host) (params : Params) (nHeight : Nat)
structure Connected (hook : MnHook) (maps : CollateralMaps) (pindex : CBlockIndex) (block : CBlock) (next : CollateralMaps) :
    Prop where
  initiatedAt : next.initiatedAt = max maps.initiatedAt (pindex.nHeight - DEFAULT_MAX_REORG_DEPTH)
  lastProcess : next.lastProcess = maps.lastProcess
  coins : next.coins = (block.vtx.foldl (applyCollateralTx host params pindex.nHeight) (maps.coins, maps.removedAt pindex.nHeight)).1
  removedAt : next.removedAt pindex.nHeight =
    (block.vtx.foldl (applyCollateralTx host params pindex.nHeight) (maps.coins, maps.removedAt pindex.nHeight)).2
  otherRemoved : ∀ k, k ≠ (pindex.nHeight : Int) → next.mapRemovedCollaterals.lookup k =
    if k = pindex.nHeight - DEFAULT_MAX_REORG_DEPTH then none else maps.mapRemovedCollaterals.lookup k
  paid : let paidPayee := block.getPaidPayee (getMasternodePayment params hook.mDynamicRewards pindex.nHeight)
    let registered := if paidPayee.isEmpty then maps else maps.registerPaidPayee paidPayee pindex pindex.nHeight
    next.mapPaidPayeesBlocks = registered.mapPaidPayeesBlocks ∧ next.mapPaidPayeesHeight = registered.mapPaidPayeesHeight

variable (maps : CollateralMaps)
lemma prune_effect : (maps.prune nHeight).removedAt nHeight = maps.removedAt nHeight ∧
      ∀ k, (maps.prune nHeight).mapRemovedCollaterals.lookup k =
        if k = nHeight - DEFAULT_MAX_REORG_DEPTH then none else maps.mapRemovedCollaterals.lookup k := by
  have others : ∀ k, (maps.prune nHeight).mapRemovedCollaterals.lookup k =
      if k = nHeight - DEFAULT_MAX_REORG_DEPTH then none else maps.mapRemovedCollaterals.lookup k :=
    fun k => AssocMap.lookup_erase_ite _ _ _
  refine ⟨removedAt_congr ?_, others⟩
  rw [others, if_neg (by unfold DEFAULT_MAX_REORG_DEPTH; omega)]

lemma connectReady_connected (hook maps pindex block) :
    Connected host params hook maps pindex block (maps.connectReady host params hook pindex block) := by
  obtain ⟨kept, others⟩ := prune_effect _ _
  have work := connectTxs_effect host params pindex.nHeight block.vtx (maps.prune pindex.nHeight)
  rw [kept] at work
  unfold connectReady
  dsimp only
  generalize block.vtx.foldl _
    _ = conn at work ⊢
  have removed :=
    fun k other => (work.otherRemoved k other).trans (others k)
  split
  · rename_i empty
    refine ⟨work.initiatedAt, work.lastProcess, work.coins, work.removedAt, removed, ?_⟩
    dsimp only
    rw [if_pos empty]
    exact ⟨work.paidBlocks, work.paidHeight⟩
  · rename_i payee
    refine ⟨work.initiatedAt, work.lastProcess, work.coins, work.removedAt, removed, ?_⟩
    dsimp only
    rw [if_neg payee]
    unfold registerPaidPayee
    rw [work.paidBlocks, work.paidHeight]
    exact ⟨rfl, rfl⟩

variable {pindex : CBlockIndex}
lemma Connected.removedAt_above {host params hook maps next block k}
    (conn : Connected host params hook maps pindex block next) (other : k ≠ (pindex.nHeight : Int))
    (absent : maps.removedAt k = fun _ => none) : next.removedAt k = fun _ => none := by
  by_cases pruned : k = pindex.nHeight - DEFAULT_MAX_REORG_DEPTH
  · apply removedAt_eq_none
    rw [conn.otherRemoved k other, if_pos pruned]
  · rw [← absent]
    apply removedAt_congr
    rw [conn.otherRemoved k other, if_neg pruned]

structure Disconnected (now : Int) (maps : CollateralMaps) (pindex : CBlockIndex) (block : CBlock)
    (next : CollateralMaps) : Prop where
  initiatedAt : next.initiatedAt = (maps.wake now).initiatedAt
  lastProcess : next.lastProcess = now
  coins : next.coins = fun outpoint => (maps.removedAt pindex.nHeight outpoint).or
    (if createsCollateral host params pindex.nHeight block.vtx outpoint then none else maps.coins outpoint)
  removed : ∀ k, next.mapRemovedCollaterals.lookup k =
    if k = (pindex.nHeight : Int) then none else maps.mapRemovedCollaterals.lookup k
  paid : next.mapPaidPayeesBlocks = (maps.unregisterPaidPayee pindex.nHeight).mapPaidPayeesBlocks ∧
    next.mapPaidPayeesHeight = (maps.unregisterPaidPayee pindex.nHeight).mapPaidPayeesHeight

lemma wake_initiatedAt (now) : (maps.wake now).initiatedAt = -1 ∨ (maps.wake now).initiatedAt = maps.initiatedAt := by grind [wake]

lemma unregisterPaidPayee_frame : (maps.unregisterPaidPayee nHeight).initiatedAt = maps.initiatedAt ∧
      (maps.unregisterPaidPayee nHeight).lastProcess = maps.lastProcess ∧
      (maps.unregisterPaidPayee nHeight).coins = maps.coins ∧
      (maps.unregisterPaidPayee nHeight).mapRemovedCollaterals = maps.mapRemovedCollaterals := by
  unfold unregisterPaidPayee
  split <;> exact ⟨rfl, rfl, rfl, rfl⟩

variable {now : Int} {maps : CollateralMaps} (block : CBlock)
lemma disconnectBlock_disconnected (run : (maps.wake now).initiatedAt ≤ pindex.nHeight) :
    Disconnected host params now maps pindex block (maps.disconnectBlock host params now pindex block) := by
  have uncreated := uncreateTxs_effect host params pindex.nHeight block.vtx (maps.wake now)
  unfold disconnectBlock
  dsimp only
  rw [if_neg (by omega)]
  generalize block.vtx.foldl _
    _ = undone at uncreated ⊢
  obtain ⟨back, gone⟩ := restoreRemoved_effect _ _
  generalize undone.restoreRemoved _ = complete at back gone ⊢
  obtain ⟨initiatedAt, lastProcess, coins, removed⟩ := unregisterPaidPayee_frame _ _
  constructor
  · rw [initiatedAt, back.initiatedAt, uncreated.initiatedAt]
  · rw [lastProcess, back.lastProcess, uncreated.lastProcess]
    rfl
  · rw [coins, back.coins, uncreated.coins, uncreated.removedAt]
    rfl
  · intro k
    rw [removed]
    by_cases own : k = (pindex.nHeight : Int)
    · rw [own, gone, if_pos rfl]
    · rw [if_neg own, back.otherRemoved k own, uncreated.otherRemoved k own]
      rfl
  · have blocks : _ = maps.mapPaidPayeesBlocks := back.paidBlocks.trans uncreated.paidBlocks
    have heights : _ = maps.mapPaidPayeesHeight := back.paidHeight.trans uncreated.paidHeight
    unfold unregisterPaidPayee
    rw [heights]
    split <;> simp [heights, blocks]

lemma disconnectBlock_stale (stale : (maps.wake now).initiatedAt < 0) :
    (maps.disconnectBlock host params now pindex block).initiatedAt < 0 := by
  have disc := disconnectBlock_disconnected host params block
    (show (maps.wake now).initiatedAt ≤ pindex.nHeight by omega)
  rw [disc.initiatedAt]
  exact stale

variable {host : Host} {params : Params} {hook : MnHook} {maps next : CollateralMaps}
lemma loadCollaterals_effect (params hook) (nHeight : Nat) (maps) :
    ∃ coins, Effect nHeight maps (loadCollaterals params hook nHeight maps) coins (maps.removedAt nHeight) ∧
      (0 < getMasternodeNodeCollateral nHeight → coins = fun op => ((hook.coins.lookup op).filter fun coin =>
        !coin.isSpent && isCollateralAmount params nHeight coin.out.nValue).or (maps.coins op)) := by
  unfold loadCollaterals
  split
  · exact ⟨_, insertEntries_effect _ (fun coin => !coin.isSpent && isCollateralAmount _ _ coin.out.nValue)
      _ hook.coins.nodupKeys _, fun _ => rfl⟩
  · rename_i zero
    exact ⟨_, .refl _, fun pos => absurd (.inl pos) zero⟩

structure PaidBelow (nHeight : Nat) (maps : CollateralMaps) : Prop where
  heights : ∀ k script, maps.mapPaidPayeesHeight.lookup k = some script → k ≤ nHeight
  blocks : ∀ script blocks, maps.mapPaidPayeesBlocks.lookup script = some blocks → blocks ≠ []

lemma registerPaidPayee_paidBelow {nHeight} (below : PaidBelow nHeight maps) (paidPayee pindex)
    {h} (ins : h ≤ nHeight) : PaidBelow nHeight (maps.registerPaidPayee paidPayee pindex h) := by
  constructor
  · exact AssocMap.forall_insert below.heights ins
  · exact AssocMap.forall_insert below.blocks (by simp)

lemma loadPaidPayees_spec (nHeight heights) {maps next}
    (runs : loadPaidPayees host params hook heights maps = .ok next) :
    next = { maps with
      mapPaidPayeesBlocks := next.mapPaidPayeesBlocks, mapPaidPayeesHeight := next.mapPaidPayeesHeight } ∧
    ((∀ h ∈ heights, h ≤ nHeight) → PaidBelow nHeight maps → PaidBelow nHeight next) := by
  induction heights generalizing maps with
  | nil =>
    cases runs
    exact ⟨rfl, fun _ below => below⟩
  | cons h heights ih =>
    unfold loadPaidPayees at runs
    split at runs
    · cases runs
    · rename_i pindex found
      obtain ⟨same, below⟩ := ih runs
      refine ⟨same, fun ins pre => ?_⟩
      exact below (fun k mem => ins k (by simp [mem])) (registerPaidPayee_paidBelow pre _ _ (ins h (by simp)))

structure Rebuilt (params : Params) (hook : MnHook) (nHeight : Nat) (next : CollateralMaps) : Prop where
  initiatedAt : next.initiatedAt = nHeight
  lastProcess : next.lastProcess = hook.now
  coins : 0 < getMasternodeNodeCollateral nHeight → next.coins = fun outpoint => (hook.coins.lookup outpoint).filter fun coin =>
    !coin.isSpent && isCollateralAmount params nHeight coin.out.nValue
  removed : ∀ k, next.removedAt k = fun _ => none
  paid : PaidBelow nHeight next

lemma init_rebuilt {nHeight : Nat} (tip : hook.node.chainActive.height = nHeight) (stale : maps.initiatedAt ≤ 0)
    (inits : maps.init host params hook = .ok next) : Rebuilt params hook nHeight next := by
  unfold init at inits
  rw [if_neg (by omega), tip, Int.toNat_natCast] at inits
  obtain ⟨deep, inits⟩ := Except.require_bind_eq_ok.mp inits
  obtain ⟨paid, loads, done⟩ := Except.bind_eq_ok.mp inits
  cases done
  obtain ⟨coins, loaded, scanned⟩ := loadCollaterals_effect _ _ _ _
  obtain ⟨same, below⟩ := loadPaidPayees_spec _ _ loads
  have ins : ∀ h ∈ List.range' (nHeight - (loadCollaterals params hook nHeight maps.clear).mapScriptCollaterals.entries.length * 2)
      ((loadCollaterals params hook nHeight maps.clear).mapScriptCollaterals.entries.length * 2 + 1), h ≤ nHeight := by grind
  have noPayments : PaidBelow nHeight (loadCollaterals params hook nHeight maps.clear) := by
    constructor
    · rw [loaded.paidHeight]
      intro k script found
      cases found
    · rw [loaded.paidBlocks]
      intro script blocks found
      cases found
  have payments := below ins noPayments
  rw [same]
  generalize loadCollaterals _ _ _ _ = complete at loaded
  refine ⟨rfl, rfl, ?_, fun k => ?_, ⟨payments.heights, payments.blocks⟩⟩
  · intro pos
    refine loaded.coins.trans ((scanned pos).trans ?_)
    funext op
    exact Option.or_none
  · funext op
    change complete.removedAt k _ = none
    by_cases own : k = (nHeight : Int)
    · rw [own, loaded.removedAt]
      rfl
    · rw [removedAt_congr (loaded.otherRemoved k own)]
      rfl

section
variable (host : Host) (params : Params) (nHeight : Nat)
def SpendsScript : FlatMap → List CTransaction → CScript → Prop
  | _, [], _ => False
  | coins, tx :: vtx, script =>
    (∃ txin ∈ tx.vin, ∃ coin, coins txin.prevout = some coin ∧ coin.out.scriptPubKey = script) ∨
      SpendsScript (applyCollateralTx host params nHeight (coins, fun _ => none) tx).1 vtx script

lemma mem_vinSpent_spendCollateral (maps : CollateralMaps) (txin) (script) :
    script ∈ (maps.spendCollateral nHeight txin).vinSpent ↔
      script ∈ maps.vinSpent ∨ ∃ coin, maps.coins txin.prevout = some coin ∧ coin.out.scriptPubKey = script := by
  unfold spendCollateral
  cases found : maps.mapCOutPointCollaterals.lookup _ with
  | none => simp [coins, found]
  | some coin =>
    change script ∈ maps.vinSpent ++ [coin.out.scriptPubKey] ↔ _
    simp [coins, found, eq_comm]

lemma mem_vinSpent_spendCollaterals (vin : List CTxIn) (maps) (script) :
    script ∈ (vin.foldl (spendCollateral nHeight) maps).vinSpent ↔
      script ∈ maps.vinSpent ∨ ∃ txin ∈ vin, ∃ coin, maps.coins txin.prevout = some coin ∧ coin.out.scriptPubKey = script := by
  induction vin generalizing maps with
  | nil => simp
  | cons first vin ih =>
    rw [List.foldl_cons, ih, mem_vinSpent_spendCollateral, (spendCollateral_effect ..).coins, or_assoc]
    apply or_congr_right
    -- a second input with the same output finds nothing, but the first has found the same coin
    constructor
    · grind
    · grind

lemma createCollaterals_vinSpent (txid vout) (n : Nat) (maps) :
    (createCollaterals params nHeight txid n vout maps).vinSpent = maps.vinSpent := by
  induction vout generalizing n maps with
  | nil => rfl
  | cons out vout ih =>
    unfold createCollaterals
    rw [ih]
    split
    · rfl
    · rfl

lemma mem_vinSpent_connectTxs (vtx : List CTransaction) (maps) (script) :
    script ∈ (vtx.foldl (connectTx host params nHeight) maps).vinSpent ↔
      script ∈ maps.vinSpent ∨ SpendsScript host params nHeight maps.coins vtx script := by
  induction vtx generalizing maps with
  | nil => exact (or_iff_left id).symm
  | cons tx vtx ih =>
    have coins : (maps.connectTx host params nHeight tx).coins =
        (applyCollateralTx host params nHeight (maps.coins, fun _ => none) tx).1 := (connectTx_effect _ _ _ _ tx).coins
    rw [List.foldl_cons, ih, coins]
    unfold connectTx
    rw [createCollaterals_vinSpent, mem_vinSpent_spendCollaterals, or_assoc]
    rfl

lemma mem_vinSpent_connectReady (hook : MnHook) (pindex) (block) {maps : CollateralMaps} (none : maps.vinSpent = [])
    (script) : script ∈ (maps.connectReady host params hook pindex block).vinSpent ↔
      SpendsScript host params pindex.nHeight maps.coins block.vtx script := by
  have kept : (maps.connectReady host params hook pindex block).vinSpent =
      (block.vtx.foldl (connectTx host params pindex.nHeight) (maps.prune pindex.nHeight)).vinSpent := by
    unfold connectReady
    dsimp only
    split
    · rfl
    · rfl
  rw [kept, mem_vinSpent_connectTxs]
  change script ∈ maps.vinSpent ∨ _ ↔ _
  simp only [none, List.not_mem_nil, false_or]
  rfl

variable {host params nHeight} {hook : MnHook}
lemma loadPaidPayees_vinSpent {heights : List Nat} {maps next}
    (loads : loadPaidPayees host params hook heights maps = .ok next) : next.vinSpent = maps.vinSpent := by
  induction heights generalizing maps with
  | nil =>
    cases loads
    rfl
  | cons h heights ih =>
    unfold loadPaidPayees at loads
    split at loads
    · cases loads
    · next pindex _ =>
      have kept := ih loads
      exact kept

lemma loadCollaterals_vinSpent (hook : MnHook) (maps) :
    (loadCollaterals params hook nHeight maps).vinSpent = maps.vinSpent := by
  have loop : ∀ (entries : List (Sigma fun _ => Coin)) (maps : CollateralMaps), (entries.foldl (fun maps entry =>
      if !entry.2.isSpent && isCollateralAmount params nHeight entry.2.out.nValue then maps.insertCollateral entry.1 entry.2
      else maps) maps).vinSpent = maps.vinSpent := by
    intro entries
    induction entries with
    | nil => exact fun _ => rfl
    | cons entry entries ih =>
      intro maps
      rw [List.foldl_cons, ih]
      split
      · rfl
      · rfl
  unfold loadCollaterals
  split
  · exact loop _ _
  · rfl

lemma ready_vinSpent {maps ready : CollateralMaps} (readies : maps.ready host params hook = .ok ready) : ready.vinSpent = [] := by
  unfold CollateralMaps.ready at readies
  dsimp only at readies
  split at readies
  · unfold init at readies
    split at readies
    · cases readies
      rfl
    · obtain ⟨_, -, rest⟩ := Except.bind_eq_ok.mp readies
      obtain ⟨paid, loads, done⟩ := Except.bind_eq_ok.mp rest
      cases done
      have kept := loadPaidPayees_vinSpent loads
      rw [loadCollaterals_vinSpent] at kept
      exact kept
  · cases readies
    rfl
end

end CollateralMaps

end Peony
