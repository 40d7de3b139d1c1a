import Peony.Masternode.CollateralRun

namespace Peony
open Function Consensus Relation AssocMap

def Coin.script (coin : Coin) : CScript := coin.out.scriptPubKey

namespace CollateralMaps

section
variable (outputOf : COutPoint → CTxOut)
structure Indexed (maps : CollateralMaps) : Prop where
  coins : ∀ outpoint coin, maps.coins outpoint = some coin → coin.out = outputOf outpoint
  removed : ∀ k outpoint coin, maps.removedAt k outpoint = some coin → coin.out = outputOf outpoint
  scripts : IndexedBy Coin.script (fun _ coin => coin) maps.coins fun script => maps.mapScriptCollaterals.lookup script

/-- The amounts list exactly the collaterals that have them. -/
structure ListsAmounts (maps : CollateralMaps) : Prop where
  buckets : BucketsBy (fun coin : Coin => coin.out.nValue) maps.coins fun nValue outpoint =>
    outpoint ∈ (maps.mapCAmountCollaterals.lookup nValue).getD []
  nodup : ∀ nValue outpoints, maps.mapCAmountCollaterals.lookup nValue = some outpoints → outpoints.Nodup

structure Agrees (maps : CollateralMaps) : Prop extends Indexed outputOf maps, ListsAmounts maps

variable {outputOf} {maps : CollateralMaps} {outpoint : COutPoint}
lemma Agrees.of_same {next} (agrees : Agrees outputOf maps)
    (coins : next.mapCOutPointCollaterals = maps.mapCOutPointCollaterals)
    (scripts : next.mapScriptCollaterals = maps.mapScriptCollaterals) (amts : next.mapCAmountCollaterals = maps.mapCAmountCollaterals)
    (gone : ∀ k outpoint coin, next.removedAt k outpoint = some coin → coin.out = outputOf outpoint) : Agrees outputOf next := by
  have same : next.coins = maps.coins := by
    unfold CollateralMaps.coins
    rw [coins]
  constructor
  · constructor
    · rw [same]
      exact agrees.coins
    · exact gone
    · rw [same, scripts]
      exact agrees.scripts
  · constructor
    · rw [same, amts]
      exact agrees.buckets
    · rw [amts]
      exact agrees.nodup

lemma Indexed.removed_of_update {next : CollateralMaps} {nHeight coin} (idx : Indexed outputOf maps)
    (name : coin.out = outputOf outpoint) (own : next.removedAt nHeight = update (maps.removedAt nHeight) outpoint (some coin))
    (others : ∀ k, k ≠ nHeight → next.mapRemovedCollaterals.lookup k = maps.mapRemovedCollaterals.lookup k) :
    ∀ k outpoint coin, next.removedAt k outpoint = some coin → coin.out = outputOf outpoint := by
  intro k other held found
  by_cases same : k = nHeight
  · rw [same, own, update_apply] at found
    split at found
    · grind
    · exact idx.removed _ _ _ found
  · rw [removedAt_congr (others k same)] at found
    exact idx.removed k _ _ found

lemma insertCollateral_agrees {coin} (agrees : Agrees outputOf maps) (name : coin.out = outputOf outpoint) :
    Agrees outputOf (maps.insertCollateral outpoint coin) := by
  have same : ∀ old, maps.coins outpoint = some old → old.out = coin.out :=
    fun old held => (agrees.coins _ _ held).trans name.symm
  have added : (maps.insertCollateral outpoint coin).coins = update maps.coins outpoint (some coin) :=
    lookup_insert_eq_update ..
  refine ⟨⟨?_, agrees.removed, ?_⟩, ⟨?_, ?_⟩⟩
  · intro other held found
    rw [added, update_apply] at found
    split at found
    · grind
    · exact agrees.coins _ _ found
  · have scripts := agrees.scripts.insert (b := coin) (a := outpoint) fun old held => congrArg CTxOut.scriptPubKey (same _ held)
    rw [← lookup_insert_eq_update, ← added] at scripts
    exact scripts
  · have buckets := agrees.buckets.insert (b := coin) (a := outpoint) fun old held => congrArg _ (same _ held)
    intro nValue other
    rw [added, ← buckets]
    exact mem_insert_bucket ..
  · refine forall_insert agrees.nodup ?_
    cases found : maps.mapCAmountCollaterals.lookup _ with
    | none => exact List.nodup_nil.insert
    | some ops => exact (agrees.nodup _ _ found).insert

lemma eraseCollateral_agrees {out} (agrees : Agrees outputOf maps) (name : out = outputOf outpoint)
    (sole : SoleOwner Coin.script maps.coins outpoint out.scriptPubKey) :
    Agrees outputOf (maps.eraseCollateral outpoint out) := by
  have same : ∀ old, maps.coins outpoint = some old → old.out = out :=
    fun old held => (agrees.coins _ _ held).trans name.symm
  have erased : (maps.eraseCollateral outpoint out).coins = update maps.coins outpoint none :=
    lookup_erase_eq_update ..
  refine ⟨⟨?_, agrees.removed, ?_⟩, ⟨?_, ?_⟩⟩
  · intro other held found
    rw [erased] at found
    exact agrees.coins _ _ (held_of_update_none found)
  · have scripts := (agrees.scripts.erase_iff fun old held => congrArg CTxOut.scriptPubKey (same _ held)).mpr sole
    rw [← lookup_erase_eq_update, ← erased] at scripts
    exact scripts
  · have buckets := agrees.buckets.erase fun old held => congrArg _ (same _ held)
    intro nValue other
    rw [erased, ← buckets]
    have listed := mem_erase_bucket maps.mapCAmountCollaterals out.nValue nValue outpoint other
    unfold eraseCollateral
    cases found : maps.mapCAmountCollaterals.lookup _ with
    | none => simpa only [found] using listed
    | some ops => simpa only [found] using listed
  · intro nValue ops found
    unfold eraseCollateral at found
    split at found
    · exact agrees.nodup _ _ found
    · rename_i listed held
      exact forall_insert agrees.nodup ((agrees.nodup _ _ held).filter _) _ _ found

lemma recordRemoved_agrees {coin : Coin} {nHeight} (agrees : Agrees outputOf maps) (name : coin.out = outputOf outpoint) :
    Agrees outputOf (maps.recordRemoved nHeight outpoint coin) := by
  have recorded := recordRemoved_effect maps nHeight outpoint coin
  exact agrees.of_same rfl rfl rfl (agrees.removed_of_update name recorded.removedAt recorded.otherRemoved)
end

variable {outputOf : COutPoint → CTxOut} {host : Host} {params : Params} {nHeight : Nat}
def SolePayer (coins : FlatMap) (outpoint : COutPoint) : Prop :=
  ∀ coin, coins outpoint = some coin → SoleOwner Coin.script coins outpoint coin.script

lemma SolePayer.mono {coins coins' outpoint} (sole : SolePayer coins outpoint)
    (fewer : ∀ outpoint coin, coins' outpoint = some coin → coins outpoint = some coin) : SolePayer coins' outpoint :=
  fun _ held => (sole _ (fewer _ _ held)).mono fewer

def DistinctScripts (coins : FlatMap) : Prop :=
  ∀ outpoint outpoint' coin coin', coins outpoint = some coin → coins outpoint' = some coin' → coin.script = coin'.script →
    outpoint = outpoint'

lemma DistinctScripts.solePayer {coins} (dist : DistinctScripts coins) (outpoint) : SolePayer coins outpoint :=
  fun _ held _ _ apart held' same => apart (dist _ _ _ _ held' held same)

variable {maps : CollateralMaps}
lemma spendCollateral_agrees {txin} (agrees : Agrees outputOf maps)
    (sole : SolePayer maps.coins txin.prevout) : Agrees outputOf (maps.spendCollateral nHeight txin) := by
  unfold spendCollateral
  cases found : maps.mapCOutPointCollaterals.lookup _ with
  | none => exact agrees
  | some coin =>
    have name := agrees.coins _ _ found
    exact eraseCollateral_agrees (recordRemoved_agrees agrees name) name (sole _ found)

lemma spendCollaterals_agrees {vin : List CTxIn} (agrees : Agrees outputOf maps)
    (sole : ∀ txin ∈ vin, SolePayer maps.coins txin.prevout) : Agrees outputOf (vin.foldl (spendCollateral nHeight) maps) := by
  induction vin generalizing maps with
  | nil => exact agrees
  | cons txin vin ih =>
    have fewer : ∀ outpoint coin, (maps.spendCollateral nHeight txin).coins outpoint = some coin →
        maps.coins outpoint = some coin := by
      intro outpoint coin held
      rw [(spendCollateral_effect ..).coins] at held
      exact held_of_update_none held
    exact ih (spendCollateral_agrees agrees (sole _ (by simp))) fun other mem => (sole _ (by simp [mem])).mono fewer

variable (txid : UInt256) (vout : List CTxOut) (n : Nat)
lemma names_tail {out} (ids : ∀ i other, (out :: vout)[i]? = some other → outputOf ⟨txid, n + i⟩ = other) :
    ∀ i other, vout[i]? = some other → outputOf ⟨txid, n + 1 + i⟩ = other := by
  intro i other found
  rw [Nat.add_assoc, Nat.add_comm 1]
  exact ids _ _ found

lemma createCollaterals_agrees (agrees : Agrees outputOf maps) (ids : ∀ i out, vout[i]? = some out → outputOf ⟨txid, n + i⟩ = out) :
    Agrees outputOf (createCollaterals params nHeight txid n vout maps) := by
  induction vout generalizing n maps with
  | nil => exact agrees
  | cons out vout ih =>
    have rest := names_tail _ _ _ ids
    unfold createCollaterals
    split
    · exact ih _ (insertCollateral_agrees agrees (ids 0 _ rfl).symm) rest
    · exact ih _ agrees rest

lemma connectTx_agrees {tx} (agrees : Agrees outputOf maps)
    (ids : NamesOutputs outputOf host tx) (sole : ∀ txin ∈ tx.vin, SolePayer maps.coins txin.prevout) :
    Agrees outputOf (maps.connectTx host params nHeight tx) := by
  refine createCollaterals_agrees _ _ 0 (spendCollaterals_agrees agrees sole) fun i out found => ?_
  rw [Nat.zero_add]
  exact ids.outputs i _ found

/-- Each collateral that the block spends is then the only one of its script. -/
def SpendsSole (host : Host) (params : Params) (nHeight : Nat) (coins : FlatMap) (vtx : List CTransaction) : Prop :=
  ∀ before tx after, vtx = before ++ tx :: after → ∀ txin ∈ tx.vin,
    SolePayer (connectCollaterals host params nHeight coins before).1 txin.prevout

lemma connectTxs_coins (maps : CollateralMaps) (vtx) : (vtx.foldl (connectTx host params nHeight) maps).coins =
    (connectCollaterals host params nHeight maps.coins vtx).1 := by
  rw [(connectTxs_effect host params nHeight vtx maps).coins]
  exact applied_fst ..

lemma connectTxs_agrees {vtx} (agrees : Agrees outputOf maps)
    (ids : ∀ tx ∈ vtx, NamesOutputs outputOf host tx) (sole : SpendsSole host params nHeight maps.coins vtx) :
    Agrees outputOf (vtx.foldl (connectTx host params nHeight) maps) := by
  induction vtx generalizing maps with
  | nil => exact agrees
  | cons tx vtx ih =>
    refine ih (connectTx_agrees agrees (ids tx (by simp)) (sole [] tx _ rfl)) (List.forall_mem_cons.mp ids).2 ?_
    intro pre other after split txin mem
    have later := sole (tx :: pre) other after (by rw [split]; rfl) txin mem
    rw [(connectTx_effect host params nHeight maps tx).coins]
    unfold connectCollaterals at later ⊢
    rw [List.foldl_cons] at later
    exact applied_fst _ _ _ (fun _ => none) ▸ later

lemma uncreateCollaterals_agrees (agrees : Agrees outputOf maps) (ids : ∀ i out, vout[i]? = some out → outputOf ⟨txid, n + i⟩ = out)
    (sole : ∀ i out, vout[i]? = some out → isCollateralAmount params nHeight out.nValue = true →
      SoleOwner Coin.script maps.coins ⟨txid, n + i⟩ out.scriptPubKey) :
    Agrees outputOf (uncreateCollaterals params nHeight txid n vout maps) := by
  induction vout generalizing n maps with
  | nil => exact agrees
  | cons out vout ih =>
    have shift : ∀ i, n + 1 + i = n + (i + 1) := fun i => by omega
    have rest := names_tail _ _ _ ids
    unfold uncreateCollaterals
    split
    · rename_i amt
      have erased := eraseCollateral_agrees agrees (ids 0 _ rfl).symm (sole 0 _ rfl amt)
      refine ih _ erased rest fun i other found amt' => ?_
      rw [shift]
      apply (sole _ _ found amt').mono
      intro outpoint coin held
      rw [(eraseCollateral_effect _ nHeight _ _).coins] at held
      exact held_of_update_none held
    · refine ih _ agrees rest fun i other found amt' => ?_
      rw [shift]
      exact sole _ _ found amt'

def UncreatesSole (host : Host) (params : Params) (nHeight : Nat) (coins : FlatMap) (vtx : List CTransaction) : Prop :=
  ∀ tx ∈ vtx, ∀ n out, tx.vout[n]? = some out → isCollateralAmount params nHeight out.nValue = true →
    SoleOwner Coin.script coins ⟨host.getHash tx, n⟩ out.scriptPubKey

lemma uncreateTxs_agrees {vtx} (agrees : Agrees outputOf maps)
    (ids : ∀ tx ∈ vtx, NamesOutputs outputOf host tx) (sole : UncreatesSole host params nHeight maps.coins vtx) :
    Agrees outputOf (vtx.foldl (fun maps tx => uncreateCollaterals params nHeight (host.getHash tx) 0 tx.vout maps) maps) := by
  induction vtx generalizing maps with
  | nil => exact agrees
  | cons tx vtx ih =>
    have undone := uncreateCollaterals_effect params nHeight (host.getHash tx) tx.vout 0 maps
    have first : Agrees outputOf (uncreateCollaterals params nHeight (host.getHash tx) 0 tx.vout maps) := by
      refine uncreateCollaterals_agrees _ _ 0 agrees ?_ ?_
      · intro i out found
        rw [Nat.zero_add]
        exact (ids tx (by simp)).outputs i _ found
      · intro i out found amt
        rw [Nat.zero_add]
        exact sole tx (by simp) i _ found amt
    refine ih first (List.forall_mem_cons.mp ids).2 ?_
    intro other mem n out found amt
    refine (sole _ (by simp [mem]) n _ found amt).mono fun outpoint coin held => ?_
    rw [undone.coins] at held
    dsimp only at held
    split at held
    · cases held
    · exact held

lemma insertEntries_agrees (keep : Coin → Bool) (entries : List (Sigma fun _ => Coin))
    (agrees : Agrees outputOf maps) (names : ∀ entry ∈ entries, keep entry.2 = true → entry.2.out = outputOf entry.1) :
    Agrees outputOf
      (entries.foldl (fun maps entry => if keep entry.2 then maps.insertCollateral entry.1 entry.2 else maps) maps) := by
  induction entries generalizing maps with
  | nil => exact agrees
  | cons entry entries ih =>
    have rest : ∀ other ∈ entries, keep other.2 = true → other.2.out = outputOf other.1 :=
      (List.forall_mem_cons.mp names).2
    rw [List.foldl_cons]
    split
    · rename_i kept
      exact ih (insertCollateral_agrees agrees (names _ (by simp) kept)) rest
    · exact ih agrees rest

variable {outputOf : COutPoint → CTxOut} {host : Host} {params : Params} {hook : MnHook} {maps next : CollateralMaps}
lemma clear_agrees {maps : CollateralMaps} : Agrees outputOf maps.clear := by
  refine ⟨⟨?_, ?_, .empty⟩, ⟨?_, ?_⟩⟩
  · intro outpoint coin found
    cases found
  · intro k outpoint coin found
    cases found
  · intro nValue outpoint
    constructor
    · intro listed
      cases listed
    · rintro ⟨coin, found, -⟩
      cases found
  · intro nValue ops found
    cases found

def HookNamed (outputOf : COutPoint → CTxOut) (hook : MnHook) : Prop :=
  ∀ outpoint coin, hook.coins.lookup outpoint = some coin → coin.isSpent = false → coin.out = outputOf outpoint

lemma init_agrees (names : HookNamed outputOf hook) (stale : maps.initiatedAt ≤ 0)
    (inits : maps.init host params hook = .ok next) : Agrees outputOf next := by
  have loaded : ∀ nHeight, Agrees outputOf (loadCollaterals params hook nHeight maps.clear) := by
    intro nHeight
    unfold loadCollaterals
    split
    · refine insertEntries_agrees (fun coin => !coin.isSpent && isCollateralAmount _ _ coin.out.nValue)
        _ (clear_agrees) fun entry mem kept => ?_
      rw [Bool.and_eq_true, Bool.not_eq_true'] at kept
      exact names _ _ (AList.mem_lookup_iff.mpr mem) kept.1
    · exact clear_agrees
  unfold init at inits
  rw [if_neg (by omega)] at inits
  obtain ⟨-, inits⟩ := Except.require_bind_eq_ok.mp inits
  obtain ⟨paid, loads, done⟩ := Except.bind_eq_ok.mp inits
  cases done
  obtain ⟨same, -⟩ := loadPaidPayees_spec 0 _ loads
  have agrees := loaded hook.node.chainActive.height.toNat
  rw [same]
  exact agrees.of_same rfl rfl rfl agrees.removed

lemma ready_agrees (names : HookNamed outputOf hook) (agrees : Agrees outputOf maps)
    (readies : maps.ready host params hook = .ok next) : Agrees outputOf next := by
  unfold ready at readies
  dsimp only at readies
  split at readies
  · exact init_agrees names (by omega) readies
  · cases readies
    exact agrees.of_same rfl rfl rfl agrees.removed

lemma connectReady_agrees {pindex block} (agrees : Agrees outputOf maps)
    (ids : ∀ tx ∈ block.vtx, NamesOutputs outputOf host tx) (sole : SpendsSole host params pindex.nHeight maps.coins block.vtx) :
    Agrees outputOf (maps.connectReady host params hook pindex block) := by
  have pruned : Agrees outputOf (maps.prune pindex.nHeight) := by
    refine agrees.of_same rfl rfl rfl ?_
    intro k outpoint coin found
    unfold removedAt at found
    rw [(prune_effect _ _).2] at found
    split at found
    · cases found
    · exact agrees.removed k _ _ found
  have conn := connectTxs_agrees pruned ids sole
  unfold connectReady
  dsimp only
  split
  · exact conn
  · exact conn.of_same rfl rfl rfl conn.removed

lemma restoreRemoved_agrees (nHeight : Nat) (agrees : Agrees outputOf maps) : Agrees outputOf (maps.restoreRemoved nHeight) := by
  unfold restoreRemoved
  cases found : maps.mapRemovedCollaterals.lookup _ with
  | none => exact agrees
  | some gone =>
    have back := insertEntries_agrees (fun _ => true) _ agrees fun entry mem _ =>
      agrees.removed nHeight _ _ (by simpa [removedAt, found] using AList.mem_lookup_iff.mpr mem)
    refine back.of_same rfl rfl rfl ?_
    intro k outpoint coin held
    apply back.removed k _ _
    unfold removedAt at held ⊢
    rw [lookup_erase_ite] at held
    split at held
    · cases held
    · exact held

lemma disconnectBlock_agrees {now pindex block} (agrees : Agrees outputOf maps)
    (ids : ∀ tx ∈ block.vtx, NamesOutputs outputOf host tx)
    (sole : (maps.wake now).initiatedAt ≤ pindex.nHeight → UncreatesSole host params pindex.nHeight maps.coins block.vtx) :
    Agrees outputOf (maps.disconnectBlock host params now pindex block) := by
  have woken : Agrees outputOf (maps.wake now) := agrees.of_same rfl rfl rfl agrees.removed
  unfold disconnectBlock
  dsimp only
  split
  · exact agrees.of_same rfl rfl rfl agrees.removed
  · have undone := uncreateTxs_agrees woken ids (sole (by omega))
    have back := restoreRemoved_agrees pindex.nHeight undone
    unfold unregisterPaidPayee
    split
    · exact back
    · exact back.of_same rfl rfl rfl back.removed

end CollateralMaps

section
open CollateralMaps
variable (outputOf : COutPoint → CTxOut) (host : Host) (params : Params) (nBase : Nat) (base : FlatMap)
structure ConnectsSole (state : MnState) (hook : MnHook) (block : CBlock) : Prop where
  ids : ∀ tx ∈ block.vtx, NamesOutputs outputOf host tx
  sole : ∀ ready, state.maps.ready host params hook = .ok ready →
    SpendsSole host params (nBase + state.blocks.length + 1) ready.coins block.vtx

structure DisconnectsSole (maps : CollateralMaps) (now : Int) (block : CBlock) (rest : List CBlock) : Prop where
  sole : (maps.wake now).initiatedAt ≤ (nBase + rest.length + 1 : Nat) →
    UncreatesSole host params (nBase + rest.length + 1) maps.coins block.vtx

abbrev SoleStep : MnState → MnState → Prop :=
  MnStep host params nBase base (ConnectsSole outputOf host params nBase) (DisconnectsSole host params nBase)

structure AgreesOnChain (state : MnState) : Prop where
  ids : ∀ block ∈ state.blocks, ∀ tx ∈ block.vtx, NamesOutputs outputOf host tx
  agrees : Agrees outputOf state.maps

variable {outputOf host params nBase base}
lemma hookNamed_of_sees {hook nHeight coins} (sees : hook.Sees nHeight coins)
    (named : CoinsNamed outputOf coins) : HookNamed outputOf hook := by
  intro outpoint coin found unspent
  refine (named _ _ ?_).1
  rw [sees.coins, found]
  simp [Coin.unspent, unspent]

lemma MnStep.agreesOnChain {state next} (named : CoinsNamed outputOf base)
    (step : SoleStep outputOf host params nBase base state next) (inv : AgreesOnChain outputOf host state) :
    AgreesOnChain outputOf host next := by
  have ids := inv.ids
  cases step with
  | connect hook pindex height sees may conn =>
    obtain ⟨ready, readies, -, -, rfl⟩ := connectBlock_eq_ok.mp conn
    constructor
    · exact List.forall_mem_cons.mpr ⟨may.ids, ids⟩
    · have agrees := ready_agrees (hookNamed_of_sees sees (chainCoins_named named ids)) inv.agrees readies
      exact connectReady_agrees agrees may.ids (height ▸ may.sole _ readies)
  | disconnect now pindex height may =>
    rename_i maps block rest
    constructor
    · exact (List.forall_mem_cons.mp ids).2
    · refine disconnectBlock_agrees inv.agrees (ids _ (by simp)) fun run => ?_
      rw [height] at run ⊢
      exact may.sole run

theorem collateralMaps_agree {start final : MnState} (named : CoinsNamed outputOf base)
    (ids : ∀ block ∈ start.blocks, ∀ tx ∈ block.vtx, NamesOutputs outputOf host tx)
    (inits : InitAt host params nBase base start)
    (run : ReflTransGen (SoleStep outputOf host params nBase base) start final) :
    (∀ script, final.maps.hasCollateral script = true ↔
      ∃ outpoint coin, final.maps.coins outpoint = some coin ∧ coin.out.scriptPubKey = script) ∧
    (∀ script, final.maps.hasCollateral script = true →
      ∃ outpoint, final.maps.coins outpoint = some (final.maps.getCollateral script) ∧
        (final.maps.getCollateral script).out.scriptPubKey = script) ∧
    ∀ nValue outpoint, outpoint ∈ (final.maps.mapCAmountCollaterals.lookup nValue).getD [] ↔
      ∃ coin, final.maps.coins outpoint = some coin ∧ coin.out.nValue = nValue := by
  have opening : AgreesOnChain outputOf host start := by
    obtain ⟨old, hook, stale, inits, sees⟩ := inits
    exact ⟨ids, init_agrees (hookNamed_of_sees sees (chainCoins_named named ids)) stale inits⟩
  have agrees : AgreesOnChain outputOf host final := by
    induction run with
    | refl => exact opening
    | tail _ step ih => exact step.agreesOnChain named ih
  have scripts := agrees.agrees.scripts
  have found : ∀ script, final.maps.hasCollateral script = true →
      ∃ outpoint, final.maps.coins outpoint = some (final.maps.getCollateral script) ∧
        (final.maps.getCollateral script).out.scriptPubKey = script := by
    intro script has
    obtain ⟨coin, entry⟩ := Option.isSome_iff_exists.mp has
    obtain ⟨outpoint, coin, held, own, rfl⟩ := scripts.sound _ _ entry
    have got : final.maps.getCollateral script = coin := by simp [getCollateral, entry, Option.getD_some]
    rw [got]
    exact ⟨_, held, own⟩
  refine ⟨fun script => ⟨?_, ?_⟩, found, agrees.agrees.buckets⟩
  · intro has
    obtain ⟨outpoint, held, own⟩ := found _ has
    exact ⟨_, _, held, own⟩
  · rintro ⟨outpoint, coin, held, rfl⟩
    exact scripts.complete _ _ held
end

open CollateralMaps

lemma distinctScripts_of_entries {coins : CoinMap}
    (dist : ∀ entry ∈ coins.entries, ∀ entry' ∈ coins.entries, entry.2.script = entry'.2.script → entry.1 = entry'.1) :
    DistinctScripts fun outpoint => coins.lookup outpoint :=
  fun _ _ _ _ held held' =>
    dist _ (AList.mem_lookup_iff.mp held) _ (AList.mem_lookup_iff.mp held')

lemma movingBlock_sole : ConnectsSole sampleOutputs labelHost mainConsensus 2 ⟨openedMaps, []⟩ firstHook movingBlock := by
  refine ⟨movingBlock_plain.ids, fun ready readies => ?_⟩
  cases readies
  intro pre tx after split txin mem
  change [coinbaseTx 10 0, paymentTx 11 _ _] = pre ++ tx :: after at split
  apply DistinctScripts.solePayer
  rw [← connectTxs_coins]
  rcases pre with _ | ⟨first, _ | ⟨snd, pre⟩⟩
  · exact distinctScripts_of_entries (by decide +kernel)
  · cases split
    exact distinctScripts_of_entries (by decide +kernel)
  · simp at split

theorem collateralMaps_of_movingBlock : movedMaps.hasCollateral [2] = true ∧ (∀ script, movedMaps.hasCollateral script = true ↔
      ∃ outpoint coin, movedMaps.coins outpoint = some coin ∧ coin.out.scriptPubKey = script) := by
  have connects : SoleStep sampleOutputs labelHost mainConsensus 2 firstHook.unspent ⟨openedMaps, []⟩ ⟨movedMaps, [movingBlock]⟩ :=
    .connect firstHook (indexAt 3) rfl (straightHook_sees ..) movingBlock_sole rfl
  exact ⟨by decide +kernel,
    (collateralMaps_agree (straightHook_named (by decide +kernel)) (by simp) openedMaps_init (.single connects)).1⟩

def pairHook : MnHook :=
  straightHook 2 (((∅ : CoinMap).insert ⟨5, 0⟩ firstCollateral).insert ⟨6, 0⟩ firstCollateral)

def pairMaps : CollateralMaps := (emptyMaps.init labelHost mainConsensus pairHook).toOption.getD emptyMaps
def spendOneBlock : CBlock := blockAt 3 [coinbaseTx 10 0, paymentTx 11 [⟨5, 0⟩] [⟨100, [2]⟩]]

/-- The owner of two collaterals spends one, and the script of the other is no longer found. -/
theorem spendOneBlock_hides_other : ∃ final : MnState, InitAt labelHost mainConsensus 2 pairHook.unspent ⟨pairMaps, []⟩ ∧
    MnStep labelHost mainConsensus 2 pairHook.unspent (fun _ _ _ => True) (fun _ _ _ _ => True) ⟨pairMaps, []⟩ final ∧
    final.blocks = [spendOneBlock] ∧ final.maps.coins ⟨6, 0⟩ = some firstCollateral ∧
    final.maps.hasCollateral firstCollateral.out.scriptPubKey = false := by
  refine ⟨⟨pairMaps.connectReady labelHost mainConsensus pairHook (indexAt 3) spendOneBlock, [spendOneBlock]⟩, ?_, ?_, rfl, ?_, ?_⟩
  · exact ⟨emptyMaps, pairHook, by decide, rfl, straightHook_sees ..⟩
  · exact .connect pairHook (indexAt 3) rfl (straightHook_sees ..) trivial rfl
  · decide +kernel
  · decide +kernel

end Peony
