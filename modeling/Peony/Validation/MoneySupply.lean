import Peony.Validation.Inflation
import Peony.Validation.NoOverwrite

namespace Peony
open Int64Arith Consensus CCoinsView AssocMap List Coin
variable (host : Host) (params : Params) (nHeight : Nat)
def burnedValue (coin : Coin) : Int :=
  if paysBurnAddress host params nHeight coin.out.scriptPubKey then coin.value else 0

/-- The sum of the unspent coins that are not paid to an active burn address. -/
def coinSupply (view : CCoinsView) : Int :=
  view.coinTotal fun coin => coin.value - burnedValue host params nHeight coin

def resyncSupply (pcoinsTip : CCoinsView) : Int :=
  pcoinsTip.cursor.entries.foldl (fun nMoneySupply entry =>
    if !entry.2.isSpent && !paysBurnAddress host params nHeight entry.2.out.scriptPubKey then
      wrapInt64 (nMoneySupply + entry.2.out.nValue)
    else nMoneySupply) 0

def txDelta (weight : Coin → Int) (coins : FlatMap) (nHeight : Nat) (tx : CTransaction) : Int :=
  ((tx.vout.filter fun out => !isUnspendable out.scriptPubKey).map fun out => weight (txCoin tx nHeight out)).sum -
    (tx.prevouts.map fun outpoint => weigh weight (coins outpoint)).sum

def blockDelta (weight : Coin → Int) (host : Host) (nHeight : Nat) (coins : FlatMap) : List CTransaction → Int
  | [] => 0
  | tx :: vtx => txDelta weight coins nHeight tx + blockDelta weight host nHeight (coins.applyTx host nHeight tx) vtx

section
variable (tx : CTransaction)
def scannedBurns : Int :=
  ((tx.vout.filter fun out => isNormalPaymentScript out.scriptPubKey && paysBurnAddress host params nHeight out.scriptPubKey).map
    (·.nValue)).sum

/-- The amount by which a block has changed the supply so far, up to wrapping. -/
def ConnectState.supplyDelta (state : ConnectState) : Int := state.nValueOut - state.nValueIn - state.nUnspendableValue

lemma valueOut_split (nHeight) :
    tx.valueOut = ((tx.vout.filter fun out => !isUnspendable out.scriptPubKey).map fun out => (txCoin tx nHeight out).value).sum +
      ((tx.vout.filter fun out => isUnspendable out.scriptPubKey).map (·.nValue)).sum := by
  unfold CTransaction.valueOut
  generalize tx.vout = vout
  induction vout with
  | nil => rfl
  | cons out vout ih =>
    have same : (txCoin tx nHeight out).value = out.nValue := rfl
    cases dead : isUnspendable out.scriptPubKey with
    | true => grind
    | false => grind

lemma wrapInt64_unspendable : wrapInt64 tx.getUnspendableValueOut =
      wrapInt64 ((tx.vout.filter fun out => isUnspendable out.scriptPubKey).map (·.nValue)).sum := by
  unfold CTransaction.getUnspendableValueOut
  rw [foldl_wrapInt64_if, zero_add]
end

variable {host : Host} {params : CChainParams} {context : BlockContext}
def scannedAt (host : Host) (params : CChainParams) (nHeight : Nat) (tx : CTransaction) : Int :=
  if params.lastCheckpointHeight < nHeight then scannedBurns host params.consensus nHeight tx else 0

lemma TxAccepted.supplyDelta {state next i tx filled nTxValueOut txundo}
    (acc : TxAccepted host params context state i tx filled nTxValueOut txundo next) (loose : state.view.Loose)
    (chk : CheckedTransaction params.consensus tx) :
    wrapInt64 next.supplyDelta = wrapInt64 (state.supplyDelta +
      (txDelta value state.view.visible context.nHeight tx - scannedAt host params context.nHeight tx)) := by
  have valueOut := acc.valueOut_eq chk
  have nValueOut : wrapInt64 next.nValueOut = wrapInt64 (state.nValueOut + tx.valueOut) := by
    rw [acc.nValueOut, valueOut, wrapInt64_wrapInt64]
  have nValueIn : wrapInt64 next.nValueIn = wrapInt64 (state.nValueIn + txValueIn state.view.visible tx) := by
    rw [acc.nValueIn, acc.getValueIn_eq loose, wrapInt64_add_right]
    split
    · rename_i base
      rw [txValueIn_coinBase base, add_zero]
    · rw [wrapInt64_wrapInt64]
  have dead := wrapInt64_add_congr (rfl : wrapInt64 state.nUnspendableValue = _) (wrapInt64_unspendable tx)
  have nUnspendable : wrapInt64 next.nUnspendableValue = wrapInt64 (state.nUnspendableValue +
      ((tx.vout.filter fun out => isUnspendable out.scriptPubKey).map (·.nValue)).sum +
        scannedAt host params context.nHeight tx) := by
    rw [acc.nUnspendableValue, scannedAt]
    split
    · rw [addBurned, foldl_wrapInt64_if, wrapInt64_add_left]
      exact wrapInt64_add_congr dead rfl
    · rw [wrapInt64_wrapInt64, add_zero]
      exact dead
  unfold ConnectState.supplyDelta
  rw [wrapInt64_sub_congr (wrapInt64_sub_congr nValueOut nValueIn) nUnspendable]
  congr 1
  have split := valueOut_split tx context.nHeight
  have spent : (tx.prevouts.map fun op => weigh value (state.view.visible op)).sum = txValueIn state.view.visible tx := rfl
  unfold txDelta
  omega

lemma TxAccepted.coinTotal (weight) {state next i tx filled nTxValueOut txundo}
    (acc : TxAccepted host params context state i tx filled nTxValueOut txundo next) (valid : state.view.ValidCache)
    (valid' : next.view.ValidCache) (chk : CheckedTransaction params.consensus tx) :
    next.view.coinTotal weight = state.view.coinTotal weight + txDelta weight state.view.visible context.nHeight tx := by
  obtain ⟨fills, -, held⟩ := acc.filled_spec valid.wellFormed
  have filledValid := fills.valid valid
  have moved : Moved weight filled next.view _ := updateCoins_loose filledValid.loose chk.inputs
    (by rw [fills.visible]; exact held) acc.updates
  have moves := moved.moves
  rw [potential_of_valid valid', potential_of_valid filledValid, coinTotal_congr _ fills.visible, fills.visible] at moves
  unfold txDelta
  omega

lemma connectTxs_supply {vtx state final i history}
    (valid : state.view.ValidCache) (inv : ChainCoins host history state.view.visible)
    (chk : ∀ tx ∈ vtx, CheckedTransaction params.consensus tx)
    (dist : TxsDistinct host (history ++ vtx))
    (acc : connectTxs host params context state i vtx = .ok final) :
    wrapInt64 final.supplyDelta = wrapInt64 (state.supplyDelta + (blockDelta value host context.nHeight state.view.visible vtx -
          (vtx.map (scannedAt host params context.nHeight)).sum)) ∧
      ∀ weight, final.view.coinTotal weight =
        state.view.coinTotal weight + blockDelta weight host context.nHeight state.view.visible vtx := by
  induction vtx generalizing state i history with
  | nil =>
    cases acc
    simp [blockDelta]
  | cons tx vtx ih =>
    obtain ⟨next, first, rest⟩ := Except.bind_eq_ok.mp acc
    obtain ⟨filled, nTxValueOut, txundo, round⟩ := connectTx_accepted first
    have own := chk tx (by simp)
    obtain ⟨-, written, inv'⟩ := round.chain valid inv own dist
    have shift : history ++ tx :: vtx = history ++ [tx] ++ vtx := by simp
    rw [shift] at dist
    obtain ⟨delta, totals⟩ := ih written.valid inv' ((forall_mem_cons.mp chk).2) dist rest
    rw [written.visible] at delta totals
    constructor
    · rw [delta, wrapInt64_add_congr (round.supplyDelta valid.loose own) rfl, blockDelta, map_cons, sum_cons]
      congr 1
      omega
    · intro weight
      rw [totals, round.coinTotal _ valid written.valid own, blockDelta]
      omega

variable (host : Host) (params : Params) (nHeight : Nat)
lemma addBurnedCoins_wrap (nUnspendableValue coins) :
    wrapInt64 (addBurnedCoins host params nHeight nUnspendableValue coins) =
      wrapInt64 (nUnspendableValue + total (fun _ coin => burnedValue host params nHeight coin) coins) := by
  have burned := total_filter (fun coin => paysBurnAddress host params nHeight coin.out.scriptPubKey) value coins
  rw [addBurnedCoins, foldl_wrapInt64_if]
  exact congrArg (fun sum => wrapInt64 _) burned

lemma connectBlock_supply {host params mDynamicRewards block pindexNew pprev view res history}
    (valid : view.ValidCache) (inv : ChainCoins host history view.visible)
    (dist : TxsDistinct host (history ++ block.vtx))
    (conn : connectBlock host params mDynamicRewards block pindexNew pprev view = .ok res) :
    (∀ weight, res.view.coinTotal weight =
      view.coinTotal weight + blockDelta weight host pindexNew.nHeight view.visible block.vtx) ∧
    res.nMoneySupply = wrapInt64 (pprev.nMoneySupply +
      (blockDelta value host pindexNew.nHeight view.visible block.vtx -
        (block.vtx.map (scannedAt host params pindexNew.nHeight)).sum -
        if pindexNew.nHeight = params.lastCheckpointHeight then
          total (fun _ coin => burnedValue host params.consensus pindexNew.nHeight coin) view.cursor else 0)) := by
  obtain ⟨state, acc⟩ := connectBlock_accepted conn
  have opened := getBestBlock_filled valid.wellFormed
  have start : (ConnectState.start view.getBestBlock.2).view.visible = view.visible := opened.visible
  have inv' := inv.opened valid
  obtain ⟨-, written, -⟩ := connectTxs_chain _ (opened.valid valid) inv' acc.checked.transactions dist
    acc.connected
  obtain ⟨delta, totals⟩ := connectTxs_supply (opened.valid valid) inv' acc.checked.transactions dist
    acc.connected
  rw [start] at delta totals
  have cursor : state.view.cursor = view.cursor := written.cursor.trans opened.cursor
  constructor
  · intro weight
    rw [acc.view_eq, coinTotal_congr _ (setBestBlock_visible _ _), totals]
    congr 1
    exact coinTotal_congr _ opened.visible
  · have zero : (ConnectState.start view.getBestBlock.2).supplyDelta = 0 := rfl
    rw [zero, zero_add] at delta
    rw [acc.supply, wrapInt64_add_right]
    apply wrapInt64_add_congr rfl
    rw [wrapInt64_sub_left]
    split
    · rw [cursor, wrapInt64_sub_congr rfl (addBurnedCoins_wrap ..), ← sub_sub]
      exact wrapInt64_sub_congr delta rfl
    · rw [sub_zero]
      exact delta

def SpendsUnburned (host : Host) (params : Params) (nHeight : Nat) (coins : FlatMap) : List CTransaction → Prop
  | [] => True
  | tx :: vtx =>
    (∀ outpoint ∈ tx.prevouts, ∀ coin, coins outpoint = some coin →
      paysBurnAddress host params nHeight coin.out.scriptPubKey = false) ∧
    SpendsUnburned host params nHeight (coins.applyTx host nHeight tx) vtx

def BurnsNormally (tx : CTransaction) : Prop :=
  ∀ out ∈ tx.vout, isUnspendable out.scriptPubKey = false → paysBurnAddress host params nHeight out.scriptPubKey = true →
    isNormalPaymentScript out.scriptPubKey = true

variable {host : Host} {params : Params} {nHeight : Nat}
lemma scannedBurns_eq {tx} (normal : BurnsNormally host params nHeight tx) :
    ((tx.vout.filter fun out => !isUnspendable out.scriptPubKey).map fun out =>
      burnedValue host params nHeight (txCoin tx nHeight out)).sum = scannedBurns host params nHeight tx := by
  unfold BurnsNormally at normal
  unfold scannedBurns
  generalize tx.vout = vout at normal ⊢
  induction vout with
  | nil => rfl
  | cons out vout ih =>
    have rest := ih (forall_mem_cons.mp normal).2
    have same : burnedValue host params nHeight (txCoin tx nHeight out) =
        if paysBurnAddress host params nHeight out.scriptPubKey then out.nValue else 0 := rfl
    cases dead : isUnspendable out.scriptPubKey with
    | true =>
      have odd : isNormalPaymentScript out.scriptPubKey = false := by
        cases payment : isNormalPaymentScript _ with
        | false => rfl
        | true => exact absurd (isUnspendable_of_normalPayment payment) (by simp [dead])
      simpa [dead, odd] using rest
    | false => grind

lemma burnedDelta_eq {vtx coins}
    (spends : SpendsUnburned host params nHeight coins vtx) (normal : ∀ tx ∈ vtx, BurnsNormally host params nHeight tx) :
    blockDelta (burnedValue host params nHeight) host nHeight coins vtx =
      (vtx.map (scannedBurns host params nHeight)).sum := by
  induction vtx generalizing coins with
  | nil => rfl
  | cons tx vtx ih =>
    have spent : (tx.prevouts.map fun op => weigh (burnedValue host params nHeight) (coins op)).sum = 0 := by
      apply sum_eq_zero
      intro amt mem
      obtain ⟨op, inside, rfl⟩ := mem_map.mp mem
      cases shown : coins _ with
      | none => rfl
      | some coin =>
        have unburned := spends.1 _ inside _ shown
        simp [weigh, burnedValue, unburned]
    rw [blockDelta, ih spends.2 (forall_mem_cons.mp normal).2, txDelta, spent, sub_zero,
      scannedBurns_eq (normal tx (by simp)), map_cons, sum_cons]

/-- The coinbase is new, the coins total less than `2 ^ 63`, the checkpoint's database shows the burned coins, and
later burning is seen by the scan and never undone. -/
structure SupplyTracked (host : Host) (params : CChainParams) (state : ChainState) (block : CBlock) (pindexNew : CBlockIndex) :
    Prop where
  newCoinbase : NewCoinbase host state block pindexNew
  fits : state.pcoinsTip.coinTotal value +
    blockDelta value host pindexNew.nHeight state.pcoinsTip.visible block.vtx < 2 ^ 63
  checkpoint : pindexNew.nHeight = params.lastCheckpointHeight →
    total (fun _ coin => burnedValue host params.consensus pindexNew.nHeight coin) state.pcoinsTip.cursor =
      state.pcoinsTip.coinTotal (burnedValue host params.consensus pindexNew.nHeight) +
        blockDelta (burnedValue host params.consensus pindexNew.nHeight) host pindexNew.nHeight state.pcoinsTip.visible block.vtx
  activated : params.lastCheckpointHeight < pindexNew.nHeight → ∀ outpoint coin, state.pcoinsTip.visible outpoint = some coin →
    paysBurnAddress host params.consensus pindexNew.nHeight coin.out.scriptPubKey =
      paysBurnAddress host params.consensus state.tip.nHeight coin.out.scriptPubKey
  spent : params.lastCheckpointHeight < pindexNew.nHeight →
    SpendsUnburned host params.consensus pindexNew.nHeight state.pcoinsTip.visible block.vtx
  scripts : params.lastCheckpointHeight < pindexNew.nHeight → ∀ tx ∈ block.vtx,
    BurnsNormally host params.consensus pindexNew.nHeight tx

variable {state : ChainState} {host : Host} {params : CChainParams}
structure SupplyInvariant (host : Host) (params : CChainParams) (state : ChainState) : Prop where
  chain : ChainInvariant host state
  values : ∀ outpoint coin, state.pcoinsTip.visible outpoint = some coin → 0 ≤ coin.value
  small : state.pcoinsTip.coinTotal value < 2 ^ 63
  supply : state.tip.nMoneySupply = if state.tip.nHeight < params.lastCheckpointHeight then
    state.pcoinsTip.coinTotal value else coinSupply host params.consensus state.tip.nHeight state.pcoinsTip

section
variable (host : Host) (consensus : Params) (nHeight : Nat)
lemma coinSupply_eq (view) : coinSupply host consensus nHeight view =
      view.coinTotal value - view.coinTotal (burnedValue host consensus nHeight) :=
  total_sub (fun _ => value) (fun _ => burnedValue _ _ _) _

lemma coinSupply_range {view} (values : ∀ op coin, view.visible op = some coin → 0 ≤ coin.value) :
    0 ≤ coinSupply host consensus nHeight view ∧ coinSupply host consensus nHeight view ≤ view.coinTotal value := by
  have found : ∀ op coin, view.coinMap.lookup op = some coin → 0 ≤ coin.value := by
    intro op coin shown
    rw [lookup_coinMap] at shown
    exact values _ _ shown
  have burned : 0 ≤ view.coinTotal (burnedValue host consensus nHeight) := by
    apply total_nonneg
    intro op coin shown
    unfold burnedValue
    split
    · exact found _ _ shown
    · exact le_refl 0
  constructor
  · unfold coinSupply
    apply total_nonneg
    intro op coin shown
    have value := found _ _ shown
    simp only [burnedValue]
    split <;> omega
  · rw [coinSupply_eq]
    omega
end

lemma applyTxs_values {consensus nHeight vtx} {coins : FlatMap}
    (chk : ∀ tx ∈ vtx, CheckedTransaction consensus tx)
    (values : ∀ op coin, coins op = some coin → 0 ≤ coin.value) :
    ∀ op coin, coins.applyTxs host nHeight vtx op = some coin → 0 ≤ coin.value := by
  induction vtx generalizing coins with
  | nil => exact values
  | cons tx vtx ih =>
    refine ih (forall_mem_cons.mp chk).2 ?_
    intro op coin shown
    rcases FlatMap.applyTx_eq_some shown with made | ⟨-, pre⟩
    · obtain ⟨-, out, found, -, rfl⟩ := createdCoin_eq_some made
      exact ((chk tx (by simp)).values _ (mem_of_getElem? found)).1
    · exact values _ _ pre

lemma SupplyInvariant.filled (inv : SupplyInvariant host params state) {pcoinsTip}
    (chain : ChainInvariant host { state with pcoinsTip }) (shown : pcoinsTip.visible = state.pcoinsTip.visible) :
    SupplyInvariant host params { state with pcoinsTip } := by
  refine ⟨chain, by rw [shown]; exact inv.values, by rw [coinTotal_congr _ shown]; exact inv.small, ?_⟩
  rw [inv.supply, coinSupply, coinSupply, coinTotal_congr _ shown, coinTotal_congr _ shown]

variable {block : CBlock} {pindexNew : CBlockIndex}
lemma SupplyTracked.supply_eq (tracked : SupplyTracked host params state block pindexNew) (inv : SupplyInvariant host params state)
    (linked : pindexNew.nHeight = state.tip.nHeight + 1) :
    state.tip.nMoneySupply + (blockDelta value host pindexNew.nHeight state.pcoinsTip.visible block.vtx -
        (block.vtx.map (scannedAt host params pindexNew.nHeight)).sum -
        if pindexNew.nHeight = params.lastCheckpointHeight then
          total (fun _ coin => burnedValue host params.consensus pindexNew.nHeight coin) state.pcoinsTip.cursor else 0) =
      state.pcoinsTip.coinTotal value +
        blockDelta value host pindexNew.nHeight state.pcoinsTip.visible block.vtx -
        if pindexNew.nHeight < params.lastCheckpointHeight then 0
        else state.pcoinsTip.coinTotal (burnedValue host params.consensus pindexNew.nHeight) +
          blockDelta (burnedValue host params.consensus pindexNew.nHeight) host pindexNew.nHeight state.pcoinsTip.visible
            block.vtx := by
  have supply := inv.supply
  have unscanned : pindexNew.nHeight ≤ params.lastCheckpointHeight →
      (block.vtx.map (scannedAt host params pindexNew.nHeight)).sum = 0 := by
    intro below
    apply sum_eq_zero
    intro amt mem
    obtain ⟨tx, -, rfl⟩ := mem_map.mp mem
    rw [scannedAt, if_neg (by omega)]
  rcases Nat.lt_trichotomy pindexNew.nHeight params.lastCheckpointHeight with below | here | above
  · -- Below the last checkpoint nothing is counted as burned yet.
    omega
  · -- At the checkpoint the cursor's scan takes the burned coins out, all at once.
    rw [if_pos here, tracked.checkpoint here]
    omega
  · -- Above it each block takes out what it burns itself.
    rw [coinSupply_eq] at supply
    have active : state.pcoinsTip.coinTotal (burnedValue host params.consensus pindexNew.nHeight) =
        state.pcoinsTip.coinTotal (burnedValue host params.consensus state.tip.nHeight) := by
      apply total_weight_congr
      intro op coin shown
      rw [lookup_coinMap] at shown
      rw [burnedValue, burnedValue, tracked.activated above _ _ shown]
    have scanned : (block.vtx.map (scannedAt host params pindexNew.nHeight)).sum =
        blockDelta (burnedValue host params.consensus pindexNew.nHeight) host pindexNew.nHeight state.pcoinsTip.visible
          block.vtx := by
      rw [burnedDelta_eq (tracked.spent above) (tracked.scripts above)]
      congr 1
      apply map_congr_left
      intro tx _
      rw [scannedAt, if_pos above]
    omega

lemma SupplyInvariant.connect {mDynamicRewards res pcoinsTip}
    (inv : SupplyInvariant host params state) (linked : pindexNew.nHeight = state.tip.nHeight + 1)
    (tracked : SupplyTracked host params state block pindexNew)
    (conn : connectTip host params mDynamicRewards block pindexNew state.tip state.pcoinsTip = .ok (res, pcoinsTip))
    (chain : ChainInvariant host ⟨{ pindexNew with nMoneySupply := res.nMoneySupply }, pcoinsTip, state.vtx ++ block.vtx⟩) :
    SupplyInvariant host params
      ⟨{ pindexNew with nMoneySupply := res.nMoneySupply }, pcoinsTip, state.vtx ++ block.vtx⟩ := by
  have dist := tracked.newCoinbase
  have valid := newCache_valid inv.chain.valid.wellFormed
  have coins : ChainCoins host state.vtx state.pcoinsTip.newCache.visible := by
    exact inv.chain.coins
  obtain ⟨connected, -⟩ := connectTip_ok conn
  obtain ⟨block', -, shown, -⟩ := connectTip_chain inv.chain.valid inv.chain.coins dist conn
  obtain ⟨totals, supply⟩ := connectBlock_supply valid coins dist connected
  have cursor : state.pcoinsTip.newCache.cursor = state.pcoinsTip.cursor := rfl
  rw [newCache_visible] at totals
  rw [newCache_visible, cursor, tracked.supply_eq inv linked] at supply
  have total : ∀ weight, pcoinsTip.coinTotal weight = state.pcoinsTip.coinTotal weight +
      blockDelta weight host pindexNew.nHeight state.pcoinsTip.visible block.vtx := by
    intro weight
    rw [coinTotal_congr _ shown, totals, coinTotal_congr _ (newCache_visible _)]
  have values : ∀ op coin, pcoinsTip.visible op = some coin → 0 ≤ coin.value := by
    obtain ⟨state', acc⟩ := connectBlock_accepted connected
    obtain ⟨undos, connects'⟩ := block'.connects
    rw [shown, connects'.final_eq]
    exact applyTxs_values acc.checked.transactions inv.values
  have fits := tracked.fits
  have range := coinSupply_range host params.consensus pindexNew.nHeight values
  rw [← total] at fits supply
  refine ⟨chain, values, fits, ?_⟩
  rw [supply]
  split
  · simpa using wrapInt64_of_fits ⟨by omega, fits⟩
  · rw [← total, ← coinSupply_eq]
    exact wrapInt64_of_fits ⟨by omega, by omega⟩

lemma SupplyInvariant.step {next} (inv : SupplyInvariant host params state)
    (step : ChainStep host params (SupplyTracked host params) state next) : SupplyInvariant host params next := by
  have chain := inv.chain.step (fun _ _ tracked => tracked.newCoinbase) step
  cases step with
  | connect linked tracked conn => exact inv.connect linked tracked conn chain
  | flush flushes => exact inv.filled chain (flush_ok inv.chain.valid flushes).2.1
  | getCoin op => exact inv.filled chain (getCoin_spec inv.chain.valid.wellFormed _).filled.visible
  | uncache op => exact inv.filled chain (uncache_filled inv.chain.valid.wellFormed _).visible

lemma SupplyInvariant.run {genesis} (empty : genesis.nMoneySupply = 0)
    (run : ChainRun host params (SupplyTracked host params) (genesisState genesis) state) :
    SupplyInvariant host params state := by
  induction run with
  | refl =>
    refine ⟨⟨genesisState_valid _, rfl, ChainCoins.empty _⟩, ?_, ?_, ?_⟩
    · intro op coin shown
      cases shown
    · exact (by decide : (0 : Int) < 2 ^ 63)
    · rw [show (genesisState _).tip = genesis from rfl, empty]
      split <;> rfl
  | tail _ step inv => exact inv.step step

lemma resyncSupply_db {db} (wf : (CCoinsView.db db).WellFormed) {nHeight}
    (fits : FitsInt64 (coinSupply host params.consensus nHeight (.db db))) :
    resyncSupply host params.consensus nHeight (.db db) =
      coinSupply host params.consensus nHeight (.db db) := by
  have cnt := total_filter
    (fun coin => !coin.isSpent && !paysBurnAddress host params.consensus nHeight coin.out.scriptPubKey)
    value db.coins
  have weights : total (fun (_ : COutPoint) (coin : Coin) =>
      if !coin.isSpent && !paysBurnAddress host params.consensus nHeight coin.out.scriptPubKey then coin.value else 0)
      db.coins = coinSupply host params.consensus nHeight (.db db) := by
    rw [coinSupply, coinTotal]
    apply total_weight_congr
    intro op coin found
    have unspent := wf _ _ found
    cases burns : paysBurnAddress _ _ _ _ with
    | true => simp [burns, burnedValue]
    | false => simp [unspent, burns, burnedValue]
  have folded := foldl_wrapInt64_if (fun entry : (Σ _ : COutPoint, Coin) => entry.2.out.nValue)
    (fun entry => !entry.2.isSpent && !paysBurnAddress host params.consensus nHeight entry.2.out.scriptPubKey)
    db.coins.entries 0
  have sum := cnt.trans weights
  unfold value at sum
  rw [zero_add, sum, wrapInt64_of_fits fits, wrapInt64_of_fits (foldl_wrapInt64_if_fits _ _ _ (by decide))] at folded
  exact folded

lemma resyncSupply_flushed (inv : SupplyInvariant host params state) {flushed}
    (flushes : state.pcoinsTip.flush = .ok flushed) {nHeight} :
    resyncSupply host params.consensus nHeight flushed = coinSupply host params.consensus nHeight state.pcoinsTip := by
  obtain ⟨-, -, -, layer, base, layer', written, shape, rfl, wf, shown, depth⟩ := flush_ok inv.chain.valid flushes
  have flat : base.depth = 0 := by
    have whole := inv.chain.depth
    rw [shape] at whole
    exact Nat.succ.inj whole
  cases written with
  | cache layer'' base' =>
    rw [flat] at depth
    cases depth
  | db database =>
    -- the tip is one cache over the database, so the flush puts every coin where the cursor finds it
    have same : coinSupply host params.consensus nHeight (.db database) =
        coinSupply host params.consensus nHeight state.pcoinsTip := coinTotal_congr _ shown
    have range := coinSupply_range host params.consensus nHeight inv.values
    have small := inv.small
    rw [← same] at range ⊢
    exact resyncSupply_db wf ⟨by omega, by omega⟩

/-- Above the last checkpoint the supply is the sum of the coins, and what `ResyncSupply` finds after a flush. -/
theorem moneySupply_eq_coinSupply {genesis : CBlockIndex} (empty : genesis.nMoneySupply = 0)
    {state : ChainState} (run : ChainRun host params (SupplyTracked host params) (genesisState genesis) state)
    (above : params.lastCheckpointHeight < state.tip.nHeight) :
    state.tip.nMoneySupply = coinSupply host params.consensus state.tip.nHeight state.pcoinsTip ∧
      ∀ flushed, state.pcoinsTip.flush = .ok flushed →
        resyncSupply host params.consensus state.tip.nHeight flushed = state.tip.nMoneySupply := by
  have inv := SupplyInvariant.run empty run
  have supply := inv.supply
  rw [if_neg (by omega)] at supply
  refine ⟨supply, ?_⟩
  intro flushed flushes
  rw [supply]
  exact resyncSupply_flushed inv flushes

def checkpointAt (nHeight : Nat) : CChainParams :=
  { mainParams with checkpoints := ⟨(∅ : AssocMap Nat UInt256).insert nHeight (indexAt nHeight).hash, 0⟩ }

def burnScript : CScript := [0x76, 0xa9, 0x14] ++ List.replicate 20 0 ++ [0x88, 0xac]

def burnHost : Host :=
  { labelHost with extractDestination := fun script => if script = burnScript then some mainBurnAddress else none }

def burningCoinbase (label : Nat) : CTransaction := { coinbaseTx label 0 with vout := [⟨30 * COIN, []⟩, ⟨20 * COIN, burnScript⟩] }
def burningBlock : CBlock := blockAt 1 [burningCoinbase 10]

def burnedCoins : CCoinsMap :=
  ((∅ : CCoinsMap).insert ⟨10, 1⟩ ⟨⟨true, false, ⟨20 * COIN, burnScript⟩, 1⟩, true, true⟩).insert ⟨10, 0⟩
    ⟨⟨true, false, ⟨30 * COIN, []⟩, 1⟩, true, true⟩

def tipState (nHeight : Nat) (nMoneySupply : Int) (coins : CCoinsMap) (database : CCoinsViewDB) (vtx : List CTransaction) :
    ChainState :=
  ⟨{ newIndex nHeight with nMoneySupply }, .cache ⟨(indexAt nHeight).hash, coins⟩ (.db database), vtx⟩

lemma connect_step {host params may block pindexNew nMoneySupply pcoinsTip}
    (admitted : may state block pindexNew) (linked : pindexNew.nHeight = state.tip.nHeight + 1)
    (conn : ∃ res, connectTip host params ∅ block pindexNew state.tip state.pcoinsTip = .ok (res, pcoinsTip) ∧
      res.nMoneySupply = nMoneySupply) :
    ChainStep host params may state ⟨{ pindexNew with nMoneySupply }, pcoinsTip, state.vtx ++ block.vtx⟩ := by
  obtain ⟨res, connected, rfl⟩ := conn
  exact .connect linked admitted connected

theorem burningBlock_supply : (tipState 1 (30 * COIN) burnedCoins ⟨0, ∅⟩ burningBlock.vtx).tip.nMoneySupply =
      coinSupply burnHost mainConsensus 1 (tipState 1 (30 * COIN) burnedCoins ⟨0, ∅⟩ burningBlock.vtx).pcoinsTip := by
  have tracked : SupplyTracked burnHost (checkpointAt 0) (genesisState (indexAt 0)) burningBlock (newIndex 1) := by
    refine ⟨⟨by decide, by decide⟩, by decide +kernel, fun here => absurd here (by decide), ?_, ?_, ?_⟩
    · intro _ outpoint coin shown
      cases shown
    · intro _
      exact ⟨by decide, trivial⟩
    · intro _
      unfold BurnsNormally
      decide
  have step : ChainStep burnHost (checkpointAt 0) (SupplyTracked burnHost (checkpointAt 0)) (genesisState (indexAt 0))
      (tipState 1 (30 * COIN) burnedCoins ⟨0, ∅⟩ burningBlock.vtx) :=
    connect_step tracked rfl (by
      refine ⟨_, rfl, ?_⟩
      rfl)
  exact (moneySupply_eq_coinSupply rfl (.single step) (by decide)).1

-- two more blocks that create nothing of value
def idleBlock (nHeight : Nat) : CBlock := blockAt nHeight [coinbaseTx (9 + nHeight) 0]

def withIdleCoin (nHeight : Nat) (coins : CCoinsMap) : CCoinsMap :=
  coins.insert ⟨BitVec.ofNat 256 (9 + nHeight), 0⟩ ⟨⟨true, false, ⟨0, []⟩, nHeight⟩, true, true⟩

lemma idle_run (nMoneySupply nRecalculated coins db) (vtx : List CTransaction)
    (checkpoint : ∃ res, connectTip burnHost (checkpointAt 2) ∅ (idleBlock 2) (newIndex 2)
      (tipState 1 nMoneySupply coins db vtx).tip (tipState 1 nMoneySupply coins db vtx).pcoinsTip =
        .ok (res, .cache ⟨(indexAt 2).hash, withIdleCoin 2 coins⟩ (.db db)) ∧ res.nMoneySupply = nRecalculated)
    (above : ∃ res, connectTip burnHost (checkpointAt 2) ∅ (idleBlock 3) (newIndex 3)
      (tipState 2 nRecalculated (withIdleCoin 2 coins) db vtx).tip
      (tipState 2 nRecalculated (withIdleCoin 2 coins) db vtx).pcoinsTip =
        .ok (res, .cache ⟨(indexAt 3).hash, withIdleCoin 3 (withIdleCoin 2 coins)⟩ (.db db)) ∧
      res.nMoneySupply = nRecalculated) :
    ChainRun burnHost (checkpointAt 2) (fun _ _ _ => True) (tipState 1 nMoneySupply coins db vtx)
      (tipState 3 nRecalculated (withIdleCoin 3 (withIdleCoin 2 coins)) db
        (vtx ++ (idleBlock 2).vtx ++ (idleBlock 3).vtx)) := by
  have snd : ChainStep burnHost (checkpointAt 2) (fun _ _ _ => True) (tipState 1 nMoneySupply coins db vtx)
      (tipState 2 nRecalculated (withIdleCoin 2 coins) db (vtx ++ (idleBlock 2).vtx)) :=
    connect_step trivial rfl checkpoint
  exact (Relation.ReflTransGen.single snd).tail (connect_step trivial rfl above)

/-- 50 coins of supply if the first block's coins are cached at the checkpoint, 30 if flushed. -/
theorem supply_depends_on_flush : (∃ state, ChainRun burnHost (checkpointAt 2) (fun _ _ _ => True) (genesisState (indexAt 0)) state ∧
      state.tip.nHeight = 3 ∧ state.tip.nMoneySupply = 50 * COIN ∧
      coinSupply burnHost mainConsensus 3 state.pcoinsTip = 30 * COIN) ∧
    ∃ state, ChainRun burnHost (checkpointAt 2) (fun _ _ _ => True) (genesisState (indexAt 0)) state ∧
      state.tip.nHeight = 3 ∧ state.tip.nMoneySupply = 30 * COIN ∧
      coinSupply burnHost mainConsensus 3 state.pcoinsTip = 30 * COIN := by
  have burns : ∃ result, connectTip burnHost (checkpointAt 2) ∅ burningBlock (newIndex 1) (genesisState (indexAt 0)).tip
      (genesisState (indexAt 0)).pcoinsTip = .ok (result, .cache ⟨1, burnedCoins⟩ (.db ⟨0, ∅⟩)) ∧
      result.nMoneySupply = 50 * COIN := by
    refine ⟨_, rfl, ?_⟩
    rfl
  have first : ChainStep burnHost (checkpointAt 2) (fun _ _ _ => True) (genesisState (indexAt 0))
      (tipState 1 (50 * COIN) burnedCoins ⟨0, ∅⟩ burningBlock.vtx) := connect_step trivial rfl burns
  have cached := idle_run (50 * COIN) (50 * COIN) burnedCoins ⟨0, ∅⟩ burningBlock.vtx
    (by refine ⟨_, rfl, ?_⟩; rfl) (by refine ⟨_, rfl, ?_⟩; rfl)
  have flush : ChainStep burnHost (checkpointAt 2) (fun _ _ _ => True) (tipState 1 (50 * COIN) burnedCoins ⟨0, ∅⟩ burningBlock.vtx)
      (tipState 1 (50 * COIN) ∅ ⟨1, writeEntries ∅ burnedCoins.entries⟩ burningBlock.vtx) := .flush rfl
  have flushed := idle_run (50 * COIN) (30 * COIN) ∅ ⟨1, writeEntries ∅ burnedCoins.entries⟩ burningBlock.vtx
    (by refine ⟨_, rfl, ?_⟩; rfl) (by refine ⟨_, rfl, ?_⟩; rfl)
  exact ⟨⟨_, .head first cached, rfl, rfl, by decide +kernel⟩, ⟨_, .head first (.head flush flushed), rfl, rfl, by decide +kernel⟩⟩

end Peony
