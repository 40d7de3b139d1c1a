import Peony.Consensus.MainNet
import Peony.Validation.ConnectSpec

namespace Peony
open Function CCoinsView List FlatMap

inductive DisconnectResult where
  | disconnectOk | disconnectUnclean | disconnectFailed
  deriving DecidableEq, Repr

section
variable (undo : Coin) (view : CCoinsView) (out : COutPoint)
/-- A coin without height takes the metadata of another output of its transaction. -/
def completeUndo : Option Coin :=
  if undo.nHeight = 0 then
    let alternate := accessByTxid view out.hash
    if alternate.isSpent then none
    else some { undo with nHeight := alternate.nHeight, fCoinBase := alternate.fCoinBase, fCoinStake := alternate.fCoinStake }
  else some undo

def applyTxInUndo : Except Failure (DisconnectResult × CCoinsView) :=
  let held := view.haveCoin out
  match completeUndo undo held.2 out with
  | none => .ok (.disconnectFailed, held.2)
  | some coin => do
    let added ← held.2.addCoin out coin false
    return (if held.1 then .disconnectUnclean else .disconnectOk, added)
end

def spendOutputs (txid : UInt256) (fClean : Bool) (view : CCoinsView) : (o : Nat) → List CTxOut → Bool × CCoinsView
  | _, [] => (fClean, view)
  | o, out :: vout =>
    if isUnspendable out.scriptPubKey then spendOutputs txid fClean view (o + 1) vout
    else
      let spent := view.spendCoin ⟨txid, o⟩
      spendOutputs txid (fClean && decide (out = spent.1.out)) spent.2 (o + 1) vout

def restoreInputs (fClean : Bool) (view : CCoinsView) : List (COutPoint × Coin) → Except Failure (Option (Bool × CCoinsView))
  | [] => .ok (some (fClean, view))
  | (out, undo) :: inputs => do
    match ← applyTxInUndo undo view out with
    | (.disconnectFailed, _) => return none
    | (.disconnectUnclean, restored) => restoreInputs false restored inputs
    | (.disconnectOk, restored) => restoreInputs fClean restored inputs

def disconnectTx (host : Host) (fClean : Bool) (view : CCoinsView) (tx : CTransaction) (txundo : Option CTxUndo) :
    Except Failure (Option (Bool × CCoinsView)) := do
  let _ ← tx.getValueOut
  let spent := spendOutputs (host.getHash tx) fClean view 0 tx.vout
  if tx.isCoinBase then return some spent
  else match txundo with
    | none => .error (.assertion "blockUndo.vtxundo[i - 1]")
    | some vprevout =>
      if vprevout.length ≠ tx.vin.length then return none
      else restoreInputs spent.1 spent.2 ((tx.vin.map (·.prevout)).zip vprevout).reverse

def disconnectTxs (host : Host) (fClean : Bool) (view : CCoinsView) :
    List (CTransaction × Option CTxUndo) → Except Failure (Option (Bool × CCoinsView))
  | [] => .ok (some (fClean, view))
  | (tx, txundo) :: vtx => do
    match ← disconnectTx host fClean view tx txundo with
    | none => return none
    | some (clean, undone) => disconnectTxs host clean undone vtx

/-- `fHooks` is what the hooks report, true during initial block download. -/
def disconnectBlock (host : Host) (block : CBlock) (pindex pprev : CBlockIndex) (undo : Option CBlockUndo)
    (view : CCoinsView) (fHooks : Bool) : Except Failure (DisconnectResult × CCoinsView) := do
  Except.require (view.getBestBlock.1 == pindex.hash) (.assertion "pindex->GetBlockHash() == view.GetBestBlock()")
  let view := view.getBestBlock.2
  match undo with
  | none => return (.disconnectFailed, view)
  | some vtxundo =>
    if vtxundo.length + 1 ≠ block.vtx.length then return (.disconnectFailed, view)
    else match ← disconnectTxs host true view (block.vtx.zip (none :: vtxundo.map some)).reverse with
      | none => return (.disconnectFailed, view)
      | some (fClean, undone) =>
        return (if fHooks && fClean then .disconnectOk else .disconnectUnclean, undone.setBestBlock pprev.hash)

/-- The height is not the mark of the older format and `AddCoin` takes the coin. -/
def Restorable (coin : Coin) : Prop := 0 < coin.nHeight ∧ isUnspendable coin.out.scriptPubKey = false

variable {tx : CTransaction} {coins : FlatMap} {nHeight : Nat} {host : Host}
lemma applyTx_restorable (pos : 0 < nHeight)
    {outpoint coin} (shown : coins.applyTx host nHeight tx outpoint = some coin) :
    Restorable coin ∨ coins outpoint = some coin := by
  rcases applyTx_eq_some shown with made | ⟨-, pre⟩
  · obtain ⟨-, out, -, live, rfl⟩ := createdCoin_eq_some made
    exact .inl ⟨pos, live⟩
  · exact .inr pre

variable {view : CCoinsView}
lemma spendOutputs_spec {txid vout o} (valid : view.ValidCache)
    (shown : view.visible = fun outpoint => (createdFrom tx txid nHeight o vout outpoint).or (coins outpoint))
    (fresh : ∀ outpoint coin, createdFrom tx txid nHeight o vout outpoint = some coin → coins outpoint = none) :
    ∃ undone, spendOutputs txid true view o vout = (true, undone) ∧ undone.ValidCache ∧ undone.visible = coins ∧
      undone.bestBlock = view.bestBlock := by
  induction vout generalizing o view with
  | nil =>
    refine ⟨_, rfl, valid, ?_, rfl⟩
    rw [shown]
    simp
  | cons out vout ih =>
    have later : ∀ outpoint coin, createdFrom tx txid nHeight (o + 1) vout outpoint = some coin → coins outpoint = none := by
      intro outpoint coin made
      exact fresh _ _ (createdFrom_of_succ _ made)
    cases dead : isUnspendable _ with
    | true =>
      rw [createdFrom_unspendable dead] at shown
      simpa [spendOutputs, dead] using ih valid shown later
    | false =>
      have own := createdFrom_self dead tx txid nHeight o vout
      have spent := spendCoin_snd valid ⟨txid, o⟩
      have moved : (view.spendCoin ⟨txid, o⟩).1 = txCoin tx nHeight out := by
        rw [spendCoin_fst valid, shown]
        simp [own]
      have same : (view.spendCoin ⟨txid, o⟩).2.visible = fun outpoint =>
          (createdFrom tx txid nHeight (o + 1) vout outpoint).or (coins outpoint) := by
        rw [spent.visible, shown]
        funext outpoint
        by_cases here : outpoint = ⟨txid, o⟩
        · subst here
          simp [fresh _ _ own]
        · rw [update_of_ne here, createdFrom_cons, if_neg here]
      obtain ⟨undone, runs, undoneValid, undoneShown, best⟩ := ih spent.valid same later
      refine ⟨_, ?_, undoneValid, undoneShown, best.trans spent.bestBlock⟩
      simp only [spendOutputs, dead, Bool.false_eq_true, if_false, moved]
      simpa [txCoin] using runs

lemma applyTxInUndo_spec (valid : view.ValidCache) {out undo}
    (restorable : Restorable undo) (live : undo.isSpent = false) (free : view.visible out = none) :
    ∃ back, applyTxInUndo undo view out = .ok (.disconnectOk, back) ∧ Updated view back out (some undo) := by
  have full := haveCoin_filled valid.wellFormed out
  have absent : (view.haveCoin out).1 = false := by
    rw [haveCoin_fst valid.wellFormed, free]
    rfl
  have hidden : (view.haveCoin out).2.visible out = none := by rw [full.visible, free]
  obtain ⟨back, adds, upd⟩ := addCoin_spec (full.valid valid) false live restorable.2 fun _ => hidden
  refine ⟨_, ?_, .after_filled full upd⟩
  have whole : completeUndo undo (view.haveCoin out).2 out = some undo := by
    unfold completeUndo
    rw [if_neg (by have := restorable.1; omega)]
  simp only [applyTxInUndo, whole, adds, absent]
  rfl

lemma restoreInputs_spec (inputs : List (COutPoint × Coin))
    (valid : view.ValidCache) (shown : view.visible = coins.spendAll (inputs.map (·.1)))
    (dist : (inputs.map (·.1)).Nodup) (held : ∀ input ∈ inputs, coins input.1 = some input.2)
    (sound : ∀ input ∈ inputs, Restorable input.2 ∧ input.2.isSpent = false) :
    ∃ back, restoreInputs true view inputs = .ok (some (true, back)) ∧ back.ValidCache ∧
      back.visible = coins ∧ back.bestBlock = view.bestBlock := by
  induction inputs generalizing view with
  | nil =>
    refine ⟨_, rfl, valid, ?_, rfl⟩
    rw [shown, map_nil, spendAll_nil]
  | cons input inputs ih =>
    obtain ⟨out, undo⟩ := input
    rw [map_cons, nodup_cons] at dist
    obtain ⟨restorable, live⟩ := sound (out, undo) (by simp)
    have free : view.visible out = none := by
      rw [shown]
      simp [spendAll]
    obtain ⟨added, applies, upd⟩ := applyTxInUndo_spec valid restorable live free
    have next : added.visible = coins.spendAll (inputs.map (·.1)) := by
      rw [upd.visible, shown]
      funext other
      by_cases same : other = out
      · subst same
        rw [update_self, spendAll, if_neg dist.1]
        exact (held _ (by simp)).symm
      · rw [update_of_ne same, map_cons, spendAll_cons, spendAll, spendAll,
          update_of_ne same]
    obtain ⟨back, runs, restoredValid, restoredShown, best⟩ := ih upd.valid next dist.2
      (forall_mem_cons.mp held).2 (forall_mem_cons.mp sound).2
    refine ⟨_, ?_, restoredValid, restoredShown, best.trans upd.bestBlock⟩
    simp only [restoreInputs, applies]
    exact runs

lemma disconnectTx_eq (host : Host) (fClean : Bool) (view) {vprevout nValueOut}
    (value : tx.getValueOut = .ok nValueOut) (plain : tx.isCoinBase = false) (length : vprevout.length = tx.vin.length) :
    disconnectTx host fClean view tx (some vprevout) =
      restoreInputs (spendOutputs (host.getHash tx) fClean view 0 tx.vout).1
        (spendOutputs (host.getHash tx) fClean view 0 tx.vout).2 ((tx.vin.map (·.prevout)).zip vprevout).reverse := by
  simp only [disconnectTx, value, plain, length, Bool.false_eq_true, if_false, ne_eq, not_true_eq_false]
  rfl

lemma disconnectTx_undoes {params txundo} (step : TxStep host nHeight coins tx txundo) (chk : CheckedTransaction params tx)
    (live : ∀ outpoint coin, coins outpoint = some coin → coin.isSpent = false)
    (sound : ∀ outpoint ∈ tx.prevouts, ∀ coin, coins outpoint = some coin → Restorable coin)
    (valid : view.ValidCache) (shown : view.visible = coins.applyTx host nHeight tx)
    {kept} (keeps : tx.isCoinBase = false → kept = some txundo) :
    ∃ undone, disconnectTx host true view tx kept = .ok (some (true, undone)) ∧ undone.ValidCache ∧
      undone.visible = coins ∧ undone.bestBlock = view.bestBlock := by
  unfold applyTx create at shown
  have fresh := fun outpoint coin made => (step.fresh outpoint coin made).1
  rw [← createdFrom_zero] at shown fresh
  obtain ⟨spent, spends, spentValid, spentShown, spentBest⟩ := spendOutputs_spec valid shown fresh
  cases base : tx.isCoinBase with
  | true =>
    refine ⟨_, ?_, spentValid, ?_, spentBest⟩
    · simp only [disconnectTx, chk.getValueOut, spends, base, if_true]
      rfl
    · rw [spentShown, CTransaction.prevouts, base, if_pos rfl, spendAll_nil]
  | false =>
    have inputs : tx.prevouts = tx.vin.map (·.prevout) := by simp [CTransaction.prevouts, base]
    -- The inputs are put back last to first; they are distinct, so the order does not matter.
    have length : txundo.length = tx.vin.length := by simp [step.undo, inputs, length_map]
    have pairs : (tx.vin.map (·.prevout)).zip txundo = tx.prevouts.map fun outpoint => (outpoint, (coins outpoint).getD coinEmpty) := by
      rw [step.undo, ← inputs, map_prod_left_eq_zip]
    have mem : ∀ input ∈ (tx.prevouts.map fun outpoint => (outpoint, (coins outpoint).getD coinEmpty)).reverse,
        input.1 ∈ tx.prevouts ∧ coins input.1 = some input.2 := by
      intro input ins
      rw [mem_reverse, mem_map] at ins
      obtain ⟨outpoint, inPrevouts, rfl⟩ := ins
      obtain ⟨coin, found⟩ := step.inputs _ inPrevouts
      exact ⟨inPrevouts, by simp [found]⟩
    have ops : ((tx.prevouts.map fun outpoint => (outpoint, (coins outpoint).getD coinEmpty)).reverse.map (·.1)) =
        tx.prevouts.reverse := by
      rw [map_reverse, map_map]
      congr 1
      exact map_id _
    obtain ⟨undone, restores, undoneValid, undoneShown, best⟩ := restoreInputs_spec
      _ spentValid
      (by rw [spentShown]; funext outpoint; simp [spendAll])
      (by rw [ops, nodup_reverse, inputs]; exact chk.inputs)
      (fun input ins => (mem _ ins).2)
      (fun input ins => ⟨sound _ (mem _ ins).1 _ (mem _ ins).2,
        live _ _ (mem _ ins).2⟩)
    refine ⟨_, ?_, undoneValid, undoneShown, best.trans spentBest⟩
    rw [keeps base, disconnectTx_eq _ _ _ chk.getValueOut base length, spends, pairs]
    exact restores

lemma disconnectTxs_append {first snd fClean clean undone} (runs : disconnectTxs host fClean view first = .ok (some (clean, undone))) :
    disconnectTxs host fClean view (first ++ snd) = disconnectTxs host clean undone snd := by
  induction first generalizing fClean view with
  | nil =>
    cases runs
    rfl
  | cons entry first ih =>
    obtain ⟨answer, undoes, rest⟩ := Except.bind_eq_ok.mp runs
    cases answer with
    | none => cases rest
    | some state =>
      rw [cons_append, disconnectTxs, undoes]
      exact ih rest

lemma applyTx_live {txundo} (step : TxStep host nHeight coins tx txundo)
    (live : ∀ outpoint coin, coins outpoint = some coin → coin.isSpent = false) :
    ∀ outpoint coin, coins.applyTx host nHeight tx outpoint = some coin → coin.isSpent = false := by
  intro outpoint coin shown
  rcases applyTx_eq_some shown with made | ⟨-, pre⟩
  · exact (step.fresh _ _ made).2
  · exact live _ _ pre

lemma zip_keeps (vtx : List CTransaction) {undos : List CTxUndo} (length : undos.length = vtx.length) :
    List.Forall₂ (fun entry txundo => entry.1.isCoinBase = false → entry.2 = some txundo)
      (vtx.zip (undos.map some)) undos := by
  induction undos generalizing vtx with
  | nil => simp
  | cons txundo undos ih =>
    cases vtx with
    | nil => cases length
    | cons tx vtx => exact .cons (fun _ => rfl) (ih _ (by simpa using length))

lemma disconnectTxs_undoes {params} (pos : 0 < nHeight)
    {coins final vtx undos}
    (conn : Connects host nHeight coins vtx undos final) (chk : ∀ tx ∈ vtx, CheckedTransaction params tx)
    (live : ∀ outpoint coin, coins outpoint = some coin → coin.isSpent = false)
    (sound : ∀ tx ∈ vtx, ∀ outpoint ∈ tx.prevouts, ∀ coin, coins outpoint = some coin → Restorable coin)
    {kept}
    (keeps : List.Forall₂ (fun entry txundo => entry.1.isCoinBase = false → entry.2 = some txundo) (vtx.zip kept) undos)
    (valid : view.ValidCache) (shown : view.visible = final) :
    ∃ undone, disconnectTxs host true view (vtx.zip kept).reverse = .ok (some (true, undone)) ∧ undone.ValidCache ∧
      undone.visible = coins ∧ undone.bestBlock = view.bestBlock := by
  induction conn generalizing kept view with
  | nil coins => exact ⟨_, rfl, valid, shown, rfl⟩
  | @cons coins final tx vtx txundo undos step rest ih =>
    cases kept with
    | nil => cases keeps
    | cons own kept =>
      obtain ⟨own_keeps, keeps⟩ := List.forall₂_cons.mp keeps
      -- A coin spent later in the block is one of this transaction's outputs or was there before the block.
      have soundAfter : ∀ other ∈ vtx, ∀ outpoint ∈ other.prevouts, ∀ coin,
          coins.applyTx host nHeight tx outpoint = some coin → Restorable coin := by
        intro other mem outpoint spends coin held
        rcases applyTx_restorable pos held with restorable | pre
        · exact restorable
        · exact sound _ (by simp [mem]) _ spends _ pre
      -- The loop runs from the back: the rest of the block is undone first, this transaction last.
      obtain ⟨later, runs, laterValid, laterShown, laterBest⟩ := ih (forall_mem_cons.mp chk).2
        (applyTx_live step live) soundAfter keeps valid shown
      obtain ⟨undone, undoes, undoneValid, undoneShown, undoneBest⟩ := disconnectTx_undoes step (chk tx (by simp)) live
        (sound tx (by simp)) laterValid laterShown own_keeps
      refine ⟨_, ?_, undoneValid, undoneShown, undoneBest.trans laterBest⟩
      rw [zip_cons_cons, reverse_cons, disconnectTxs_append runs, disconnectTxs, undoes]
      rfl

theorem disconnectBlock_undoes_connectBlock {host : Host} {params : CChainParams} {mDynamicRewards : DynamicRewards}
    {block : CBlock} {pindex pprev : CBlockIndex} {view : CCoinsView} {result : ConnectResult} {undo : CBlockUndo}
    (valid : view.ValidCache) (linked : pindex.nHeight = pprev.nHeight + 1)
    (named : pindex.hash ≠ 0 ∧ pprev.hash ≠ 0)
    (free : ∀ tx ∈ block.vtx, ∀ outpoint coin, createdCoin host tx pindex.nHeight outpoint = some coin →
      view.visible outpoint = none)
    (restorable : ∀ tx ∈ block.vtx, ∀ outpoint ∈ tx.prevouts, ∀ coin, view.visible outpoint = some coin → Restorable coin)
    (connected : connectBlock host params mDynamicRewards block pindex pprev view = .ok result)
    (written : result.blockundo = some undo) :
    ∃ restored, disconnectBlock host block pindex pprev (some undo) result.view true = .ok (.disconnectOk, restored) ∧
      restored.visible = view.visible ∧ restored.bestBlock = view.bestBlock := by
  obtain ⟨state, accepted⟩ := connectBlock_accepted connected
  obtain ⟨tx, vtx, shape, base, ordinary⟩ := accepted.checked.coinbase
  have opened := getBestBlock_filled valid.wellFormed
  have openedValid := opened.valid valid
  obtain ⟨undos, connects, whole, kept⟩ := connectTxs_connects _ openedValid
    (fun tx member => (accepted.checked.transactions tx member).inputs)
    (fun tx member outpoint coin created => uncovered_of_hidden (by
      rw [ConnectState.start, opened.visible]
      exact free tx member _ _ created)) accepted.connected
  have start : (ConnectState.start view.getBestBlock.2).view.visible = view.visible := opened.visible
  rw [start] at connects
  have finalValid := setBestBlock_valid whole.valid pindex.hash
  have finalShown := setBestBlock_visible state.view pindex.hash
  have finalBest := setBestBlock_bestBlock whole.valid named.1
  rw [← accepted.view_eq] at finalValid finalShown finalBest
  have read := getBestBlock_filled finalValid.wellFormed
  obtain rfl : undo = undos.tail := by
    have kept' : undo = state.vtxundo := by
      have := accepted.undo_eq
      rw [written] at this
      split at this
      · cases this
      · exact Option.some.inj this
    rw [kept', kept]
    rfl
  rw [shape] at connects
  obtain ⟨txundo, tail, rfl⟩ : ∃ txundo tail, undos = txundo :: tail := by
    cases connects
    exact ⟨_, _, rfl⟩
  have length : tail.length = vtx.length := by simpa using connects.length_eq
  have positive : 0 < pindex.nHeight := by omega
  have keeps : List.Forall₂ (fun entry txundo => entry.1.isCoinBase = false → entry.2 = some txundo)
      ((tx :: vtx).zip (none :: tail.map some)) (txundo :: tail) := by
    refine .cons (by simp [base]) ?_
    exact zip_keeps _ length
  obtain ⟨undone, runs, undoneValid, undoneShown, -⟩ := disconnectTxs_undoes positive connects
    (shape ▸ accepted.checked.transactions) (fun outpoint coin => visible_unspent valid.wellFormed)
    (shape ▸ restorable) keeps (read.valid finalValid) (read.visible.trans finalShown)
  refine ⟨_, ?_, (setBestBlock_visible _ pprev.hash).trans undoneShown, ?_⟩
  · have own : (result.view.getBestBlock.1 == pindex.hash) = true := beq_iff_eq.mpr finalBest
    simp only [disconnectBlock, own, shape, tail_cons, length_cons, length, ne_eq, not_true_eq_false, if_false,
      runs]
    rfl
  · rw [setBestBlock_bestBlock undoneValid named.2, accepted.best]

variable (nHeight : Nat) (outpoint : COutPoint)
def singleCoinView (coin : Coin) : CCoinsView :=
  .cache ⟨(indexAt nHeight).hash, ∅⟩ (.db ⟨(indexAt nHeight).hash, (∅ : CoinMap).insert outpoint coin⟩)

lemma singleCoinView_visible (coin : Coin) :
    (singleCoinView nHeight outpoint coin).visible = update (fun _ => none) outpoint (some coin) := by
  funext other
  by_cases same : other = outpoint
  · subst same
    simp only [singleCoinView, visible, AList.lookup_empty, AList.lookup_insert, update_self]
  · simp only [singleCoinView, visible, AList.lookup_empty, AList.lookup_insert_ne same, update_of_ne same]

lemma singleCoinView_valid {coin} (live : coin.isSpent = false) : (singleCoinView nHeight outpoint coin).ValidCache := by
  refine ⟨trivial, ?_, ?_⟩
  · intro other held found
    have shown : update (fun _ => none) outpoint (some coin) other = some held := by
      rw [← singleCoinView_visible nHeight]
      exact found
    by_cases same : other = outpoint
    · grind
    · grind
  · simp

lemma singleCoinView_free {host : Host} {vtx : List CTransaction} {outpoint}
    (foreign : ∀ tx ∈ vtx, host.getHash tx ≠ outpoint.hash) (nTip nHeight) (held) :
    ∀ tx ∈ vtx, ∀ other coin, createdCoin host tx nHeight other = some coin →
      (singleCoinView nTip outpoint held).visible other = none := by
  intro tx mem other coin made
  obtain ⟨own, -⟩ := createdCoin_eq_some made
  rw [singleCoinView_visible, update_of_ne]
  rintro rfl
  exact foreign tx mem own.symm

def oldCoin (nHeight : Nat) : Coin := ⟨false, false, ⟨60, []⟩, nHeight⟩

-- the second payment spends the first, which also has an unspendable output
def spendingBlock : CBlock := blockAt 2
  [coinbaseTx 10 0, paymentTx 11 [⟨5, 0⟩] [⟨60, []⟩, ⟨0, [OP_RETURN]⟩], paymentTx 12 [⟨11, 0⟩] [⟨50, []⟩]]

theorem disconnect_spendingBlock : ∃ result undo restored,
    connectBlock labelHost mainParams ∅ spendingBlock (newIndex 2) (indexAt 1) (singleCoinView 1 ⟨5, 0⟩ (oldCoin 1)) =
      .ok result ∧ result.blockundo = some undo ∧
    disconnectBlock labelHost spendingBlock (newIndex 2) (indexAt 1) (some undo) result.view true =
      .ok (.disconnectOk, restored) ∧
    restored.visible = (singleCoinView 1 ⟨5, 0⟩ (oldCoin 1)).visible ∧ restored.bestBlock = 1 := by
  obtain ⟨result, connected, written⟩ : ∃ result, connectBlock labelHost mainParams ∅ spendingBlock (newIndex 2) (indexAt 1)
      (singleCoinView 1 ⟨5, 0⟩ (oldCoin 1)) = .ok result ∧
      result.blockundo = some [[oldCoin 1], [oldCoin 2]] := by
    refine ⟨_, rfl, ?_⟩
    rfl
  have restorable : ∀ tx ∈ spendingBlock.vtx, ∀ outpoint ∈ tx.prevouts, ∀ coin,
      (singleCoinView 1 ⟨5, 0⟩ (oldCoin 1)).visible outpoint = some coin → Restorable coin := by
    intro tx member outpoint spends coin shown
    rw [singleCoinView_visible] at shown
    by_cases same : outpoint = ⟨5, 0⟩
    · subst same
      rw [update_self] at shown
      cases shown
      exact ⟨by decide, by decide⟩
    · rw [update_of_ne same] at shown
      cases shown
  obtain ⟨restored, undoes, shown, best⟩ := disconnectBlock_undoes_connectBlock
    (singleCoinView_valid 1 ⟨5, 0⟩ (by decide)) rfl ⟨by decide, by decide⟩
    (singleCoinView_free (by decide) 1 2 (oldCoin 1)) restorable connected written
  exact ⟨result, _, restored, connected, written, undoes, shown, best⟩

def legacyBlock : CBlock := blockAt 2 [coinbaseTx 10 0, paymentTx 11 [⟨5, 0⟩] [⟨60, []⟩]]

def legacyResult : ConnectResult where
  view := .cache ⟨2, (((∅ : CCoinsMap).insert ⟨10, 0⟩ ⟨⟨true, false, ⟨0, []⟩, 2⟩, true, true⟩).insert ⟨5, 0⟩
    ⟨coinEmpty, true, false⟩).insert ⟨11, 0⟩ ⟨oldCoin 2, true, true⟩⟩ (.db ⟨1, (∅ : CoinMap).insert ⟨5, 0⟩ (oldCoin 0)⟩)
  blockundo := some [[oldCoin 0]]
  nFees := 0
  nValueIn := 60
  nValueOut := 60
  nMint := 0
  nMoneySupply := 0

lemma accessByTxid_none {txid} (hidden : ∀ n, (view.accessCoin ⟨txid, n⟩).1.unspent = none) :
    accessByTxid view txid = coinEmpty := by
  rw [accessByTxid, findSome?_eq_none_iff.mpr fun n _ => hidden n]
  rfl

lemma applyTxInUndo_failed {undo out} (old : undo.nHeight = 0)
    (alone : accessByTxid (view.haveCoin out).2 out.hash = coinEmpty) :
    applyTxInUndo undo view out = .ok (.disconnectFailed, (view.haveCoin out).2) := by
  simp [applyTxInUndo, completeUndo, old, alone, coinEmpty_isSpent]

/-- A spent coin of height 0 reads back as an entry of the older format. -/
theorem disconnectBlock_fails_at_height_zero :
    connectBlock labelHost mainParams ∅ legacyBlock (newIndex 2) (indexAt 1) (singleCoinView 1 ⟨5, 0⟩ (oldCoin 0)) =
      .ok legacyResult ∧
    (∀ tx ∈ legacyBlock.vtx, ∀ outpoint coin, createdCoin labelHost tx 2 outpoint = some coin →
      (singleCoinView 1 ⟨5, 0⟩ (oldCoin 0)).visible outpoint = none) ∧
    ∃ view, disconnectBlock labelHost legacyBlock (newIndex 2) (indexAt 1) legacyResult.blockundo legacyResult.view true =
      .ok (.disconnectFailed, view) := by
  refine ⟨rfl, singleCoinView_free (by decide) 1 2 (oldCoin 0), legacyResult.view, ?_⟩
  have alone : accessByTxid (((spendOutputs 11 true legacyResult.view 0 [⟨60, []⟩]).2).haveCoin ⟨5, 0⟩).2 5 = coinEmpty :=
    accessByTxid_none fun n => by cases n <;> rfl
  have fails : restoreInputs true (spendOutputs 11 true legacyResult.view 0 [⟨60, []⟩]).2 [(⟨5, 0⟩, oldCoin 0)] = .ok none := by
    rw [restoreInputs, applyTxInUndo_failed rfl alone]
    rfl
  have value : (paymentTx 11 [⟨5, 0⟩] [⟨60, []⟩]).getValueOut = .ok 60 := rfl
  have undoes : disconnectTx labelHost true legacyResult.view (paymentTx 11 [⟨5, 0⟩] [⟨60, []⟩]) (some [oldCoin 0]) = .ok none := by
    have ordered : (((paymentTx 11 [⟨5, 0⟩] [⟨60, []⟩]).vin.map (·.prevout)).zip [oldCoin 0]).reverse = [(⟨5, 0⟩, oldCoin 0)] := rfl
    have clean : (spendOutputs (labelHost.getHash (paymentTx 11 [⟨5, 0⟩] [⟨60, []⟩])) true legacyResult.view 0
        (paymentTx 11 [⟨5, 0⟩] [⟨60, []⟩]).vout).1 = true := rfl
    rw [disconnectTx_eq labelHost true legacyResult.view value rfl rfl, ordered, clean]
    exact fails
  have reversed : (legacyBlock.vtx.zip (none :: [[oldCoin 0]].map some)).reverse =
      [(paymentTx 11 [⟨5, 0⟩] [⟨60, []⟩], some [oldCoin 0]), (coinbaseTx 10 0, none)] := rfl
  have best : legacyResult.view.getBestBlock = (2, legacyResult.view) := rfl
  have kept : legacyResult.blockundo = some [[oldCoin 0]] := rfl
  have length : ¬ ([[oldCoin 0]].length + 1 ≠ legacyBlock.vtx.length) := by decide
  rw [disconnectBlock, best, kept]
  simp only [if_neg length, reversed, disconnectTxs, undoes]
  rfl

end Peony
