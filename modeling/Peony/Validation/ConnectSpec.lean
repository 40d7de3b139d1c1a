import Peony.Validation.ConnectBlock

namespace Peony
open Int64Arith CCoinsView Except

structure TxAccepted (host : Host) (params : CChainParams) (context : BlockContext) (state : ConnectState) (i : Nat)
    (tx : CTransaction) (filled : CCoinsView) (nTxValueOut : Int) (txundo : CTxUndo) (next : ConnectState) : Prop where
  inputs : (if tx.isCoinBase then (true, state.view) else state.view.haveInputs tx.vin) = (true, filled)
  valueOut : tx.getValueOut = .ok nTxValueOut
  checked : checkInputs host params filled tx context.nSpendHeight
    (decide (params.getTotalBlocksEstimate ≤ context.nHeight)) (scriptFlags params.consensus context) = .ok ()
  updates : updateCoins host tx filled context.nHeight = .ok (txundo, next.view)
  nFees : next.nFees = if tx.isCoinBase || tx.isCoinStake then state.nFees
    else wrapInt64 (state.nFees + wrapInt64 (filled.getValueIn tx - nTxValueOut))
  nValueIn : next.nValueIn = if tx.isCoinBase then state.nValueIn else wrapInt64 (state.nValueIn + filled.getValueIn tx)
  nValueOut : next.nValueOut = wrapInt64 (state.nValueOut + nTxValueOut)
  nUnspendableValue : next.nUnspendableValue =
    if params.lastCheckpointHeight < context.nHeight then
      addBurned host params.consensus context.nHeight (wrapInt64 (state.nUnspendableValue + tx.getUnspendableValueOut)) tx.vout
    else wrapInt64 (state.nUnspendableValue + tx.getUnspendableValueOut)
  vtxundo : next.vtxundo = if i = 0 then state.vtxundo else state.vtxundo ++ [txundo]

variable {params : CChainParams} {host : Host} {context : BlockContext}
lemma connectTx_accepted {state next i tx} (acc : connectTx host params context state i tx = .ok next) :
    ∃ full nTxValueOut txundo, TxAccepted host params context state i tx full nTxValueOut txundo next := by
  simp only [connectTx, require_bind_eq_ok] at acc
  obtain ⟨-, held, -, acc⟩ := acc
  obtain ⟨nTxValueOut, valueOut, acc⟩ := bind_eq_ok.mp acc
  obtain ⟨chk, acc⟩ := unit_bind_eq_ok.mp acc
  obtain ⟨⟨txundo, view⟩, upd, acc⟩ := bind_eq_ok.mp acc
  cases acc
  exact ⟨_, _, _, Prod.ext held rfl, valueOut, chk, upd, rfl, rfl, rfl, rfl, rfl⟩

variable {view : CCoinsView} (vin : List CTxIn)
section
variable (wellFormed : view.WellFormed)
include wellFormed

lemma haveInputs_filled : Filled view (view.haveInputs vin).2 := by
  induction vin generalizing view with
  | nil => exact .refl wellFormed
  | cons txin vin ih =>
    have first := haveCoin_filled wellFormed txin.prevout
    rw [haveInputs]
    cases held : (view.haveCoin _).1 with
    | false => simpa using first
    | true => simpa using first.trans (ih first.wellFormed)

lemma haveInputs_uncovered {op} (uncovered : view.Uncovered op) : (view.haveInputs vin).2.Uncovered op := by
  induction vin generalizing view with
  | nil => exact uncovered
  | cons txin vin ih =>
    have first := haveCoin_uncovered wellFormed txin.prevout uncovered
    have full := haveCoin_filled wellFormed txin.prevout
    rw [haveInputs]
    cases held : (view.haveCoin _).1 with
    | false => simpa using first
    | true => simpa using ih full.wellFormed first

lemma haveInputs_fst (held : (view.haveInputs vin).1 = true) : ∀ txin ∈ vin, ∃ coin, view.visible txin.prevout = some coin := by
  induction vin generalizing view with
  | nil => simp
  | cons txin vin ih =>
    have full := haveCoin_filled wellFormed txin.prevout
    rw [haveInputs] at held
    cases first : (view.haveCoin txin.prevout).1 with
    | false => simp [first] at held
    | true =>
      simp only [first, if_true] at held
      have rest := ih full.wellFormed held
      rw [full.visible] at rest
      rw [haveCoin_fst wellFormed] at first
      exact List.forall_mem_cons.mpr ⟨Option.isSome_iff_exists.mp first, rest⟩
end

structure TxStep (host : Host) (nHeight : Nat) (coins : FlatMap) (tx : CTransaction) (txundo : CTxUndo) : Prop where
  inputs : ∀ outpoint ∈ tx.prevouts, ∃ coin, coins outpoint = some coin
  undo : txundo = tx.prevouts.map fun outpoint => (coins outpoint).getD coinEmpty
  fresh : ∀ outpoint coin, createdCoin host tx nHeight outpoint = some coin →
    coins.spendAll tx.prevouts outpoint = none ∧ coin.isSpent = false

inductive Connects (host : Host) (nHeight : Nat) : FlatMap → List CTransaction → List CTxUndo → FlatMap → Prop where
  | nil (coins : FlatMap) : Connects host nHeight coins [] [] coins
  | cons {coins final : FlatMap} {tx : CTransaction} {vtx : List CTransaction} {txundo : CTxUndo} {undos : List CTxUndo}
      (step : TxStep host nHeight coins tx txundo) (rest : Connects host nHeight (coins.applyTx host nHeight tx) vtx undos final) :
      Connects host nHeight coins (tx :: vtx) (txundo :: undos) final

variable {nHeight : Nat} {coins final : FlatMap} {vtx : List CTransaction} {undos : List CTxUndo}
lemma Connects.final_eq (conn : Connects host nHeight coins vtx undos final) : final = coins.applyTxs host nHeight vtx := by
  induction conn with
  | nil coins => rfl
  | cons step rest ih => exact ih

lemma Connects.length_eq (conn : Connects host nHeight coins vtx undos final) : undos.length = vtx.length := by
  induction conn with
  | nil coins => rfl
  | cons step rest ih => simp [ih]

lemma TxAccepted.filled_spec {state next i tx full nTxValueOut txundo}
    (acc : TxAccepted host params context state i tx full nTxValueOut txundo next)
    (wellFormed : state.view.WellFormed) :
    Filled state.view full ∧ (∀ op, state.view.Uncovered op → full.Uncovered op) ∧
      ∀ op ∈ tx.prevouts, ∃ coin, state.view.visible op = some coin := by
  have inputs := acc.inputs
  unfold CTransaction.prevouts
  cases base : tx.isCoinBase with
  | true =>
    simp only [base, if_true, Prod.mk.injEq, true_and] at inputs
    subst inputs
    exact ⟨.refl wellFormed, fun _ h => h, by simp⟩
  | false =>
    simp only [base, Bool.false_eq_true, if_false] at inputs
    have fills := haveInputs_filled tx.vin wellFormed
    have held := haveInputs_fst _ wellFormed (by rw [inputs])
    have uncovered := fun op (h : state.view.Uncovered op) => haveInputs_uncovered tx.vin wellFormed h
    rw [inputs] at fills uncovered
    refine ⟨fills, uncovered, ?_⟩
    intro op mem
    obtain ⟨txin, inVin, rfl⟩ := List.mem_map.mp mem
    exact held _ inVin

lemma TxAccepted.step {host params context state next i tx full nTxValueOut txundo}
    (acc : TxAccepted host params context state i tx full nTxValueOut txundo next) (valid : state.view.ValidCache)
    (dist : (tx.vin.map (·.prevout)).Nodup)
    (uncovered : ∀ op coin, createdCoin host tx context.nHeight op = some coin →
      state.view.Uncovered op) :
    TxStep host context.nHeight state.view.visible tx txundo ∧
      Written state.view next.view (state.view.visible.applyTx host context.nHeight tx) := by
  obtain ⟨fills, kept, inputs⟩ := acc.filled_spec valid.wellFormed
  have upd := updateCoins_spec (fills.valid valid)
    (fun op coin made => kept _ (uncovered _ _ made)) acc.updates
  have undo := upd.undo dist
  have fresh := upd.fresh
  have wrote := upd.written
  rw [fills.visible] at undo fresh wrote
  refine ⟨⟨inputs, undo, fresh⟩, wrote.visible, wrote.valid, ?_, ?_, ?_, ?_⟩
  · exact wrote.depth.trans fills.depth
  · exact wrote.cursor.trans fills.cursor
  · exact wrote.bestBlock.trans fills.bestBlock
  · exact fun op h => wrote.uncovered _ (kept _ h)

def keptUndos (i : Nat) (undos : List CTxUndo) : List CTxUndo := if i = 0 then undos.tail else undos

lemma connectTxs_connects (vtx) {state final i} (valid : state.view.ValidCache)
    (dist : ∀ tx ∈ vtx, (tx.vin.map (·.prevout)).Nodup)
    (uncovered : ∀ tx ∈ vtx, ∀ op coin, createdCoin host tx context.nHeight op = some coin →
      state.view.Uncovered op)
    (acc : connectTxs host params context state i vtx = .ok final) :
    ∃ undos, Connects host context.nHeight state.view.visible vtx undos final.view.visible ∧
      Written state.view final.view final.view.visible ∧ final.vtxundo = state.vtxundo ++ keptUndos i undos := by
  induction vtx generalizing state i with
  | nil =>
    cases acc
    exact ⟨[], .nil _, .refl valid, by simp [keptUndos]⟩
  | cons tx vtx ih =>
    obtain ⟨next, first, rest⟩ := bind_eq_ok.mp acc
    obtain ⟨full, nTxValueOut, txundo, txAccepted⟩ := connectTx_accepted first
    obtain ⟨step, wrote⟩ := txAccepted.step valid (dist tx (by simp)) (uncovered tx (by simp))
    obtain ⟨undos, conn, whole, kept⟩ := ih wrote.valid (List.forall_mem_cons.mp dist).2
      (fun other mem op coin made => wrote.uncovered _
        (uncovered _ (by simp [mem]) _ _ made)) rest
    rw [wrote.visible] at conn
    refine ⟨_, .cons step conn, wrote.trans whole, ?_⟩
    rw [kept, txAccepted.vtxundo]
    unfold keptUndos
    by_cases zero : i = 0 <;> simp [zero]

structure BlockAccepted (host : Host) (params : CChainParams) (mDynamicRewards : DynamicRewards) (block : CBlock)
    (pindex pprev : CBlockIndex) (view : CCoinsView) (state : ConnectState) (result : ConnectResult) : Prop where
  checked : CheckedBlock params.consensus block
  best : view.bestBlock = pprev.hash
  stake : block.isProofOfStake = params.consensus.networkUpgradeActive pindex.nHeight .pos
  connected : connectTxs host params ⟨pindex.nHeight, pprev.nHeight⟩ (.start view.getBestBlock.2) 0 block.vtx = .ok state
  minted : state.nMint ≤ expectedMint params.consensus mDynamicRewards block ⟨pindex.nHeight, pprev.nHeight⟩ state.nFees
  view_eq : result.view = state.view.setBestBlock pindex.hash
  undo_eq : result.blockundo = if pindex.fHaveUndo then none else some state.vtxundo
  nMint_eq : result.nMint = state.nMint
  supply : result.nMoneySupply = wrapInt64 (pprev.nMoneySupply + wrapInt64 (wrapInt64 (state.nValueOut - state.nValueIn) -
    if pindex.nHeight = params.lastCheckpointHeight then
      addBurnedCoins host params.consensus pindex.nHeight state.nUnspendableValue state.view.cursor
    else state.nUnspendableValue))

lemma connectBlock_accepted {mDynamicRewards block pindex pprev res}
    (acc : connectBlock host params mDynamicRewards block pindex pprev view = .ok res) :
    ∃ state, BlockAccepted host params mDynamicRewards block pindex pprev view state res := by
  simp only [connectBlock, connectVerified, require_eq_ok, unit_bind_eq_ok, beq_iff_eq, Bool.or_eq_true,
    Bool.not_eq_eq_eq_not, Bool.not_true] at acc
  obtain ⟨chk, best, early, ended, acc⟩ := acc
  obtain ⟨state, conn, acc⟩ := bind_eq_ok.mp acc
  obtain ⟨minted, acc⟩ := unit_bind_eq_ok.mp acc
  rw [require_eq_ok, decide_eq_true_eq] at minted
  cases acc
  refine ⟨_, checkBlock_spec chk, best, ?_, conn, minted, rfl, rfl, rfl, rfl⟩
  cases active : params.consensus.networkUpgradeActive _ _ <;> simp_all

end Peony
