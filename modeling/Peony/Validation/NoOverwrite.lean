import Peony.Consensus.MainNet
import Peony.Validation.ChainRun

namespace Peony
open CCoinsView List ConnectState CTransaction
variable (host : Host) (vtx : List CTransaction)
def HashesDistinct : Prop :=
  ∀ tx ∈ vtx, ∀ other ∈ vtx, host.getHash tx = host.getHash other → tx = other

def CoinbasesDistinct : Prop :=
  ((vtx.filter isCoinBase).map host.getHash).Nodup

def TxsDistinct : Prop := HashesDistinct host vtx ∧ CoinbasesDistinct host vtx

instance (host : Host) (vtx : List CTransaction) : Decidable (HashesDistinct host vtx) :=
  inferInstanceAs (Decidable (∀ tx ∈ vtx, ∀ other ∈ vtx, _))

instance (host : Host) (vtx : List CTransaction) : Decidable (CoinbasesDistinct host vtx) :=
  inferInstanceAs (Decidable (List.Nodup _))

/-- How the unspent outputs of a chain depend on its transactions. -/
structure ChainCoins (host : Host) (history : List CTransaction) (coins : FlatMap) : Prop where
  created : ∀ outpoint coin, coins outpoint = some coin → ∃ tx ∈ history, host.getHash tx = outpoint.hash
  spent : ∀ tx ∈ history, ∀ outpoint ∈ tx.prevouts, coins outpoint = none
  known : ∀ tx ∈ history, ∀ outpoint ∈ tx.prevouts, ∃ source ∈ history, host.getHash source = outpoint.hash

lemma ChainCoins.empty (host) : ChainCoins host [] (fun _ => none) where
  created := by simp
  spent := by simp
  known := by simp

variable {tx : CTransaction}
lemma CTransaction.prevouts_ne_nil {params} (chk : CheckedTransaction params tx)
    (plain : tx.isCoinBase = false) : tx.prevouts ≠ [] := by simp [prevouts, plain, chk.vin]

variable {history : List CTransaction} {host : Host} {coins : FlatMap}
/-- Unless it is a coinbase: in the chain already, its inputs would be spent. -/
lemma ChainCoins.fresh_id {params} (inv : ChainCoins host history coins) (chk : CheckedTransaction params tx)
    (held : ∀ op ∈ tx.prevouts, ∃ coin, coins op = some coin)
    (hashes : ∀ other ∈ history, host.getHash other = host.getHash tx → other = tx)
    (base : tx.isCoinBase = true → ∀ other ∈ history, other.isCoinBase = true → host.getHash other ≠ host.getHash tx) :
    ∀ other ∈ history, host.getHash other ≠ host.getHash tx := by
  intro other mem same
  obtain rfl := hashes _ mem same
  cases plain : other.isCoinBase with
  | true => exact base plain _ mem plain rfl
  | false =>
    obtain ⟨op, spends⟩ := exists_mem_of_ne_nil _ (prevouts_ne_nil chk plain)
    obtain ⟨coin, shown⟩ := held _ spends
    rw [inv.spent _ mem _ spends] at shown
    cases shown

lemma ChainCoins.hidden (inv : ChainCoins host history coins) {nHeight}
    (fresh : ∀ other ∈ history, host.getHash other ≠ host.getHash tx) {op coin}
    (made : createdCoin host tx nHeight op = some coin) : coins op = none := by
  cases shown : coins _ with
  | none => rfl
  | some held =>
    obtain ⟨own, -⟩ := createdCoin_eq_some made
    obtain ⟨other, mem, same⟩ := inv.created _ _ shown
    exact absurd (same.trans own) (fresh _ mem)

lemma ChainCoins.applyTx (inv : ChainCoins host history coins) (nHeight)
    (fresh : ∀ other ∈ history, host.getHash other ≠ host.getHash tx)
    (held : ∀ op ∈ tx.prevouts, ∃ coin, coins op = some coin) :
    ChainCoins host (history ++ [tx]) (coins.applyTx host nHeight tx) := by
  -- The id is new, so an outpoint of an earlier transaction is never an output of this one.
  have foreign : ∀ op, (∃ source ∈ history, host.getHash source = op.hash) → createdCoin host tx nHeight op = none := by
    rintro op ⟨source, mem, same⟩
    cases made : createdCoin _ tx _ _ with
    | none => rfl
    | some coin => exact absurd (same.trans (createdCoin_eq_some made).1) (fresh _ mem)
  have sources : ∀ other ∈ history ++ [tx], ∀ op ∈ other.prevouts, ∃ source ∈ history, host.getHash source = op.hash := by
    intro other mem op spends
    rcases mem_append.mp mem with mem | mem
    · exact inv.known _ mem _ spends
    · obtain rfl := mem_singleton.mp mem
      obtain ⟨coin, shown⟩ := held _ spends
      exact inv.created _ _ shown
  refine ⟨?_, ?_, ?_⟩
  · intro op coin shown
    rcases FlatMap.applyTx_eq_some shown with made | ⟨-, pre⟩
    · exact ⟨tx, by simp, (createdCoin_eq_some made).1.symm⟩
    · obtain ⟨source, mem, same⟩ := inv.created _ _ pre
      exact ⟨_, by simp [mem], same⟩
  · intro other mem op spends
    unfold FlatMap.applyTx FlatMap.create
    rw [foreign _ (sources _ mem _ spends), Option.none_or, FlatMap.spendAll]
    rcases mem_append.mp mem with mem | mem
    · rw [inv.spent _ mem _ spends, ite_self]
    · obtain rfl := mem_singleton.mp mem
      rw [if_pos spends]
  · intro other mem op spends
    obtain ⟨source, ins, same⟩ := sources _ mem _ spends
    exact ⟨_, by simp [ins], same⟩

variable {vtx : List CTransaction}
lemma TxsDistinct.append_left {more} (dist : TxsDistinct host (vtx ++ more)) : TxsDistinct host vtx := by
  refine ⟨fun tx mem other mem' => dist.1 tx (by simp [mem]) _ (by simp [mem']), ?_⟩
  have bases := dist.2
  rw [CoinbasesDistinct, filter_append, map_append] at bases
  exact (nodup_append.mp bases).1

lemma CoinbasesDistinct.ne (dist : CoinbasesDistinct host (history ++ tx :: vtx)) (base : tx.isCoinBase = true) :
    ∀ other ∈ history, other.isCoinBase = true → host.getHash other ≠ host.getHash tx := by
  unfold CoinbasesDistinct at dist
  rw [filter_append, map_append] at dist
  intro other mem coinbase
  refine (nodup_append.mp dist).2.2 _ (mem_map_of_mem ?_) _ (mem_map_of_mem ?_)
  · exact mem_filter.mpr ⟨mem, coinbase⟩
  · exact mem_filter.mpr ⟨by simp, base⟩

section
variable {host : Host} {params : CChainParams} {context : BlockContext} {history : List CTransaction}
lemma ChainCoins.next_fresh {coins} (inv : ChainCoins host history coins) (chk : CheckedTransaction params.consensus tx)
    (held : ∀ op ∈ tx.prevouts, ∃ coin, coins op = some coin)
    (dist : TxsDistinct host (history ++ tx :: vtx)) :
    ∀ other ∈ history, host.getHash other ≠ host.getHash tx :=
  inv.fresh_id chk held (fun other mem => dist.1 _ (by simp [mem]) tx (by simp)) dist.2.ne

lemma TxAccepted.chain {state next i filled nTxValueOut txundo}
    (acc : TxAccepted host params context state i tx filled nTxValueOut txundo next) (valid : state.view.ValidCache)
    (inv : ChainCoins host history state.view.visible) (chk : CheckedTransaction params.consensus tx)
    (dist : TxsDistinct host (history ++ tx :: vtx)) :
    TxStep host context.nHeight state.view.visible tx txundo ∧
      Written state.view next.view (state.view.visible.applyTx host context.nHeight tx) ∧
      ChainCoins host (history ++ [tx]) next.view.visible := by
  obtain ⟨-, -, held⟩ := acc.filled_spec valid.wellFormed
  have fresh := inv.next_fresh chk held dist
  obtain ⟨step, wrote⟩ := acc.step valid chk.inputs fun op coin made =>
    uncovered_of_hidden (inv.hidden fresh made)
  refine ⟨step, wrote, ?_⟩
  rw [wrote.visible]
  exact inv.applyTx _ fresh held

lemma connectTxs_chain (vtx) {state final i} (valid : state.view.ValidCache)
    (inv : ChainCoins host history state.view.visible) (chk : ∀ tx ∈ vtx, CheckedTransaction params.consensus tx)
    (dist : TxsDistinct host (history ++ vtx))
    (acc : connectTxs host params context state i vtx = .ok final) :
    (∃ undos, Connects host context.nHeight state.view.visible vtx undos final.view.visible) ∧
      Written state.view final.view final.view.visible ∧ ChainCoins host (history ++ vtx) final.view.visible := by
  induction vtx generalizing state i history with
  | nil =>
    cases acc
    exact ⟨⟨[], .nil _⟩, .refl valid, by simpa using inv⟩
  | cons tx vtx ih =>
    obtain ⟨next, first, rest⟩ := Except.bind_eq_ok.mp acc
    obtain ⟨filled, nTxValueOut, txundo, round⟩ := connectTx_accepted first
    obtain ⟨step, wrote, inv'⟩ := round.chain valid inv (chk tx (by simp)) dist
    have shift : history ++ tx :: vtx = history ++ [tx] ++ vtx := by simp
    rw [shift] at dist ⊢
    obtain ⟨⟨undos, conn⟩, whole, chain⟩ := ih wrote.valid inv' (forall_mem_cons.mp chk).2
      dist rest
    rw [wrote.visible] at conn
    exact ⟨⟨_, .cons step conn⟩, wrote.trans whole, chain⟩
end

/-- `ConnectBlock` of the block on `view` reaches `AddCoins` of `tx`, which runs on `spent`. -/
structure AddsCoins (host : Host) (params : CChainParams) (block : CBlock) (context : BlockContext) (view : CCoinsView)
    (tx : CTransaction) (spent : CCoinsView) : Prop where
  checked : checkBlock host params.consensus block = .ok ()
  reached : ∃ before after state filled, block.vtx = before ++ tx :: after ∧
    connectTxs host params context (.start view.getBestBlock.2) 0 before = .ok state ∧
    (if tx.isCoinBase then (true, state.view) else state.view.haveInputs tx.vin) = (true, filled) ∧
    spent = if tx.isCoinBase then filled else (spendInputs filled tx.vin).2

lemma AddsCoins.hidden {params block context view} (valid : view.ValidCache) (inv : ChainCoins host history view.visible)
    (dist : TxsDistinct host (history ++ block.vtx))
    {spent} (adds : AddsCoins host params block context view tx spent)
    {op coin} (made : createdCoin host tx context.nHeight op = some coin) :
    spent.visible op = none := by
  obtain ⟨pre, after, state, filled, split, conn, inputs, rfl⟩ := adds.reached
  have checked := (checkBlock_spec adds.checked).transactions
  have opened := getBestBlock_filled valid.wellFormed
  rw [split] at checked dist
  have shift : history ++ (pre ++ tx :: after) = history ++ pre ++ tx :: after := by simp
  rw [shift] at dist
  have start : ChainCoins host history (start view.getBestBlock.2).view.visible := by
    rw [start, opened.visible]
    exact inv
  obtain ⟨-, wrote, chain⟩ := connectTxs_chain _ (opened.valid valid) start
    (fun other mem => checked _ (by simp [mem])) dist.append_left conn
  have own := checked tx (by simp)
  cases base : tx.isCoinBase with
  | true =>
    simp only [base, if_true, Prod.mk.injEq, true_and] at inputs ⊢
    subst inputs
    have fresh := chain.next_fresh own (by simp [prevouts, base]) dist
    exact chain.hidden fresh made
  | false =>
    simp only [base, Bool.false_eq_true, if_false] at inputs ⊢
    have fills := haveInputs_filled tx.vin wrote.valid.wellFormed
    have found := haveInputs_fst _ wrote.valid.wellFormed (by rw [inputs])
    rw [inputs] at fills
    have held : ∀ op ∈ tx.prevouts, ∃ coin, state.view.visible op = some coin := by
      intro op mem
      simp only [prevouts, base, Bool.false_eq_true, if_false] at mem
      obtain ⟨txin, inVin, rfl⟩ := mem_map.mp mem
      exact found _ inVin
    have fresh := chain.next_fresh own held dist
    rw [(spendInputs_written _ (fills.valid wrote.valid)).visible, FlatMap.spendAll, fills.visible,
      chain.hidden fresh made, ite_self]

section
open Except
variable {host : Host} {params : CChainParams} {context : BlockContext}
def Failure.IsLogicError : Failure → Prop
  | .logicError _ => True
  | _ => False

lemma getValueOut_avoids (tx : CTransaction) : tx.getValueOut.Avoids Failure.IsLogicError := by
  unfold getValueOut
  generalize (0 : Int) = nValueOut
  induction tx.vout generalizing nValueOut with
  | nil => exact .ok _
  | cons out vout ih =>
    rw [addValueOut]
    split
    · exact .error id
    · split
      · exact .error id
      · exact ih _

lemma checkTransaction_avoids {consensus} (tx) :
    (checkTransaction host consensus tx).Avoids Failure.IsLogicError := by
  have outputs : ∀ (vout : List CTxOut) (nValueOut : Int), (checkOutputs consensus tx nValueOut vout).Avoids Failure.IsLogicError := by
    intro vout
    induction vout with
    | nil => exact fun _ => .ok ()
    | cons out vout ih =>
      intro nValueOut
      exact .bind (.require id) fun _ _ => .bind (.require id) fun _ _ => .bind (.require id) fun _ _ =>
        .bind (.require id) fun _ _ => ih _
  refine .bind (.require id) fun _ _ => .bind (.require id) fun _ _ => .bind (.require id) fun _ _ =>
    .bind (outputs _ _) fun _ _ => .bind (.require id) fun _ _ => ?_
  split
  · exact .require id
  · exact .require id

lemma checkBlock_avoids {consensus block} : (checkBlock host consensus block).Avoids Failure.IsLogicError := by
  refine .bind (.require id) fun _ _ => .bind (.require id) fun _ _ => .bind (.require id) fun _ _ =>
    .bind (.require id) fun _ _ => .bind (.require id) fun _ _ => .bind (.require id) fun _ _ =>
    .bind (.require id) fun _ _ => .bind (.require id) fun _ _ => .bind (.require id) fun _ _ =>
    .bind (.require id) fun _ _ => .bind ?_ fun _ _ => .require id
  exact .forM _ fun tx _ => checkTransaction_avoids tx

lemma checkInputs_avoids {view : CCoinsView} {tx nSpendHeight fScriptChecks flags} :
    (checkInputs host params view tx nSpendHeight fScriptChecks flags).Avoids Failure.IsLogicError := by
  have values : ∀ (vin : List CTxIn) (nValueIn : Int),
      (checkInputValues params.consensus view nSpendHeight nValueIn vin).Avoids Failure.IsLogicError := by
    intro vin
    induction vin with
    | nil => exact fun _ => .ok _
    | cons txin vin ih =>
      intro nValueIn
      exact .bind (.require id) fun _ _ => .bind (.require id) fun _ _ => .bind (.require id) fun _ _ => ih _
  have scripts : ∀ (vin : List CTxIn) (nIn : Nat), (checkScripts host view tx flags nIn vin).Avoids Failure.IsLogicError := by
    intro vin
    induction vin with
    | nil => exact fun _ => .ok ()
    | cons txin vin ih =>
      intro nIn
      exact .bind (.require id) fun _ _ => .bind (.require id) fun _ _ => ih _
  have inputs : (checkTxInputs params view tx nSpendHeight).Avoids Failure.IsLogicError := by
    unfold checkTxInputs
    split
    · exact .ok ()
    · refine .bind (.require id) fun _ _ => .bind (values _ _) fun _ _ => ?_
      split
      · exact .ok ()
      · exact .bind (getValueOut_avoids tx) fun _ _ => .bind (.require id) fun _ _ => .bind (.require id) fun _ _ =>
          .require id
  unfold checkInputs
  split
  · exact .ok ()
  · refine .bind inputs fun _ _ => ?_
    split
    · exact scripts _ _
    · exact .ok ()

lemma addCoinsFrom_avoids {txid nHeight vout i view} (valid : view.ValidCache)
    (hidden : ∀ op coin, createdFrom tx txid nHeight i vout op = some coin → view.visible op = none) :
    (addCoinsFrom tx txid nHeight view i vout).Avoids Failure.IsLogicError := by
  induction vout generalizing view i with
  | nil => exact .ok _
  | cons out vout ih =>
    have later : ∀ op coin, createdFrom tx txid nHeight (i + 1) vout op = some coin → view.visible op = none := by
      intro op coin made
      exact hidden _ _ (createdFrom_of_succ _ made)
    cases spent : (txCoin tx nHeight out).isSpent with
    | true =>
      refine .bind ?_ fun added adds => absurd adds ?_
      · simp only [addCoin, spent, if_true]
        exact .error id
      · simp [addCoin, spent]
    | false =>
      cases dead : isUnspendable _ with
      | true =>
        rw [addCoinsFrom, addCoin_unspendable _ _ _ spent dead]
        exact ih valid later
      | false =>
        have own : view.visible ⟨txid, i⟩ = none := hidden _ _ (createdFrom_self dead tx _ _ i _)
        obtain ⟨added, adds, upd⟩ := addCoin_spec valid _ spent dead fun _ => own
        rw [addCoinsFrom, adds]
        refine ih upd.valid fun op coin made => ?_
        rw [upd.visible, Function.update_of_ne (createdFrom_succ_ne made)]
        exact later _ _ made

lemma connectTx_avoids {state} {i : Nat} (valid : state.view.ValidCache)
    (hidden : ∀ filled, (if tx.isCoinBase then (true, state.view) else state.view.haveInputs tx.vin) = (true, filled) →
      ∀ op coin, createdCoin host tx context.nHeight op = some coin →
        (if tx.isCoinBase then filled else (spendInputs filled tx.vin).2).visible op = none) :
    (connectTx host params context state i tx).Avoids Failure.IsLogicError := by
  refine .bind (.require id) fun _ _ => .bind (.require id) fun _ held => .bind (.require id) fun _ _ =>
    .bind (getValueOut_avoids tx) fun _ _ => .bind (checkInputs_avoids) fun _ _ => .bind ?_ fun _ _ => .ok _
  rw [require_eq_ok] at held
  have hidden' := hidden _ (Prod.ext held rfl)
  rw [← createdFrom_zero] at hidden'
  refine .bind ?_ fun _ _ => .ok _
  cases base : tx.isCoinBase with
  | true =>
    simp only [base, if_true] at hidden' ⊢
    exact addCoinsFrom_avoids valid hidden'
  | false =>
    simp only [base, Bool.false_eq_true, if_false] at hidden' ⊢
    have fills := haveInputs_filled tx.vin valid.wellFormed
    exact addCoinsFrom_avoids (spendInputs_written _ (fills.valid valid)).valid hidden'

lemma connectTxs_avoids {vtx state i}
    (each : ∀ pre tx after next, vtx = pre ++ tx :: after → connectTxs host params context state i pre = .ok next →
      (connectTx host params context next (i + pre.length) tx).Avoids Failure.IsLogicError) :
    (connectTxs host params context state i vtx).Avoids Failure.IsLogicError := by
  induction vtx generalizing state i with
  | nil => exact .ok _
  | cons tx vtx ih =>
    refine .bind (each [] tx _ _ rfl rfl) fun next first => ih fun pre other after final split runs => ?_
    have shifted := each (tx :: pre) _ _ _ (by rw [split]; rfl) (by rw [connectTxs, first]; exact runs)
    rw [length_cons, Nat.add_comm pre.length, ← Nat.add_assoc] at shifted
    exact shifted
end

variable {host : Host} {params : CChainParams} {mDynamicRewards : DynamicRewards} {block : CBlock}
  {pindexNew pprev : CBlockIndex} {history : List CTransaction}

structure BlockConnected (host : Host) (nHeight : Nat) (history vtx : List CTransaction) (view result : CCoinsView) : Prop where
  valid : result.ValidCache
  depth : result.depth = view.depth
  cursor : result.cursor = view.cursor
  connects : ∃ undos, Connects host nHeight view.visible vtx undos result.visible
  chain : ChainCoins host (history ++ vtx) result.visible

lemma ChainCoins.opened {view : CCoinsView} (inv : ChainCoins host history view.visible) (valid : view.ValidCache) :
    ChainCoins host history (start view.getBestBlock.2).view.visible := by
  have start : (start view.getBestBlock.2).view.visible = view.visible := (getBestBlock_filled valid.wellFormed).visible
  rw [start]
  exact inv

lemma connectBlock_chain {view : CCoinsView} {res} (valid : view.ValidCache)
    (inv : ChainCoins host history view.visible) (dist : TxsDistinct host (history ++ block.vtx))
    (connected : connectBlock host params mDynamicRewards block pindexNew pprev view = .ok res) :
    BlockConnected host pindexNew.nHeight history block.vtx view res.view := by
  obtain ⟨state, acc⟩ := connectBlock_accepted connected
  have opened := getBestBlock_filled valid.wellFormed
  have start : (start view.getBestBlock.2).view.visible = view.visible := opened.visible
  have inv' := inv.opened valid
  obtain ⟨⟨undos, conn⟩, wrote, chain⟩ := connectTxs_chain _ (opened.valid valid) inv'
    acc.checked.transactions dist acc.connected
  rw [start] at conn
  rw [acc.view_eq]
  refine ⟨setBestBlock_valid wrote.valid _, ?_, ?_, ⟨undos, ?_⟩, ?_⟩
  · rw [setBestBlock_depth]
    exact wrote.depth.trans opened.depth
  · rw [setBestBlock_cursor]
    exact wrote.cursor.trans opened.cursor
  · rw [setBestBlock_visible]
    exact conn
  · rw [setBestBlock_visible]
    exact chain

lemma connectTip_chain {pcoinsTip wrote res} (valid : pcoinsTip.ValidCache)
    (inv : ChainCoins host history pcoinsTip.visible) (dist : TxsDistinct host (history ++ block.vtx))
    (conn : connectTip host params mDynamicRewards block pindexNew pprev pcoinsTip = .ok (res, wrote)) :
    BlockConnected host pindexNew.nHeight history block.vtx pcoinsTip.newCache res.view ∧ wrote.ValidCache ∧
      wrote.visible = res.view.visible ∧ wrote.depth = pcoinsTip.depth := by
  obtain ⟨connected, layer', flushes⟩ := connectTip_ok conn
  have block' := connectBlock_chain (newCache_valid valid.wellFormed) (by exact inv) dist connected
  obtain ⟨-, -, -, layer, base, flushedLayer, flushedBase, shape, same, wf, shown, depth⟩ :=
    flush_ok block'.valid flushes
  cases same
  have below : base.depth = pcoinsTip.depth := by
    have whole := block'.depth
    rw [shape] at whole
    exact Nat.succ.inj whole
  exact ⟨block', ⟨isCache_of_depth (depth.trans below) valid.isCache, wf⟩, shown, depth.trans below⟩

lemma connectTip_avoids {pcoinsTip} (valid : pcoinsTip.ValidCache)
    (inv : ChainCoins host history pcoinsTip.visible) (dist : TxsDistinct host (history ++ block.vtx)) :
    (connectTip host params mDynamicRewards block pindexNew pprev pcoinsTip).Avoids Failure.IsLogicError := by
  have fresh := newCache_valid valid.wellFormed
  have opened := getBestBlock_filled fresh.wellFormed
  have inv' : ChainCoins host history pcoinsTip.newCache.visible := by
    exact inv
  refine Except.Avoids.bind ?_ fun res conn => .bind ?_ fun flushed _ => ?_
  · -- ConnectBlock: every transaction is added to a view that hides the outputs it creates.
    refine .bind (checkBlock_avoids) fun _ chk => .bind (.require id) fun _ _ => .bind (.require id) fun _ _ =>
      .bind (.require id) fun _ _ => .bind ?_ fun _ _ => .bind (.require id) fun _ _ => .ok _
    refine connectTxs_avoids fun pre tx after next split conn => ?_
    have start : ChainCoins host history (start pcoinsTip.newCache.getBestBlock.2).view.visible := by
      rw [start, opened.visible]
      exact inv'
    have transactions := (checkBlock_spec chk).transactions
    have distinct' := dist
    rw [split] at transactions distinct'
    rw [← append_assoc] at distinct'
    obtain ⟨-, wrote, -⟩ := connectTxs_chain _ (opened.valid fresh) start
      (fun other mem => transactions _ (by simp [mem])) distinct'.append_left conn
    refine connectTx_avoids wrote.valid fun filled inputs op coin made => ?_
    exact AddsCoins.hidden fresh inv' dist ⟨chk, _, _, _, _, split, conn, inputs, rfl⟩ made
  · -- The flush of the block's view into the tip cache.
    have block' := connectBlock_chain fresh inv' dist conn
    cases shape : res.view with
    | db database =>
      rw [shape] at block'
      exact block'.valid.isCache.elim
    | cache layer base =>
      rw [shape] at block'
      obtain ⟨wrote, flushes, -⟩ := flush_spec block'.valid.wellFormed
      rw [flushes]
      exact .ok _
  · cases flushed with
    | db database => exact .error id
    | cache layer base => exact .ok _

structure ChainInvariant (host : Host) (state : ChainState) : Prop where
  valid : state.pcoinsTip.ValidCache
  depth : state.pcoinsTip.depth = 1
  coins : ChainCoins host state.vtx state.pcoinsTip.visible

/-- The coinbase's id is new; distinct transactions hash differently. -/
def NewCoinbase (host : Host) (state : ChainState) (block : CBlock) (_ : CBlockIndex) : Prop :=
  HashesDistinct host (state.vtx ++ block.vtx) ∧ CoinbasesDistinct host (state.vtx ++ block.vtx)

lemma ChainInvariant.filled {state} (inv : ChainInvariant host state) {pcoinsTip}
    (fills : Filled state.pcoinsTip pcoinsTip) : ChainInvariant host { state with pcoinsTip } :=
  ⟨fills.valid inv.valid, fills.depth.trans inv.depth, by rw [fills.visible]; exact inv.coins⟩

lemma ChainInvariant.step {state next} (inv : ChainInvariant host state) {may}
    (new : ∀ block pindexNew, may state block pindexNew → NewCoinbase host state block pindexNew)
    (step : ChainStep host params may state next) : ChainInvariant host next := by
  cases step with
  | connect link adm conn =>
    obtain ⟨block', valid, shown, depth⟩ := connectTip_chain inv.valid inv.coins (new _ _ adm) conn
    refine ⟨valid, depth.trans inv.depth, ?_⟩
    rw [shown]
    exact block'.chain
  | flush flushes =>
    obtain ⟨valid, shown, depth, -⟩ := flush_ok inv.valid flushes
    refine ⟨valid, depth.trans inv.depth, ?_⟩
    rw [shown]
    exact inv.coins
  | getCoin op => exact inv.filled (getCoin_spec inv.valid.wellFormed _).filled
  | uncache op => exact inv.filled (uncache_filled inv.valid.wellFormed _)

lemma ChainInvariant.run {genesis state}
    (run : ChainRun host params (NewCoinbase host) (genesisState genesis) state) : ChainInvariant host state := by
  induction run with
  | refl => exact ⟨genesisState_valid _, rfl, ChainCoins.empty _⟩
  | tail _ step inv => exact inv.step (fun _ _ adm => adm) step

/-- With distinct coinbases no unspent coin is met and the cache never throws. -/
theorem addCoins_never_overwrites {genesis : CBlockIndex} {state : ChainState}
    (run : ChainRun host params (NewCoinbase host) (genesisState genesis) state)
    (admitted : NewCoinbase host state block pindexNew) :
    (∀ tx spent, AddsCoins host params block ⟨pindexNew.nHeight, state.tip.nHeight⟩ state.pcoinsTip.newCache tx spent →
      ∀ outpoint coin, createdCoin host tx pindexNew.nHeight outpoint = some coin → spent.visible outpoint = none) ∧
    ∀ what, connectTip host params mDynamicRewards block pindexNew state.tip state.pcoinsTip ≠ .error (.logicError what) := by
  have inv := ChainInvariant.run run
  constructor
  · intro tx spent adds outpoint coin created
    exact adds.hidden (newCache_valid inv.valid.wellFormed) (by exact inv.coins) admitted
      created
  · intro what fails
    exact connectTip_avoids inv.valid inv.coins admitted _ fails trivial

def firstBlock : CBlock := blockAt 1 [coinbaseTx 10 (50 * COIN)]
def secondBlock : CBlock := blockAt 2 [coinbaseTx 11 0, paymentTx 12 [⟨10, 0⟩] [⟨7, []⟩]]
-- the coinbase of the first block once more
def repeatBlock : CBlock := blockAt 2 [coinbaseTx 10 (50 * COIN)]

def firstTip : CCoinsView :=
  .cache ⟨1, (∅ : CCoinsMap).insert ⟨10, 0⟩ ⟨⟨true, false, ⟨50 * COIN, []⟩, 1⟩, true, true⟩⟩ (.db ⟨0, ∅⟩)

def firstState : ChainState := ⟨{ newIndex 1 with nMoneySupply := 50 * COIN }, firstTip, firstBlock.vtx⟩

lemma firstBlock_connects : ∃ res, connectTip labelHost mainParams ∅ firstBlock (newIndex 1) (indexAt 0)
    (genesisState (indexAt 0)).pcoinsTip = .ok (res, firstTip) ∧ res.nMoneySupply = 50 * COIN := by
  refine ⟨_, rfl, ?_⟩
  rfl

lemma firstState_run {may}
    (adm : may (genesisState (indexAt 0)) firstBlock (newIndex 1)) :
    ChainRun labelHost mainParams may (genesisState (indexAt 0)) firstState := by
  obtain ⟨res, conn, supply⟩ := firstBlock_connects
  have step : ChainStep labelHost mainParams may (genesisState (indexAt 0)) _ := .connect rfl adm conn
  rw [supply] at step
  exact .single step

theorem secondBlock_overwrites_nothing : NewCoinbase labelHost firstState secondBlock (newIndex 2) ∧ ∀ what,
    connectTip labelHost mainParams ∅ secondBlock (newIndex 2) firstState.tip firstState.pcoinsTip ≠ .error (.logicError what) := by
  have first : NewCoinbase labelHost (genesisState (indexAt 0)) firstBlock (newIndex 1) := ⟨by decide, by decide⟩
  have second : NewCoinbase labelHost firstState secondBlock (newIndex 2) := ⟨by decide, by decide⟩
  exact ⟨second, (addCoins_never_overwrites (firstState_run first) second).2⟩

/-- Two blocks with the same coinbase pass: the second adds an unspent output, and its flush throws. -/
theorem repeatBlock_overwrites : ChainRun labelHost mainParams (fun state block _ => HashesDistinct labelHost (state.vtx ++ block.vtx))
      (genesisState (indexAt 0)) firstState ∧
    HashesDistinct labelHost (firstState.vtx ++ repeatBlock.vtx) ∧
    contextualCheckBlock labelHost mainConsensus emptyNode false MAX_BLOCK_SIZE_CURRENT firstBlock (some (indexAt 0)) = .ok () ∧
    contextualCheckBlock labelHost mainConsensus emptyNode false MAX_BLOCK_SIZE_CURRENT repeatBlock (some (indexAt 1)) = .ok () ∧
    (∃ result, connectBlock labelHost mainParams ∅ repeatBlock (newIndex 2) firstState.tip firstState.pcoinsTip.newCache =
      .ok result) ∧
    (∃ spent coin, AddsCoins labelHost mainParams repeatBlock ⟨2, 1⟩ firstState.pcoinsTip.newCache (coinbaseTx 10 (50 * COIN)) spent ∧
      createdCoin labelHost (coinbaseTx 10 (50 * COIN)) 2 ⟨10, 0⟩ = some coin ∧ spent.visible ⟨10, 0⟩ ≠ none) ∧
    connectTip labelHost mainParams ∅ repeatBlock (newIndex 2) firstState.tip firstState.pcoinsTip = .error
      (.logicError "FRESH flag misapplied to cache entry for base transaction with spendable outputs") := by
  refine ⟨firstState_run (by decide), by decide, rfl, rfl, ⟨_, rfl⟩, ?_, rfl⟩
  refine ⟨firstState.pcoinsTip.newCache.getBestBlock.2, _, ⟨rfl, [], [], _, _, rfl, rfl, rfl, rfl⟩, rfl, by decide⟩

end Peony
