import Peony.Mining.CreateNewBlock
import Peony.Validation.BranchCoins

namespace Peony
open Int64Arith Consensus Codec List Except MinerState CTxOut

/-- The bytes of a header, which has an accumulator checkpoint in versions 4 to 6. -/
def headerSize (nVersion : Int) : Nat := if 3 < nVersion ∧ nVersion < 7 then 112 else 80

/-- The bytes of a block: the signature is only written for proof of stake. -/
def serializedSize (getSerializeSize : CTransaction → Nat) (block : CBlock) : Nat :=
  headerSize block.nVersion + (compactSize block.vtx.length).length + (block.vtx.map getSerializeSize).sum +
    if block.isProofOfStake then (compactSize block.vchBlockSig.length).length + block.vchBlockSig.length else 0

/-- Blocks are their parts in a row; amounts have one width and no operations. -/
structure Host.Measures (host : Host) : Prop where
  positive : ∀ tx, 0 < host.getSerializeSize tx
  block : ∀ block, host.getBlockSerializeSize block = serializedSize host.getSerializeSize block
  size : ∀ tx vout, vout.map scriptPubKey = tx.vout.map scriptPubKey →
    host.getSerializeSize { tx with vout } = host.getSerializeSize tx
  sigOps : ∀ tx vout, vout.map scriptPubKey = tx.vout.map scriptPubKey →
    host.getLegacySigOpCount { tx with vout } = host.getLegacySigOpCount tx

/-- The size up to which `CheckBlock` and `ContextualCheckBlock` accept a block. -/
def AcceptContext.sizeLimit (context : AcceptContext) : Nat :=
  if context.fInitialBlockDownload then MAX_BLOCK_SIZE_CURRENT else max 1000 (min context.nSporkSize MAX_BLOCK_SIZE_CURRENT)

/-- The limits for a block on top of height `nHeight`. `ConnectBlock` has a higher bound for legacy operations. -/
structure BlockLimits (host : Host) (params : Params) (context : AcceptContext) (node : NodeState) (nHeight : Nat)
    (block : CBlock) : Prop where
  count : block.vtx.length ≤ MAX_BLOCK_SIZE_CURRENT
  size : host.getBlockSerializeSize block ≤ context.sizeLimit
  sigOps : (block.vtx.map host.getLegacySigOpCount).sum ≤ MAX_BLOCK_SIGOPS_LEGACY
  burned : params.mBurnAddresses.entries.isEmpty = false → ∀ tx ∈ block.vtx, tx.isCoinBase = false → ∀ txin ∈ tx.vin,
    scanBurnAddress host params node (nHeight + 1 : Nat) (.dos 100 "bad-txns-banned") txin = .ok ()

instance (host : Host) (params : Params) (context : AcceptContext) (node : NodeState) (nHeight : Nat) (block : CBlock) :
    Decidable (BlockLimits host params context node nHeight block) :=
  decidable_of_iff
    (block.vtx.length ≤ MAX_BLOCK_SIZE_CURRENT ∧ host.getBlockSerializeSize block ≤ context.sizeLimit ∧
      (block.vtx.map host.getLegacySigOpCount).sum ≤ MAX_BLOCK_SIGOPS_LEGACY ∧
      (params.mBurnAddresses.entries.isEmpty = false → ∀ tx ∈ block.vtx, tx.isCoinBase = false → ∀ txin ∈ tx.vin,
        scanBurnAddress host params node (nHeight + 1 : Nat) (.dos 100 "bad-txns-banned") txin = .ok ()))
    ⟨fun ⟨count, size, sigOps, burned⟩ => ⟨count, size, sigOps, burned⟩,
      fun ⟨count, size, sigOps, burned⟩ => ⟨count, size, sigOps, burned⟩⟩

/-- What `CheckBlock` and `ContextualCheckBlock` report for a block past the limits. -/
def Failure.IsLimit (failure : Failure) : Prop :=
  failure ∈ [.dos 100 "bad-blk-length", .dos 100 "bad-blk-sigops", .dos 100 "bad-txns-banned", .invalid "bad-blk-length"]

instance (failure : Failure) : Decidable failure.IsLimit := inferInstanceAs (Decidable (_ ∈ _))

section
variable {host : Host} {params : CChainParams} {miner : Miner} {node : NodeState} {block : CBlock} {pindexPrev : CBlockIndex}
lemma blockLimits_of_testBlockValidity (passed : testBlockValidity host params miner node block pindexPrev = .ok ()) :
    BlockLimits host params.consensus miner.context node pindexPrev.nHeight block := by
  simp only [testBlockValidity, unit_bind_eq_ok] at passed
  obtain ⟨-, -, checked, contextual, -⟩ := passed
  simp only [checkBlockFlags, Bool.false_eq_true, if_false, unit_bind_eq_ok, require_eq_ok, Bool.and_eq_true,
    decide_eq_true_eq] at checked
  obtain ⟨-, -, -, ⟨⟨-, count⟩, size⟩, -, -, -, -, -, -, -, sigOps⟩ := checked
  simp only [contextualCheckBlock, Option.elim_some, unit_bind_eq_ok, require_eq_ok, Bool.or_eq_true, beq_iff_eq,
    Nat.succ_ne_zero, false_or, decide_eq_true_eq] at contextual
  obtain ⟨-, scanned, sporkSize⟩ := contextual
  refine ⟨count, ?_, sigOps, fun full tx mem plain => ?_⟩
  · unfold AcceptContext.sizeLimit
    split
    · exact size
    · rename_i synced
      exact sporkSize.resolve_left synced
  · rw [full, if_neg Bool.false_ne_true, forM_eq_ok] at scanned
    have here := scanned tx mem
    rw [plain, if_neg Bool.false_ne_true, forM_eq_ok] at here
    exact here

lemma AcceptContext.sizeLimit_le (context : AcceptContext) : context.sizeLimit ≤ MAX_BLOCK_SIZE_CURRENT := by
  have room : 1000 ≤ MAX_BLOCK_SIZE_CURRENT := by decide
  unfold sizeLimit
  split <;> omega

lemma checkTransaction_unlimited (tx) : (checkTransaction host params.consensus tx).Avoids Failure.IsLimit := by
  have outputs : ∀ (vout : List CTxOut) (nValueOut : Int),
      (checkOutputs params.consensus tx nValueOut vout).Avoids Failure.IsLimit := by
    intro vout
    induction vout with
    | nil => exact fun _ => .ok ()
    | cons out vout ih =>
      intro nValueOut
      unfold checkOutputs
      iterate 4 refine .bind (.require (by decide)) fun _ _ => ?_
      exact ih _
  unfold checkTransaction
  iterate 3 refine .bind (.require (by decide)) fun _ _ => ?_
  refine .bind (outputs _ _) fun _ _ => .bind (.require (by decide)) fun _ _ => ?_
  split
  · exact .require (by decide)
  · exact .require (by decide)

variable (limits : BlockLimits host params.consensus miner.context node pindexPrev.nHeight block)
include limits

lemma BlockLimits.checkBlock_avoids (nonempty : block.vtx ≠ []) :
    (checkBlockFlags host params.consensus block false false false).Avoids Failure.IsLimit := by
  have size := limits.size.trans miner.context.sizeLimit_le
  have passes : (!block.vtx.isEmpty && decide (block.vtx.length ≤ MAX_BLOCK_SIZE_CURRENT) &&
      decide (host.getBlockSerializeSize block ≤ MAX_BLOCK_SIZE_CURRENT)) = true := by simp [nonempty, limits.count, size]
  simp only [checkBlockFlags, Bool.false_eq_true, if_false, passes, limits.sigOps, decide_true]
  iterate 3 refine .bind (.require (by decide)) fun _ _ => ?_
  refine .bind (.ok ()) fun _ _ => ?_
  iterate 6 refine .bind (.require (by decide)) fun _ _ => ?_
  exact .bind (.forM _ fun tx _ => checkTransaction_unlimited tx) fun _ _ => .ok ()

lemma BlockLimits.contextualCheckBlock_avoids : (contextualCheckBlock host params.consensus node
    miner.context.fInitialBlockDownload miner.context.nSporkSize block (some pindexPrev)).Avoids Failure.IsLimit := by
  have size := limits.size
  unfold AcceptContext.sizeLimit at size
  have scans : (if params.consensus.mBurnAddresses.entries.isEmpty then .ok () else block.vtx.forM fun tx =>
      if tx.isCoinBase then .ok () else tx.vin.forM (scanBurnAddress host params.consensus node
        (pindexPrev.nHeight + 1 : Nat) (.dos 100 "bad-txns-banned")) : Except Failure Unit) = .ok () := by
    cases full : params.consensus.mBurnAddresses.entries.isEmpty with
    | true => rfl
    | false =>
      refine (forM_eq_ok _).mpr fun tx mem => ?_
      cases plain : tx.isCoinBase with
      | true => rfl
      | false => exact (forM_eq_ok _).mpr (limits.burned full tx mem plain)
  simp only [contextualCheckBlock, Option.elim_some]
  refine .bind (.require (by decide)) fun _ _ => ?_
  rw [scans]
  refine .bind (.ok ()) fun _ _ => ?_
  have passes : (pindexPrev.nHeight + 1 == 0 || miner.context.fInitialBlockDownload ||
      decide (host.getBlockSerializeSize block ≤ max 1000 (min miner.context.nSporkSize MAX_BLOCK_SIZE_CURRENT))) = true := by
    cases downloads : miner.context.fInitialBlockDownload with
    | true => simp
    | false =>
      rw [downloads, if_neg Bool.false_ne_true] at size
      simp only [size, decide_true, Bool.or_true]
  rw [passes]
  exact .ok ()
end

section
variable {host : Host} {params : Params} {node : NodeState} {nHeight : Nat} {banned : Failure} {txin : CTxIn} {tx : CTransaction}
lemma scanBurnAddress_eq_ok {height} : scanBurnAddress host params node height banned txin = .ok () ↔
    ∀ txPrev hashBlock, node.getTransaction host txin.prevout.hash = some (txPrev, hashBlock) →
      ∃ out, txPrev.vout[txin.prevout.n]? = some out ∧ ∀ addr, host.extractDestination out.scriptPubKey = some addr →
        ∀ activation, params.mBurnAddresses.lookup addr = some activation → height ≤ activation := by
  unfold scanBurnAddress
  cases found : node.getTransaction _ _ with
  | none => simp
  | some entry =>
    obtain ⟨txPrev, hashBlock⟩ := entry
    have only : ∀ fine : CTransaction → Prop, (∀ other hash, some (txPrev, hashBlock) = some (other, hash) → fine other) ↔
        fine txPrev := by
      intro fine
      refine ⟨fun all => all _ _ rfl, fun one other hash same => ?_⟩
      cases same
      exact one
    rw [only]
    simp only [CTransaction.voutAt]
    cases txPrev.vout[txin.prevout.n]? with
    | none =>
      constructor
      · intro runs
        cases runs
      · rintro ⟨out, none, -⟩
        cases none
    | some out =>
      show require _ _ = .ok () ↔ _
      rw [require_eq_ok]
      simp only [Bool.not_eq_true', Option.any_eq_false, decide_eq_false_iff_not, Int.not_lt, Option.some.injEq,
        exists_eq_left']

def SpendsNewlyBurned (host : Host) (params : Params) (node : NodeState) (nHeight : Nat) (txin : CTxIn) : Prop :=
  ∃ txPrev hashBlock out addr, node.getTransaction host txin.prevout.hash = some (txPrev, hashBlock) ∧
    txPrev.vout[txin.prevout.n]? = some out ∧ host.extractDestination out.scriptPubKey = some addr ∧
    params.mBurnAddresses.lookup addr = some (nHeight : Int)

lemma scan_succ {banned'} (passed : scanBurnAddress host params node nHeight banned txin = .ok ())
    (fine : ¬ SpendsNewlyBurned host params node nHeight txin) :
    scanBurnAddress host params node (nHeight + 1 : Nat) banned' txin = .ok () := by
  rw [scanBurnAddress_eq_ok] at passed ⊢
  intro txPrev hashBlock found
  obtain ⟨out, ins, may⟩ := passed _ _ found
  refine ⟨_, ins, fun addr paid activation burned => ?_⟩
  have early := may _ paid _ burned
  have other : activation ≠ nHeight := by
    rintro rfl
    exact fine ⟨_, _, _, _, found, ins, paid, burned⟩
  omega

/-- The pool took the transaction at this tip, when it held the same parents of it as now. -/
def Admitted (host : Host) (params : Params) (node : NodeState) (tx : CTransaction) : Prop :=
  ∃ pool context, acceptToMemoryPoolWorker host params { node with mempool := pool } context tx = .ok () ∧
    ∀ txin ∈ tx.vin, pool.lookup txin.prevout.hash = node.mempool.lookup txin.prevout.hash

lemma Admitted.scanned (adm : Admitted host params node tx) (full : params.mBurnAddresses.entries.isEmpty = false)
    (ins : txin ∈ tx.vin) :
    scanBurnAddress host params node node.chainActive.height (.dos 0 "bad-txns-invalid-outputs") txin = .ok () := by
  obtain ⟨pool, context, acc, parents⟩ := adm
  simp only [acceptToMemoryPoolWorker, unit_bind_eq_ok, full, Bool.false_eq_true, if_false] at acc
  have passed := (forM_eq_ok _).mp acc.2.1 _ ins
  have same : NodeState.getTransaction host { node with mempool := pool } txin.prevout.hash =
      node.getTransaction host txin.prevout.hash := by
    unfold NodeState.getTransaction
    rw [parents _ ins]
    rfl
  unfold scanBurnAddress at passed ⊢
  rw [same] at passed
  exact passed

lemma CChain.height_of_tip {chain : CChain} {pindex} (last : chain.tip = some pindex) : chain.height = pindex.nHeight := by
  unfold tip at last
  rw [List.getLast?_eq_getElem?] at last
  have place := chain.heights _ _ last
  have ins := (List.getElem?_eq_some_iff.mp last).1
  unfold height
  omega
end

lemma length_compactSize_le (n m) : (compactSize n).length ≤ (compactSize m).length + 8 := by
  simp only [compactSize]
  split_ifs <;> simp only [length_append, length_fixed] <;> omega

variable {vtx : List CTransaction} {block : CBlock}
lemma isProofOfStake_append (plain : ∀ tx ∈ vtx, tx.isCoinStake = false) :
    { block with vtx := block.vtx ++ vtx }.isProofOfStake = block.isProofOfStake := by
  unfold CBlock.isProofOfStake
  match block.vtx, vtx with
  | [], [] | [], [_] | [_], [] | _ :: _ :: _, _ => rfl
  | [], _ :: tx :: _ => exact plain tx (by simp)
  | [_], tx :: _ => exact plain tx (by simp)

/-- A longer count of the transactions takes up to eight more bytes. -/
lemma serializedSize_append_le (getSerializeSize) (block : CBlock) (plain : ∀ tx ∈ vtx, tx.isCoinStake = false) :
    serializedSize getSerializeSize { block with vtx := block.vtx ++ vtx } ≤
      serializedSize getSerializeSize block + 8 + (vtx.map getSerializeSize).sum := by
  have count := length_compactSize_le (block.vtx ++ vtx).length block.vtx.length
  simp only [serializedSize, isProofOfStake_append plain, map_append, sum_append]
  omega

lemma length_le_serializedSize {host : Host} (measures : host.Measures) (block : CBlock) :
    block.vtx.length ≤ serializedSize host.getSerializeSize block := by
  have each : block.vtx.length ≤ (block.vtx.map host.getSerializeSize).sum := by
    induction block.vtx with
    | nil => exact Nat.le_refl _
    | cons tx vtx ih =>
      have one := measures.positive tx
      simp only [length_cons, map_cons, sum_cons]
      omega
  unfold serializedSize
  omega

lemma Miner.nBlockMaxSize_le (miner : Miner) : 1000 ≤ miner.nBlockMaxSize ∧ miner.nBlockMaxSize ≤ miner.context.sizeLimit := by
  have room : 1000 ≤ MAX_BLOCK_SIZE_CURRENT := by decide
  unfold nBlockMaxSize AcceptContext.sizeLimit
  split <;> omega

/-- The bytes set aside are enough for the head with any signature of the wallet, and its coinstake is no burned one. -/
structure HeadFits (host : Host) (params : Params) (miner : Miner) (node : NodeState) (nHeight : Nat) (pblock : CBlock) : Prop where
  nonempty : pblock.vtx ≠ []
  reserved : ∀ vchBlockSig, (vchBlockSig = pblock.vchBlockSig ∨ ∃ unsigned, miner.signBlock unsigned = some vchBlockSig) →
    serializedSize host.getSerializeSize { pblock with vchBlockSig } + 8 ≤ 1000
  burned : params.mBurnAddresses.entries.isEmpty = false → ∀ tx ∈ pblock.vtx, tx.isCoinBase = false → ∀ txin ∈ tx.vin,
    scanBurnAddress host params node (nHeight + 1 : Nat) (.dos 100 "bad-txns-banned") txin = .ok ()

/-- Transactions of the pool that are together within the builder's own bounds. -/
structure Selectable (host : Host) (miner : Miner) (node : NodeState) (vtx : List CTransaction) : Prop where
  pooled : vtx.Subperm (node.mempool.entries.map Sigma.snd)
  ordinary : ∀ tx ∈ vtx, IsOrdinary tx
  size : vtx = [] ∨ 1000 + (vtx.map host.getSerializeSize).sum < miner.nBlockMaxSize
  sigOps : 100 + (vtx.map host.getLegacySigOpCount).sum < MAX_BLOCK_SIGOPS_CURRENT

/-- Nothing that is selectable has more operations than `CheckBlock` allows, or spends from an address burned at the tip. -/
structure PoolFits (host : Host) (params : Params) (miner : Miner) (node : NodeState) (nHeight : Nat) (pblock : CBlock) : Prop where
  sigOps : ∀ vtx, Selectable host miner node vtx →
    (pblock.vtx.map host.getLegacySigOpCount).sum + (vtx.map host.getLegacySigOpCount).sum ≤ MAX_BLOCK_SIGOPS_LEGACY
  burned : ∀ vtx, Selectable host miner node vtx → ∀ tx ∈ vtx, ∀ txin ∈ tx.vin, ¬ SpendsNewlyBurned host params node nHeight txin

lemma MinerState.Reserves.selectable {host : Host} {miner : Miner} {node : NodeState} {state : MinerState}
    (reserves : state.Reserves host miner (node.mempool.entries.map Sigma.snd)) : Selectable host miner node state.vtx := by
  refine ⟨(sublist_append_left _ _).subperm.trans reserves.pooled, fun tx mem => reserves.ordinary tx (mem_append_left _ mem), ?_, ?_⟩
  · rw [← reserves.size]
    exact reserves.small
  · exact lt_of_le_of_lt reserves.sigOps reserves.few

lemma getBlockSerializeSize_replace {host : Host} {tx paid}
    (measures : host.Measures) (size : host.getSerializeSize paid = host.getSerializeSize tx) :
    host.getBlockSerializeSize { block with vtx := paid :: vtx } = host.getBlockSerializeSize { block with vtx := tx :: vtx } := by
  have staked : { block with vtx := paid :: vtx }.isProofOfStake = { block with vtx := tx :: vtx }.isProofOfStake := by
    cases vtx <;> rfl
  rw [measures.block, measures.block]
  simp [serializedSize, staked, size]

section
variable {host : Host} {params : Params} {context : AcceptContext} {node : NodeState} {nHeight : Nat}
lemma BlockLimits.replace_head {tx paid : CTransaction} (measures : host.Measures)
    (limits : BlockLimits host params context node nHeight { block with vtx := tx :: vtx }) (inputs : paid.vin = tx.vin)
    (size : host.getSerializeSize paid = host.getSerializeSize tx)
    (sigOps : host.getLegacySigOpCount paid = host.getLegacySigOpCount tx) :
    BlockLimits host params context node nHeight { block with vtx := paid :: vtx } := by
  have cnt := limits.sigOps
  refine ⟨limits.count, ?_, ?_, fun full other mem plain => ?_⟩
  · rw [getBlockSerializeSize_replace measures size]
    exact limits.size
  · simpa only [map_cons, sigOps] using cnt
  · rcases mem_cons.mp mem with rfl | later
    · have same : other.isCoinBase = tx.isCoinBase := by rw [CTransaction.isCoinBase, CTransaction.isCoinBase, inputs]
      rw [inputs]
      exact limits.burned full tx mem_cons_self (same ▸ plain)
    · exact limits.burned full _ (mem_cons_of_mem _ later) plain

lemma map_scriptPubKey_addFees (tx : CTransaction) (nFees) :
    (tx.vout.modifyHead fun out => { out with nValue := wrapInt64 (out.nValue + nFees) }).map scriptPubKey =
      tx.vout.map scriptPubKey := by
  cases tx.vout <;> rfl

lemma blockLimits_addFees_iff {nFees : Int} {head vtx} (measures : host.Measures) :
    BlockLimits host params context node nHeight { block with vtx := addFees nFees head ++ vtx } ↔
      BlockLimits host params context node nHeight { block with vtx := head ++ vtx } := by
  cases head with
  | nil => rfl
  | cons tx head =>
    have size := measures.size tx _ (map_scriptPubKey_addFees tx nFees)
    have sigOps := measures.sigOps tx _ (map_scriptPubKey_addFees tx nFees)
    exact ⟨fun limits => limits.replace_head measures rfl size.symm sigOps.symm,
      fun limits => limits.replace_head measures rfl size sigOps⟩
end

section
def MAX_TX_SIGOPS_CURRENT : Nat := MAX_BLOCK_SIGOPS_CURRENT / 5
def bulkSize (tx : CTransaction) : Nat := if tx.isCoinBase then 110 else 16250

/-- Payments to 350 bare multisignature outputs, of twenty operations each. -/
def bulkHost : Host := { labelHost with
  getSerializeSize := bulkSize
  getLegacySigOpCount := fun tx => if tx.isCoinBase then 1 else 7000
  getBlockSerializeSize := serializedSize bulkSize }

lemma bulkHost_measures : bulkHost.Measures :=
  ⟨fun tx => by change 0 < bulkSize tx; unfold bulkSize; split <;> decide, fun _ => rfl, fun _ _ _ => rfl, fun _ _ _ => rfl⟩

def bulkPool : PoolContext := { openPool with
  checkCoins := fun tx => require (decide (bulkHost.getLegacySigOpCount tx ≤ MAX_TX_SIGOPS_CURRENT))
    (.dos 0 "bad-txns-too-many-sigops")
  checkCoins_safe := fun _ => Except.Avoids.require not_false }

def bulkTx (label : Nat) : CTransaction := paymentTx label [⟨BitVec.ofNat 256 (label + 100), 0⟩] [⟨90, [0x51]⟩]
def bulkFunding (label : Nat) : CTransaction := paymentTx label [] [⟨100, [0x51]⟩]

def bulkNode (labels : List Nat) : NodeState where
  mapBlockIndex := ∅
  chainActive := straightChain 2
  mempool := labels.foldr (fun label pool => pool.insert (BitVec.ofNat 256 label) (bulkTx label)) ∅
  fTxIndex := true
  txIndex := labels.foldr (fun label index =>
    index.insert (BitVec.ofNat 256 (label + 100)) (headerAt 1, bulkFunding (label + 100))) ∅
  blockFiles := ∅
  pcoinsTip := .db ⟨(indexAt 1).hash, labels.foldr (fun label coins =>
    coins.insert ⟨BitVec.ofNat 256 (label + 100), 0⟩ (txCoin (bulkFunding (label + 100)) 1 ⟨100, [0x51]⟩)) ∅⟩

def defaultMiner : Miner where
  context := sampleContext
  mDynamicRewards := ∅
  nAdjustedTime := 1
  blockversion := none
  blockmaxsize := 750000
  blockprioritysize := 50000
  blockminsize := 0
  allowFree _ := true
  isFree _ := false
  front _ _ := 0
  getMedianTimePast _ := 0
  createCoinbaseTx pindexPrev := coinbaseTx (pindexPrev.nHeight + 1) 0
  solveProofOfStake _ := none
  signBlock _ := none

def bulkHead : CBlock := ⟨⟨3, 0, 0, 0, 0, 0, 0⟩, [coinbaseTx 2 0], []⟩

def bulkBlock (host : Host) (params : CChainParams) (labels : List Nat) : Except Failure (Option CBlock) :=
  assembleBlock host params defaultMiner (bulkNode labels) (indexAt 1) false bulkHead

/-- Every destination is an address that is burned from height 1 on. -/
def burnedHost : Host := { bulkHost with extractDestination := fun _ => some "burned" }

def burnedParams : CChainParams := { mainParams with
  consensus := { mainConsensus with mBurnAddresses := (∅ : AssocMap String Int).insert "burned" 1 } }

lemma admitted_of_entries {host params node} (context)
    (acc : ∀ entry ∈ node.mempool.entries,
      acceptToMemoryPoolWorker host params { node with mempool := ∅ } context entry.2 = .ok () ∧
        ∀ txin ∈ entry.2.vin, node.mempool.lookup txin.prevout.hash = none)
    (hash tx) (pooled : node.mempool.lookup hash = some tx) : Admitted host params node tx := by
  obtain ⟨passed, parents⟩ := acc _ (AList.mem_lookup_iff.mp pooled)
  refine ⟨_, _, passed, fun txin ins => ?_⟩
  rw [parents _ ins, AList.lookup_empty]
end

variable {host : Host} {params : CChainParams} {miner : Miner} {node : NodeState} {pindexPrev : CBlockIndex} {nHeight : Nat}
  {fProofOfStake : Bool} {pblock block : CBlock}

lemma assembleBlock_spec (built : assembleBlock host params miner node pindexPrev fProofOfStake pblock = .ok (some block)) :
    ∃ final : MinerState, final.Reserves host miner (node.mempool.entries.map Sigma.snd) ∧
      block.vtx = (if fProofOfStake then pblock.vtx else addFees final.nFees pblock.vtx) ++ final.vtx ∧
      block.nVersion = pblock.nVersion ∧
      (block.vchBlockSig = pblock.vchBlockSig ∨ ∃ unsigned, miner.signBlock unsigned = some block.vchBlockSig) := by
  obtain ⟨scanned, scan, built⟩ := bind_eq_ok.mp built
  obtain ⟨final, collects, built⟩ := bind_eq_ok.mp built
  refine ⟨final, (scanMempool_reserves scan).collect collects, ?_⟩
  cases fProofOfStake with
  | false =>
    cases built
    exact ⟨rfl, rfl, .inl rfl⟩
  | true =>
    obtain ⟨vchBlockSig, signed, rfl⟩ := Option.map_eq_some_iff.mp (Except.ok.inj built)
    exact ⟨rfl, rfl, .inr ⟨_, signed⟩⟩

/-- The size limits follow from the builder's own test and the 1000 bytes that it sets aside. -/
lemma assembled_size_le {vtx} (measures : host.Measures) (head : HeadFits host params.consensus miner node nHeight pblock)
    (selected : Selectable host miner node vtx) (shape : block.vtx = pblock.vtx ++ vtx) (version : block.nVersion = pblock.nVersion)
    (signed : block.vchBlockSig = pblock.vchBlockSig ∨ ∃ unsigned, miner.signBlock unsigned = some block.vchBlockSig) :
    host.getBlockSerializeSize block ≤ miner.context.sizeLimit := by
  have grown := serializedSize_append_le host.getSerializeSize { pblock with vchBlockSig := block.vchBlockSig }
    fun tx mem => (selected.ordinary tx mem).2
  have same : serializedSize host.getSerializeSize block =
      serializedSize host.getSerializeSize { pblock with vchBlockSig := block.vchBlockSig, vtx := pblock.vtx ++ vtx } := by
    have staked : block.isProofOfStake = { pblock with vtx := pblock.vtx ++ vtx }.isProofOfStake := by
      unfold CBlock.isProofOfStake
      rw [shape]
    unfold serializedSize
    rw [staked, shape, version]
    rfl
  have reserved := head.reserved _ signed
  obtain ⟨least, most⟩ := miner.nBlockMaxSize_le
  rw [measures.block, same]
  rcases selected.size with rfl | small
  · simp only [map_nil, sum_nil, append_nil] at grown ⊢
    omega
  · simp only at grown
    omega

lemma bulkHead_fits : HeadFits bulkHost mainConsensus defaultMiner (bulkNode [11, 12]) 1 bulkHead := by
  refine ⟨by decide, ?_, ?_⟩
  · rintro vchBlockSig (rfl | ⟨unsigned, signed⟩)
    · decide +kernel
    · cases signed
  · intro _ tx mem uncoined
    cases mem_singleton.mp mem
    cases uncoined

lemma bulkPool_fits : PoolFits bulkHost mainConsensus defaultMiner (bulkNode [11, 12]) 1 bulkHead := by
  constructor
  · intro vtx selected
    have few : vtx.length ≤ 2 := selected.pooled.length_le
    have each : ∀ ops ∈ vtx.map bulkHost.getLegacySigOpCount, ops ≤ 7000 := by
      intro ops mem
      obtain ⟨tx, -, rfl⟩ := mem_map.mp mem
      change (if tx.isCoinBase then 1 else 7000) ≤ 7000
      split <;> decide
    have sum : _ ≤ (vtx.map bulkHost.getLegacySigOpCount).length * 7000 := sum_le_card_nsmul _ _ each
    have head : (bulkHead.vtx.map bulkHost.getLegacySigOpCount).sum = 1 := by decide
    have limit : MAX_BLOCK_SIGOPS_LEGACY = 20000 := by decide
    rw [length_map] at sum
    omega
  · rintro vtx - tx - txin - ⟨txPrev, hashBlock, out, addr, -, -, paid, -⟩
    cases paid

end Peony
