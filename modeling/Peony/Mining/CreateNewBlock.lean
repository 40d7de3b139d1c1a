import Peony.Hooks.Connect
import Peony.Library.Codec
import Peony.Validation.AcceptBlock
import Peony.Validation.OutputIndex

namespace Peony
open Int64Arith Consensus List

def MANDATORY_SCRIPT_VERIFY_FLAGS : Nat := SCRIPT_VERIFY_P2SH

/-- What `CreateNewBlock` reads besides the node. `front` is the entry the heap has in front, `isFree` the fee test without deltas. -/
structure Miner where
  context : AcceptContext
  mDynamicRewards : DynamicRewards
  nAdjustedTime : Nat
  blockversion : Option Int
  (blockmaxsize blockprioritysize blockminsize : Int)
  allowFree : CTransaction → Bool
  isFree : CTransaction → Bool
  front : (fSortedByFee : Bool) → List CTransaction → Nat
  getMedianTimePast : CBlockIndex → Nat
  createCoinbaseTx : CBlockIndex → CTransaction
  solveProofOfStake : CBlockIndex → Option (Nat × List CTransaction)
  signBlock : CBlock → Option (List UInt8)

namespace Miner

def toUnsigned (n : Int) : Nat := (n % 2 ^ 32).toNat

variable (miner : Miner)
def nBlockMaxSize : Nat :=
  max 1000 (min miner.context.nSporkSize (min (toUnsigned miner.blockmaxsize) MAX_BLOCK_SIZE_CURRENT))

def nBlockPrioritySize : Nat := min miner.nBlockMaxSize (toUnsigned miner.blockprioritysize)
def nBlockMinSize : Nat := min miner.nBlockMaxSize (toUnsigned miner.blockminsize)

def nVersion (params : Params) (nHeight : Nat) : Int :=
  miner.blockversion.getD
    (if params.networkUpgradeActive nHeight .timeProtocolV2 then 7
    else if params.networkUpgradeActive nHeight .stakeModifierV2 then 6
    else if params.networkUpgradeActive nHeight .bip65 then 5
    else 3)

end Miner

/-- A transaction of the pool that waits for parents which are in the pool as well. -/
structure COrphan where
  ptx : CTransaction
  setDependsOn : List UInt256
  deriving DecidableEq

/-- `vtx` is what was added to the block. `mapDependers` is read off `vOrphan`, except for the entries in `dangling`. -/
structure MinerState where
  vtx : List CTransaction
  view : CCoinsView
  (nBlockSize nBlockSigOps : Nat)
  nFees : Int
  fSortedByFee : Bool
  vecPriority : List CTransaction
  vOrphan : List COrphan
  dangling : List UInt256

namespace MinerState
variable (host : Host) (miner : Miner) (node : NodeState) (nHeight : Nat)
/-- Whether an input is missing, the parents waited for, and the view. -/
def scanInputs (view : CCoinsView) (setDependsOn : List UInt256) : List CTxIn → Except Failure (Bool × List UInt256 × CCoinsView)
  | [] => .ok (false, setDependsOn, view)
  | txin :: vin =>
    let held := view.haveCoin txin.prevout
    if held.1 then scanInputs held.2 setDependsOn vin
    else match node.mempool.lookup txin.prevout.hash with
      | none => .ok (true, setDependsOn, held.2)
      | some parent => do
        let _ ← parent.voutAt txin.prevout.n
        scanInputs held.2 (setDependsOn ++ [txin.prevout.hash]) vin

def scanTx (state : MinerState) (tx : CTransaction) : Except Failure MinerState :=
  if tx.isCoinBase || tx.isCoinStake || !isFinalTx tx nHeight miner.nAdjustedTime then .ok state
  else do
    let (fMissingInputs, setDependsOn, view) ← scanInputs node state.view [] tx.vin
    if fMissingInputs then return { state with view, dangling := state.dangling ++ setDependsOn }
    else do
      let _ ← tx.getValueOut
      if setDependsOn.isEmpty then return { state with view, vecPriority := state.vecPriority ++ [tx] }
      else return { state with view, vOrphan := state.vOrphan ++ [⟨tx, setDependsOn⟩] }

/-- 1000 bytes and 100 signature operations are set aside for what is in the block already. -/
def start : MinerState where
  vtx := []
  view := node.pcoinsTip.newCache
  nBlockSize := 1000
  nBlockSigOps := 100
  nFees := 0
  fSortedByFee := decide (miner.nBlockPrioritySize ≤ 0)
  vecPriority := []
  vOrphan := []
  dangling := []

def scanMempool : Except Failure MinerState :=
  (node.mempool.entries.map Sigma.snd).foldlM (scanTx miner node nHeight) (start miner node)

variable (host : Host) (params : CChainParams) (miner : Miner) (nHeight : Nat)
section
variable (state : MinerState)
/-- `mapDependers[hash]`: a dependent whose last parent was added joins the queue. -/
def release (hash : UInt256) : Except Failure MinerState :=
  if hash ∈ state.dangling then .error (.fault "porphan->setDependsOn")
  else
    let vOrphan := state.vOrphan.map fun orphan => { orphan with setDependsOn := orphan.setDependsOn.filter (· != hash) }
    .ok { state with
      vecPriority := state.vecPriority ++ (vOrphan.filter (·.setDependsOn.isEmpty)).map (·.ptx)
      vOrphan := vOrphan.filter (!·.setDependsOn.isEmpty) }

def consider (tx : CTransaction) : Except Failure MinerState :=
  let nTxSize := host.getSerializeSize tx
  let nTxSigOps := host.getLegacySigOpCount tx
  if miner.nBlockMaxSize ≤ state.nBlockSize + nTxSize then .ok state
  else if MAX_BLOCK_SIGOPS_CURRENT ≤ state.nBlockSigOps + nTxSigOps then .ok state
  else if state.fSortedByFee && miner.isFree tx && decide (miner.nBlockMinSize ≤ state.nBlockSize + nTxSize) then .ok state
  else
    let inputs := state.view.haveInputs tx.vin
    let state := { state with
      view := inputs.2
      fSortedByFee := state.fSortedByFee || decide (miner.nBlockPrioritySize ≤ state.nBlockSize + nTxSize) || !miner.allowFree tx }
    if !inputs.1 then .ok state
    else do
      let nValueOut ← tx.getValueOut
      let nTxFees := wrapInt64 (inputs.2.getValueIn tx - nValueOut)
      let nTxSigOps := nTxSigOps + getP2SHSigOpCount host inputs.2 tx
      if MAX_BLOCK_SIGOPS_CURRENT ≤ state.nBlockSigOps + nTxSigOps then .ok state
      else match checkInputs host params inputs.2 tx nHeight true MANDATORY_SCRIPT_VERIFY_FLAGS with
        | .error failure => if failure.returns then .ok state else .error failure
        | .ok () => do
          let (_, view) ← updateCoins host tx inputs.2 nHeight
          release { state with
            vtx := state.vtx ++ [tx]
            view
            nBlockSize := state.nBlockSize + nTxSize
            nBlockSigOps := state.nBlockSigOps + nTxSigOps
            nFees := wrapInt64 (state.nFees + nTxFees) } (host.getHash tx)

def frontOf : Nat := miner.front state.fSortedByFee state.vecPriority % state.vecPriority.length
def popped : MinerState := { state with vecPriority := state.vecPriority.eraseIdx (state.frontOf miner) }
end

/-- A turn takes one entry, and every entry of `vOrphan` joins at most once. -/
def collect : (fuel : Nat) → MinerState → Except Failure MinerState
  | 0, state => .ok state
  | fuel + 1, state =>
    match state.vecPriority[state.frontOf miner]? with
    | none => .ok state
    | some tx => do
      let next ← consider host params miner nHeight (state.popped miner) tx
      collect fuel next

end MinerState

def addFees (nFees : Int) : List CTransaction → List CTransaction
  | [] => []
  | tx :: vtx => { tx with vout := tx.vout.modifyHead fun out => { out with nValue := wrapInt64 (out.nValue + nFees) } } :: vtx

def Miner.headOf (miner : Miner) (params : Params) (pindexPrev : CBlockIndex) (fProofOfStake : Bool) : Option CBlock :=
  let nVersion := miner.nVersion params (pindexPrev.nHeight + 1)
  if fProofOfStake then
    (miner.solveProofOfStake pindexPrev).map fun (nTime, vtx) => ⟨⟨nVersion, 0, 0, nTime, 0, 0, 0⟩, vtx, []⟩
  else some ⟨⟨nVersion, 0, 0, 0, 0, 0, 0⟩, [miner.createCoinbaseTx pindexPrev], []⟩

variable (host : Host) (params : CChainParams) (miner : Miner) (node : NodeState)
/-- The block that goes to `TestBlockValidity`; `none` if it was not signed. -/
def assembleBlock (pindexPrev : CBlockIndex) (fProofOfStake : Bool) (pblock : CBlock) : Except Failure (Option CBlock) := do
  let nHeight := pindexPrev.nHeight + 1
  let scanned ← MinerState.scanMempool miner node nHeight
  let state ← scanned.collect host params miner nHeight node.mempool.entries.length
  let block := { pblock with
    vtx := (if fProofOfStake then pblock.vtx else addFees state.nFees pblock.vtx) ++ state.vtx
    hashPrevBlock := pindexPrev.hash
    nTime := if fProofOfStake then pblock.nTime else max (miner.getMedianTimePast pindexPrev + 1) miner.nAdjustedTime
    nNonce := 0 }
  let block := { block with nBits := miner.context.getNextWorkRequired pindexPrev block }
  if fProofOfStake then
    let block := { block with hashMerkleRoot := (host.blockMerkleRoot block.vtx).1 }
    return (miner.signBlock block).map fun vchBlockSig => { block with vchBlockSig }
  else return some block

/-- Without the proof of work and the merkle root. Its dummy index has the height alone. -/
def testBlockValidity (block : CBlock) (pindexPrev : CBlockIndex) : Except Failure Unit := do
  let view := node.pcoinsTip.newCache
  Except.require (decide (node.chainActive.tip = some pindexPrev)) (.error "No longer working on chain tip")
  contextualCheckBlockHeader host params miner.context node block (some pindexPrev)
  checkBlockFlags host params.consensus block false false false
  contextualCheckBlock host params.consensus node miner.context.fInitialBlockDownload miner.context.nSporkSize block
    (some pindexPrev)
  -- `ConnectBlock` with `fJustCheck`
  checkBlockFlags host params.consensus block false false false
  Except.require (view.getBestBlock.1 == pindexPrev.hash) (.assertion "hashPrevBlock == view.GetBestBlock()")
  if host.getBlockHash block.toCBlockHeader = params.consensus.hashGenesisBlock then return ()
  else do
    let indexDummy := { pindexPrev with nHeight := pindexPrev.nHeight + 1 }
    let _ ← connectVerified host params miner.mDynamicRewards block indexDummy pindexPrev view.getBestBlock.2
    return ()

/-- `CreateNewBlock`. A block that fails its own test costs the node its memory pool. -/
def createNewBlock (fProofOfStake : Bool) : Except Failure (Option CBlock × NodeState) :=
  match node.chainActive.tip with
  | none => .ok (none, node)
  | some pindexPrev =>
    match miner.headOf params.consensus pindexPrev fProofOfStake with
    | none => .ok (none, node)
    | some pblock => do
      match ← assembleBlock host params miner node pindexPrev fProofOfStake pblock with
      | none => return (none, node)
      | some block =>
        match testBlockValidity host params miner node block pindexPrev with
        | .ok () => return (some block, node)
        | .error failure => if failure.returns then return (none, { node with mempool := ∅ }) else .error failure

namespace MinerState

def pending (state : MinerState) : List CTransaction := state.vecPriority ++ state.vOrphan.map (·.ptx)

section
variable {host : Host} {params : CChainParams} {miner : Miner} {nHeight : Nat} {state next : MinerState} {tx : CTransaction}
structure Skipped (state next : MinerState) : Prop where
  vtx : next.vtx = state.vtx
  size : next.nBlockSize = state.nBlockSize
  sigOps : next.nBlockSigOps = state.nBlockSigOps
  pending : next.pending.Perm state.pending

/-- The builder's own tests bound the size and the operations. -/
structure Added (host : Host) (miner : Miner) (state : MinerState) (tx : CTransaction) (next : MinerState) : Prop where
  vtx : next.vtx = state.vtx ++ [tx]
  size : next.nBlockSize = state.nBlockSize + host.getSerializeSize tx
  small : next.nBlockSize < miner.nBlockMaxSize
  sigOps : state.nBlockSigOps + host.getLegacySigOpCount tx ≤ next.nBlockSigOps
  few : next.nBlockSigOps < MAX_BLOCK_SIGOPS_CURRENT
  pending : next.pending.Perm state.pending

lemma release_skipped {hash} (runs : state.release hash = .ok next) : state.Skipped next := by
  unfold release at runs
  split at runs
  · cases runs
  · cases runs
    refine ⟨rfl, rfl, rfl, ?_⟩
    simp only [pending, append_assoc]
    apply List.Perm.append_left
    rw [← map_append]
    refine ((filter_append_perm _ _).map _).trans (.of_eq ?_)
    rw [map_map]
    rfl

section
variable (runs : state.consider host params miner nHeight tx = .ok next)
include runs

lemma consider_cases : state.Skipped next ∨ state.Added host miner tx next := by
  have same : state.Skipped state := ⟨rfl, rfl, rfl, .refl _⟩
  unfold consider at runs
  dsimp only at runs
  split_ifs at runs with large many free missing more
  · cases runs
    exact .inl same
  · cases runs
    exact .inl same
  · cases runs
    exact .inl same
  · cases runs
    exact .inl ⟨rfl, rfl, rfl, .refl _⟩
  · obtain ⟨nValueOut, -, runs⟩ := Except.bind_eq_ok.mp runs
    cases runs
    exact .inl ⟨rfl, rfl, rfl, .refl _⟩
  · obtain ⟨nValueOut, -, runs⟩ := Except.bind_eq_ok.mp runs
    split at runs
    · split at runs
      · cases runs
        exact .inl ⟨rfl, rfl, rfl, .refl _⟩
      · cases runs
    · obtain ⟨⟨txundo, view⟩, -, runs⟩ := Except.bind_eq_ok.mp runs
      have released := release_skipped runs
      have sigOps := released.sigOps
      dsimp only at sigOps
      refine .inr ⟨released.vtx, released.size, ?_, ?_, ?_, released.pending⟩
      · rw [released.size]
        exact Nat.not_le.mp large
      · omega
      · omega
end
end

variable {miner : Miner} {node : NodeState} {nHeight : Nat} {state next : MinerState} {tx : CTransaction}
def IsOrdinary (tx : CTransaction) : Prop := tx.isCoinBase = false ∧ tx.isCoinStake = false

lemma scanTx_cases (runs : state.scanTx miner node nHeight tx = .ok next) : state.Skipped next ∨
      IsOrdinary tx ∧ next.vtx = state.vtx ∧ next.nBlockSize = state.nBlockSize ∧ next.nBlockSigOps = state.nBlockSigOps ∧
        next.pending.Perm (tx :: state.pending) := by
  unfold scanTx at runs
  split at runs
  · cases runs
    exact .inl ⟨rfl, rfl, rfl, .refl _⟩
  · rename_i plain
    simp only [Bool.or_eq_true, not_or, Bool.not_eq_true] at plain
    obtain ⟨⟨fMissingInputs, setDependsOn, view⟩, -, runs⟩ := Except.bind_eq_ok.mp runs
    cases fMissingInputs with
    | true =>
      cases runs
      exact .inl ⟨rfl, rfl, rfl, .refl _⟩
    | false =>
      obtain ⟨nValueOut, -, runs⟩ := Except.bind_eq_ok.mp runs
      split at runs
      · cases runs
        refine .inr ⟨plain.1, rfl, rfl, rfl, ?_⟩
        show (state.vecPriority ++ [tx] ++ state.vOrphan.map _).Perm _
        rw [append_assoc]
        exact perm_middle
      · cases runs
        refine .inr ⟨plain.1, rfl, rfl, rfl, ?_⟩
        show (state.vecPriority ++ (state.vOrphan ++ [(⟨tx, _⟩ : COrphan)]).map _).Perm _
        rw [map_append, ← append_assoc]
        exact perm_append_singleton _ _

/-- What the block has beyond the 1000 bytes and 100 operations set aside, and what may still be taken from the pool. -/
structure Reserves (host : Host) (miner : Miner) (pool : List CTransaction) (state : MinerState) : Prop where
  size : state.nBlockSize = 1000 + (state.vtx.map host.getSerializeSize).sum
  small : state.vtx = [] ∨ state.nBlockSize < miner.nBlockMaxSize
  sigOps : 100 + (state.vtx.map host.getLegacySigOpCount).sum ≤ state.nBlockSigOps
  few : state.nBlockSigOps < MAX_BLOCK_SIGOPS_CURRENT
  pooled : (state.vtx ++ state.pending).Subperm pool
  ordinary : ∀ tx ∈ state.vtx ++ state.pending, IsOrdinary tx

section
variable {host : Host} {params : CChainParams} {pool : List CTransaction} {final : MinerState}
lemma Reserves.skip (reserves : state.Reserves host miner pool) (skipped : state.Skipped next) : next.Reserves host miner pool := by
  obtain ⟨vtx, size, sigOps, queued⟩ := skipped
  have same : (next.vtx ++ next.pending).Perm (state.vtx ++ state.pending) := by
    rw [vtx]
    exact queued.append_left _
  constructor
  · rw [size, vtx, reserves.size]
  · rw [size, vtx]
    exact reserves.small
  · rw [sigOps, vtx]
    exact reserves.sigOps
  · rw [sigOps]
    exact reserves.few
  · exact same.subperm.trans reserves.pooled
  · intro tx mem
    exact reserves.ordinary tx (same.mem_iff.mp mem)

lemma scanTxs_reserves {txs} (reserves : state.Reserves host miner pool)
    (runs : txs.foldlM (scanTx miner node nHeight) state = .ok final) :
    final.Reserves host miner (pool ++ txs) := by
  induction txs generalizing state pool with
  | nil =>
    cases runs
    rw [append_nil]
    exact reserves
  | cons tx txs ih =>
    obtain ⟨middle, first, rest⟩ := Except.bind_eq_ok.mp runs
    have wider : middle.Reserves host miner (pool ++ [tx]) := by
      rcases scanTx_cases first with skipped | ⟨plain, vtx, size, sigOps, joined⟩
      · have kept := reserves.skip skipped
        exact { kept with pooled := kept.pooled.trans (sublist_append_left _ _).subperm }
      · have moved : (middle.vtx ++ middle.pending).Perm ((state.vtx ++ state.pending) ++ [tx]) := by
          rw [vtx, append_assoc]
          exact (joined.trans (perm_append_singleton tx _).symm).append_left _
        refine ⟨by rw [size, vtx, reserves.size], by rw [size, vtx]; exact reserves.small, by rw [sigOps, vtx]; exact reserves.sigOps,
          by rw [sigOps]; exact reserves.few, moved.subperm.trans (reserves.pooled.append (.refl _)), fun other mem => ?_⟩
        rcases mem_append.mp (moved.mem_iff.mp mem) with old | new
        · exact reserves.ordinary other old
        · exact mem_singleton.mp new ▸ plain
    simpa using ih wider rest

lemma scanMempool_reserves (runs : scanMempool miner node nHeight = .ok state) :
    state.Reserves host miner (node.mempool.entries.map Sigma.snd) := by
  have opening : (start miner node).Reserves host miner [] :=
    ⟨rfl, .inl rfl, Nat.le_refl _, show 100 < MAX_BLOCK_SIGOPS_CURRENT by decide, .refl _, fun _ none => absurd none not_mem_nil⟩
  exact scanTxs_reserves opening runs

lemma Reserves.turn (reserves : state.Reserves host miner pool) (found : state.vecPriority[state.frontOf miner]? = some tx)
    (runs : (state.popped miner).consider host params miner nHeight tx = .ok next) : next.Reserves host miner pool := by
  have taken : state.pending.Perm (tx :: (state.popped miner).pending) := by
    obtain ⟨ins, rfl⟩ := List.getElem?_eq_some_iff.mp found
    exact (getElem_cons_eraseIdx_perm ins).symm.append_right _
  have left : ((state.popped miner).pending).Sublist state.pending := (eraseIdx_sublist _ _).append_right _
  have popped : (state.popped miner).Reserves host miner pool :=
    ⟨reserves.size, reserves.small, reserves.sigOps, reserves.few, (left.append_left _).subperm.trans reserves.pooled,
      fun other mem => reserves.ordinary other ((left.append_left _).subset mem)⟩
  rcases consider_cases runs with skipped | added
  · exact popped.skip skipped
  · have moved : (next.vtx ++ next.pending).Perm (state.vtx ++ state.pending) := by
      rw [added.vtx, append_assoc]
      exact ((added.pending.cons tx).trans taken.symm).append_left _
    refine ⟨?_, .inr added.small, ?_, added.few, moved.subperm.trans reserves.pooled, fun other mem => ?_⟩
    · rw [added.size, added.vtx, popped.size, map_append, sum_append, map_singleton, sum_singleton, Nat.add_assoc]
    · have before := popped.sigOps
      have grows := added.sigOps
      rw [added.vtx, map_append, sum_append, map_singleton, sum_singleton]
      omega
    · exact reserves.ordinary other (moved.mem_iff.mp mem)

lemma Reserves.collect {fuel} (reserves : state.Reserves host miner pool)
    (runs : state.collect host params miner nHeight fuel = .ok final) : final.Reserves host miner pool := by
  induction fuel generalizing state with
  | zero =>
    cases runs
    exact reserves
  | succ fuel ih =>
    unfold MinerState.collect at runs
    cases found : state.vecPriority[state.frontOf miner]? with
    | none =>
      simp only [found] at runs
      cases runs
      exact reserves
    | some tx =>
      simp only [found] at runs
      obtain ⟨next, turn, rest⟩ := Except.bind_eq_ok.mp runs
      exact ih (reserves.turn found turn) rest
end

end MinerState

end Peony
