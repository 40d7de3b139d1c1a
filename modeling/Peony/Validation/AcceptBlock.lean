import Peony.Stake.Branch
import Peony.Validation.CheckBlock
import Peony.Validation.UpdateCoins

namespace Peony
open Consensus CCoinsView Except

structure AcceptContext where
  fInitialBlockDownload : Bool
  nSporkSize : Nat
  nMaxReorgDepth : Int
  fAlreadyCheckedBlock : Bool
  getNextWorkRequired : CBlockIndex → CBlock → Nat
  checkBlockTime : CBlockHeader → CBlockIndex → Except Failure Unit
  getBlockProof : CBlockHeader → UInt256
  computeStakeModifier : CBlock → Option CBlockIndex → List UInt8 × Bool
  reconsiders : CBlockIndex → Bool
  mapRejectedBlocks : UInt256 → Bool

inductive AcceptResult where
  | reconsidered
  | duplicate (pindex : CBlockIndex)
  | written (node : NodeState) (pindex : CBlockIndex)

section
variable (host : Host) (params : CChainParams) (context : AcceptContext) (node : NodeState) (block : CBlock)
def getLastCheckpoint : Option CBlockIndex :=
  if !params.fEnabled then none
  else (params.checkpoints.mapCheckpoints.entries.foldl (fun (last : Option (Nat × CBlockIndex)) checkpoint =>
    match node.mapBlockIndex.lookup checkpoint.2 with
    | none => last
    | some pindex => if last.all fun own => decide (own.1 < checkpoint.1) then some (checkpoint.1, pindex) else last)
    none).map Prod.snd

def isOutdatedVersion (consensus : Params) (nVersion : Int) (nHeight : Nat) : Bool :=
  decide (nVersion < 3) && decide (1 ≤ nHeight) ||
    decide (nVersion < 5) && consensus.networkUpgradeActive nHeight .bip65 ||
    decide (nVersion < 6) && consensus.networkUpgradeActive nHeight .stakeModifierV2 ||
    decide (nVersion < 7) && consensus.networkUpgradeActive nHeight .timeProtocolV2

def contextualCheckBlockHeader (pindexPrev : Option CBlockIndex) : Except Failure Unit :=
  let hash := host.getBlockHash block.toCBlockHeader
  if hash = params.consensus.hashGenesisBlock then .ok ()
  else match pindexPrev with
    | none => .error (.assertion "pindexPrev")
    | some prev => do
      let nHeight := prev.nHeight + 1
      require (decide (node.chainActive.height - nHeight < context.nMaxReorgDepth))
        (.dos 100 "forked chain older than max reorganization depth")
      context.checkBlockTime block.toCBlockHeader prev
      require (params.checkBlockCheckpoint nHeight hash false) (.dos 100 "checkpoint mismatch")
      require ((getLastCheckpoint params node).all fun pcheckpoint => decide (pcheckpoint.nHeight ≤ nHeight))
        (.dos 0 "forked chain older than last checkpoint")
      require (!isOutdatedVersion params.consensus block.nVersion nHeight) (.invalid "bad-version")

def findParent : Except Failure (Option CBlockIndex) :=
  if host.getBlockHash block.toCBlockHeader = params.consensus.hashGenesisBlock then .ok none
  else match node.mapBlockIndex.lookup block.hashPrevBlock with
    | none => .error (.dos 0 "bad-prevblk")
    | some pindexPrev => .ok (some pindexPrev)

def badParent : Failure := .dos (if context.mapRejectedBlocks block.hashPrevBlock then 0 else 100) "bad-prevblk"

def addToBlockIndex (pindexPrev : Option CBlockIndex) : CBlockIndex where
  hash := host.getBlockHash block.toCBlockHeader
  pprev := pindexPrev.map (·.hash)
  nHeight := pindexPrev.elim 0 fun prev => prev.nHeight + 1
  nTime := block.nTime
  nBits := block.nBits
  nChainWork := pindexPrev.elim 0 (·.nChainWork) + context.getBlockProof block.toCBlockHeader
  vStakeModifier := (context.computeStakeModifier block pindexPrev).1
  fGeneratedStakeModifier := (context.computeStakeModifier block pindexPrev).2
  nMoneySupply := 0
  fFailed := false
  fHaveData := false
  fHaveUndo := false

/-- Returns the block's index entry. Its branch that reconsiders a failed parent is dead. -/
def acceptBlockHeader : Except Failure CBlockIndex :=
  let hash := host.getBlockHash block.toCBlockHeader
  match node.mapBlockIndex.lookup hash with
  | some pindex =>
    if pindex.fFailed && !context.mapRejectedBlocks hash then .error (.invalid "duplicate") else .ok pindex
  | none => do
    require (block.isProofOfStake || host.checkProofOfWork hash block.nBits) (.dos 50 "high-hash")
    let pindexPrev ← findParent host params node block
    require (!pindexPrev.any (·.fFailed)) (badParent context block)
    contextualCheckBlockHeader host params context node block pindexPrev
    return addToBlockIndex host context block pindexPrev
end

variable (host : Host) (node : NodeState)
def stakeInputs (block : CBlock) : List CTxIn := (block.vtx[1]?).elim [] (·.vin)

def spendsAny (inputs : List CTxIn) (tx : CTransaction) : Bool :=
  tx.vin.any fun txin => inputs.any fun stakeIn => stakeIn.prevout == txin.prevout

/-- The walk back to the split, with `bl` the data of `prev`, at most as many rounds as `prev` has ancestors. -/
def walkFork (nMaxReorgDepth : Int) (inputs : List CTxIn) :
    (fuel readBlock : Nat) → (bl : CBlock) → (prev : CBlockIndex) → Except Failure Unit
  | 0, _, _, _ => .error (.fault "prev->pprev")
  | fuel + 1, readBlock, bl, prev =>
    if node.chainActive.contains prev then .ok ()
    else do
      require (((readBlock + 1 : Nat) : Int) != nMaxReorgDepth) (.error "forked chain longer than maximum reorg limit")
      require (!bl.vtx.any (spendsAny inputs)) (.dos 100 "input already spent on a previous block")
      match prev.pprev.bind node.mapBlockIndex.lookup with
      | none => .error (.fault "ReadBlockFromDisk(bl, nullptr)")
      | some pprev =>
        match node.readBlockFromDisk host pprev with
        | none => .error (.error "previous block not on disk")
        | some bl => walkFork nMaxReorgDepth inputs fuel (readBlock + 1) bl pprev

def isBlockFromFork (pindexPrev : CBlockIndex) : Bool := node.chainActive.tip.map (·.hash) != some pindexPrev.hash

/-- The coins are read for every block, and matter on the tip only. -/
def checkStakeInputs (nMaxReorgDepth : Int) (block : CBlock) (pindexPrev : CBlockIndex) : Except Failure Unit := do
  let inputs := stakeInputs block
  require (!block.vtx.any fun tx => !tx.isCoinStake && spendsAny inputs tx)
    (.error "double spent coinstake input inside block")
  if isBlockFromFork node pindexPrev then
    match node.readBlockFromDisk host pindexPrev with
    | none => .error (.error "previous block not on disk")
    | some bl => walkFork host node nMaxReorgDepth inputs (pindexPrev.nHeight + 1) 0 bl pindexPrev
  else
    require (inputs.all fun txin => !((newCache node.pcoinsTip).accessCoin txin.prevout).1.isSpent)
      (.error "coin stake inputs not-available/already-spent on main chain")

/-- `ReceivedBlockTransactions` marks the entry, `WriteBlockToDisk` keeps the block. -/
def NodeState.storeBlock (node : NodeState) (pindex : CBlockIndex) (block : CBlock) : NodeState :=
  { node with
    mapBlockIndex := node.mapBlockIndex.insert pindex.hash { pindex with fHaveData := true }
    blockFiles := node.blockFiles.insert pindex.hash block }

def checkOnParent (block : CBlock) (pindexPrev : Option CBlockIndex) (check : CBlockIndex → Except Failure Unit) :
    Except Failure Unit :=
  if block.isProofOfStake then
    match pindexPrev with
    | none => .error (.fault "pindexPrev->nHeight")
    | some prev => check prev
  else .ok ()

variable (host : Host) (params : CChainParams) (context : AcceptContext) (node : NodeState) (block : CBlock)
def acceptOnParent (pindexPrev : Option CBlockIndex) : Except Failure AcceptResult := do
  require (pindexPrev.all fun prev => context.getNextWorkRequired prev block == block.nBits)
    (.error "incorrect proof of work")
  checkOnParent block pindexPrev fun prev => (checkProofOfStake host params node block prev).mapError fun strError =>
    .dos 100 ("proof of stake check failed (" ++ strError ++ ")")
  let pindex ← acceptBlockHeader host params context node block
  if pindex.fHaveData then .ok (.duplicate pindex)
  else do
    (if context.fAlreadyCheckedBlock then .ok () else checkBlock host params.consensus block : Except Failure Unit)
    contextualCheckBlock host params.consensus node context.fInitialBlockDownload context.nSporkSize block
      (pindex.pprev.bind node.mapBlockIndex.lookup)
    checkOnParent block pindexPrev fun prev => checkStakeInputs host node context.nMaxReorgDepth block prev
    return .written (node.storeBlock pindex block) pindex

/-- A failed parent that matches a checkpoint is reconsidered. -/
def acceptBlock : Except Failure AcceptResult := do
  let pindexPrev ← findParent host params node block
  if pindexPrev.any (·.fFailed) then
    if pindexPrev.any fun prev =>
        params.checkBlockCheckpoint prev.nHeight block.hashPrevBlock true && context.reconsiders prev then .ok .reconsidered
    else .error (badParent context block)
  else acceptOnParent host params context node block pindexPrev

variable {host : Host} {params : CChainParams} {context : AcceptContext} {node after : NodeState} {block : CBlock}
  {pindex : CBlockIndex}

lemma checkOnParent_staked {pindexPrev check}
    (staked : block.isProofOfStake = true) (checks : checkOnParent block pindexPrev check = .ok ()) :
    ∃ prev, pindexPrev = some prev ∧ check prev = .ok () := by
  unfold checkOnParent at checks
  rw [if_pos staked] at checks
  cases pindexPrev with
  | none => cases checks
  | some prev => exact ⟨_, rfl, checks⟩

lemma acceptBlock_staked (staked : block.isProofOfStake = true)
    (writes : acceptBlock host params context node block = .ok (.written after pindex)) :
    ∃ prev, node.mapBlockIndex.lookup block.hashPrevBlock = some prev ∧
      checkProofOfStake host params node block prev = .ok () ∧
      checkStakeInputs host node context.nMaxReorgDepth block prev = .ok () := by
  obtain ⟨pindexPrev, parent, writes⟩ := bind_eq_ok.mp writes
  split at writes
  · grind
  · obtain ⟨-, writes⟩ := require_bind_eq_ok.mp writes
    obtain ⟨proven, writes⟩ := unit_bind_eq_ok.mp writes
    obtain ⟨own, header, writes⟩ := bind_eq_ok.mp writes
    split at writes
    · cases writes
    · obtain ⟨-, writes⟩ := unit_bind_eq_ok.mp writes
      obtain ⟨-, writes⟩ := unit_bind_eq_ok.mp writes
      obtain ⟨chk, -⟩ := unit_bind_eq_ok.mp writes
      obtain ⟨prev, rfl, passed⟩ := checkOnParent_staked staked proven
      obtain ⟨_, ⟨⟩, unspent⟩ := checkOnParent_staked staked chk
      refine ⟨_, ?_, ?_, unspent⟩
      · grind [findParent]
      · cases verdict : checkProofOfStake _ _ _ _ _ with
        | ok _ => rfl
        | error strError =>
          rw [verdict] at passed
          cases passed

end Peony
