import Mathlib.Data.Prod.Lex
import Peony.Chain.Node
import Peony.Library.Lineage
import Peony.Library.Newest

/-! The block index as a tree: status bits, the candidates for the tip, and the blocks that wait for a parent's data. -/

namespace Peony

def BLOCK_VALID_TREE : Nat := 2
def BLOCK_VALID_TRANSACTIONS : Nat := 3
def BLOCK_VALID_CHAIN : Nat := 4
def BLOCK_VALID_SCRIPTS : Nat := 5

/-- The fields of `CBlockIndex` that place a block in the tree; `nValid` is `nStatus & BLOCK_VALID_MASK`. -/
structure BlockEntry where
  pprev : Option UInt256
  (nHeight nChainWork nTx nChainTx nSequenceId nValid : Nat)
  (fHaveData fFailedValid fFailedChild : Bool)
  deriving DecidableEq

namespace BlockEntry

section
variable (pindex : BlockEntry)
def failed : Bool := pindex.fFailedValid || pindex.fFailedChild
def isValid (nUpTo : Nat) : Bool := !pindex.failed && decide (nUpTo ≤ pindex.nValid)

def raiseValidity (nUpTo : Nat) : BlockEntry :=
  if pindex.failed then pindex else if pindex.nValid < nUpTo then { pindex with nValid := nUpTo } else pindex

def setFailedValid : BlockEntry := { pindex with fFailedValid := true }
def setFailedChild : BlockEntry := { pindex with fFailedChild := true }
def clearFailed : BlockEntry := { pindex with fFailedValid := false, fFailedChild := false }
def core : BlockEntry := { pindex with nValid := 0, fFailedValid := false, fFailedChild := false }
end

lemma core_eq_iff {pindex pindex' : BlockEntry} : pindex.core = pindex'.core ↔
    pindex.pprev = pindex'.pprev ∧ pindex.nHeight = pindex'.nHeight ∧ pindex.nChainWork = pindex'.nChainWork ∧
      pindex.nTx = pindex'.nTx ∧ pindex.nChainTx = pindex'.nChainTx ∧ pindex.nSequenceId = pindex'.nSequenceId ∧
      pindex.fHaveData = pindex'.fHaveData := by simp [core]

section
variable (pindex : BlockEntry) (nUpTo : Nat)
include pindex nUpTo

lemma core_raiseValidity : (pindex.raiseValidity nUpTo).core = pindex.core := by
  unfold raiseValidity
  split
  · rfl
  · split <;> rfl

lemma failed_raiseValidity : (pindex.raiseValidity nUpTo).failed = pindex.failed := by
  unfold raiseValidity
  split
  · rfl
  · split <;> rfl

lemma fFailedValid_raiseValidity : (pindex.raiseValidity nUpTo).fFailedValid = pindex.fFailedValid := by grind [raiseValidity]
end

lemma nValid_raiseValidity {pindex : BlockEntry} (sound : pindex.failed = false) (nUpTo) :
    (pindex.raiseValidity nUpTo).nValid = max pindex.nValid nUpTo := by
  simp only [raiseValidity, sound, Bool.false_eq_true, if_false]
  split
  · grind
  · omega

end BlockEntry

/-- Entries under their hashes; the active chain is listed from the tip down. -/
structure BlockTree where
  mapBlockIndex : List UInt256
  entry : UInt256 → BlockEntry
  (chainActive setBlockIndexCandidates : List UInt256)
  mapBlocksUnlinked : List (UInt256 × UInt256)
  nBlockSequenceId : Nat

/-- A header, with the outcomes of the checks other than the one of the depth. -/
structure HeaderCall where
  (hash hashPrevBlock : UInt256)
  nProof : Nat
  (fRejectedBefore fChecked fContextual : Bool)

inductive TipResult where
  | connected
  -- `state.IsInvalid()`, without and with `state.CorruptionPossible()`
  | invalid | corrupted
  -- any other error
  | failed
  deriving DecidableEq

structure TipCalls where
  disconnects : UInt256 → Bool
  connects : UInt256 → TipResult

namespace BlockTree
variable (tree : BlockTree)
def tip : Option UInt256 := tree.chainActive.head?

section
variable (h : UInt256)
def lineage : List UInt256 := Lineage.lineage (fun h => (tree.entry h).pprev) (fun h => (tree.entry h).nHeight) h

def getAncestor (nHeight : Nat) : Option UInt256 :=
  (tree.lineage h).find? fun a => (tree.entry a).nHeight == nHeight

def findFork : Option UInt256 := (tree.lineage h).find? fun a => decide (a ∈ tree.chainActive)
def offChain : List UInt256 := (tree.lineage h).takeWhile fun a => decide (a ∉ tree.chainActive)

/-- The first sorts before the second. Addresses are hashes here. -/
def workComparator (a b : UInt256) : Bool :=
  let pa := tree.entry a
  let pb := tree.entry b
  if pa.nChainWork > pb.nChainWork then false
  else if pa.nChainWork < pb.nChainWork then true
  else if pa.nSequenceId < pb.nSequenceId then false
  else if pa.nSequenceId > pb.nSequenceId then true
  else if a < b then false
  else if a > b then true
  else false

def belowTip : Bool := tree.tip.any fun tip => tree.workComparator h tip

def modify (change : BlockEntry → BlockEntry) : BlockTree :=
  { tree with entry := Function.update tree.entry h (change (tree.entry h)) }
end

def change (hs : List UInt256) (change : BlockEntry → BlockEntry) : BlockTree :=
  { tree with entry := fun h => if h ∈ hs then change (tree.entry h) else tree.entry h }

def insertCandidate (h : UInt256) : BlockTree :=
  { tree with setBlockIndexCandidates := tree.setBlockIndexCandidates.insert h }

def eraseCandidates (hs : List UInt256) : BlockTree :=
  { tree with setBlockIndexCandidates := tree.setBlockIndexCandidates.filter fun c => decide (c ∉ hs) }

def addToBlockIndex (header : HeaderCall) : BlockTree :=
  let pprev := if header.hashPrevBlock ∈ tree.mapBlockIndex then some header.hashPrevBlock else none
  let fresh : BlockEntry :=
    { pprev
      nHeight := pprev.elim 0 fun p => (tree.entry p).nHeight + 1
      nChainWork := (pprev.elim 0 fun p => (tree.entry p).nChainWork) + header.nProof
      nTx := 0
      nChainTx := 0
      nSequenceId := 0
      nValid := BLOCK_VALID_TREE
      fHaveData := false
      fFailedValid := false
      fFailedChild := false }
  { tree with
    mapBlockIndex := header.hash :: tree.mapBlockIndex
    entry := Function.update tree.entry header.hash fresh }

variable (nMaxReorgDepth : Int) (header : HeaderCall)
def contextualCheckBlockHeader : Bool :=
  let nHeight : Int := (tree.entry header.hashPrevBlock).nHeight + 1
  let chainHeight : Int := tree.chainActive.length - 1
  if chainHeight - nHeight ≥ nMaxReorgDepth then false else header.fContextual

def acceptBlockHeader : Bool × BlockTree :=
  if header.hash ∈ tree.mapBlockIndex then (!(tree.entry header.hash).failed || header.fRejectedBefore, tree)
  else if !header.fChecked then (false, tree)
  else if header.hashPrevBlock ∉ tree.mapBlockIndex then (false, tree)
  -- the branch for checkpoints asks for an entry of the new block, which there is none of yet
  else if (tree.entry header.hashPrevBlock).failed then (false, tree)
  else if !tree.contextualCheckBlockHeader nMaxReorgDepth header then (false, tree)
  else (true, tree.addToBlockIndex header)

/-- The block is counted, and those that waited for it leave `mapBlocksUnlinked`. -/
def countBlock (h : UInt256) : BlockTree :=
  { tree.modify h fun pindex =>
      { pindex with
        nChainTx := (pindex.pprev.elim 0 fun p => (tree.entry p).nChainTx) + pindex.nTx
        nSequenceId := tree.nBlockSequenceId } with
    nBlockSequenceId := tree.nBlockSequenceId + 1
    mapBlocksUnlinked := tree.mapBlocksUnlinked.filter fun pair => decide (pair.1 ≠ h) }

def linkBlock (h : UInt256) : BlockTree :=
  if (tree.countBlock h).belowTip h then tree.countBlock h else (tree.countBlock h).insertCandidate h

def waitingFor (h : UInt256) : List UInt256 := (tree.mapBlocksUnlinked.filter fun pair => decide (pair.1 = h)).map Prod.snd

def linkQueue : Nat → List UInt256 → BlockTree → BlockTree
  | 0, _, tree => tree
  | _, [], tree => tree
  | fuel + 1, h :: queue, tree => linkQueue fuel (queue ++ tree.waitingFor h) (tree.linkBlock h)

def storeData (h : UInt256) (nTx : Nat) : BlockTree :=
  tree.modify h fun pindex => { pindex with nTx, nChainTx := 0, fHaveData := true }.raiseValidity BLOCK_VALID_TRANSACTIONS

def receivedBlockTransactions (h : UInt256) (nTx : Nat) : BlockTree :=
  let stored := tree.storeData h nTx
  match (stored.entry h).pprev with
  | none => linkQueue (stored.mapBlocksUnlinked.length + 1) [h] stored
  | some p =>
    if (stored.entry p).nChainTx ≠ 0 then linkQueue (stored.mapBlocksUnlinked.length + 1) [h] stored
    else if (stored.entry p).isValid BLOCK_VALID_TREE then { stored with mapBlocksUnlinked := (p, h) :: stored.mapBlocksUnlinked }
    else stored

def bestCandidate : Option UInt256 :=
  tree.setBlockIndexCandidates.foldl
    (fun best c =>
      match best with
      | none => some c
      | some b => if tree.workComparator b c then some c else some b) none

def usable (h : UInt256) : Bool := !(tree.entry h).failed && (tree.entry h).fHaveData

def dropBranch (pindexTest : UInt256) (above : List UInt256) : BlockTree :=
  let marked :=
    if (tree.entry pindexTest).failed then tree.change above BlockEntry.setFailedChild
    else { tree with
      mapBlocksUnlinked := above.filterMap (fun h => (tree.entry h).pprev.map fun p => (p, h)) ++ tree.mapBlocksUnlinked }
  marked.eraseCandidates (pindexTest :: above)

def findMostWorkChain : Nat → BlockTree → Option UInt256 × BlockTree
  | 0, tree => (none, tree)
  | fuel + 1, tree =>
    match tree.bestCandidate with
    | none => (none, tree)
    | some pindexNew =>
      match (tree.offChain pindexNew).dropWhile tree.usable with
      | [] => (some pindexNew, tree)
      | pindexTest :: _ =>
        findMostWorkChain fuel (tree.dropBranch pindexTest ((tree.offChain pindexNew).takeWhile tree.usable))

def pruneBlockIndexCandidates : BlockTree :=
  { tree with setBlockIndexCandidates := tree.setBlockIndexCandidates.filter fun c => !tree.belowTip c }

variable (calls : TipCalls)
/-- The genesis block has no undo data. -/
def disconnectTip : Option BlockTree :=
  match tree.chainActive with
  | [] => none
  | h :: rest => if calls.disconnects h && (tree.entry h).pprev.isSome then some { tree with chainActive := rest } else none

def disconnectTo (calls : TipCalls) (fork : Option UInt256) : Nat → BlockTree → Bool × BlockTree
  | 0, tree => (true, tree)
  | fuel + 1, tree =>
    if tree.tip = none ∨ tree.tip = fork then (true, tree)
    else
      match tree.disconnectTip calls with
      | none => (false, tree)
      | some tree => disconnectTo calls fork fuel tree

def connectTip (h : UInt256) : BlockTree :=
  { tree.modify h fun pindex => pindex.raiseValidity BLOCK_VALID_SCRIPTS with chainActive := h :: tree.chainActive }

def invalidBlockFound (h : UInt256) : BlockTree :=
  (tree.modify h BlockEntry.setFailedValid).eraseCandidates [h]

/-- The blocks are taken 32 at a time in the source, in the same order. -/
def connectBlocks (calls : TipCalls) (pindexOldTip : Option UInt256) : List UInt256 → BlockTree → Bool × BlockTree
  | [], tree => (true, tree)
  | h :: rest, tree =>
    match calls.connects h with
    | .connected =>
      let tree := (tree.connectTip h).pruneBlockIndexCandidates
      if pindexOldTip.all fun old => decide ((tree.entry h).nChainWork > (tree.entry old).nChainWork) then (true, tree)
      else connectBlocks calls pindexOldTip rest tree
    | .invalid => (true, tree.invalidBlockFound h)
    | .corrupted => (true, tree)
    | .failed => (false, tree)

def activateBestChainStep (pindexMostWork : UInt256) : Bool × BlockTree :=
  match disconnectTo calls (tree.findFork pindexMostWork) tree.chainActive.length tree with
  | (false, tree') => (false, tree')
  | (true, tree') => connectBlocks calls tree.tip (tree.offChain pindexMostWork).reverse tree'

def activateBestChain : Bool × BlockTree :=
  match findMostWorkChain (tree.setBlockIndexCandidates.length + 1) tree with
  | (none, tree) => (true, tree)
  | (some pindexMostWork, tree) =>
    if tree.tip = some pindexMostWork then (true, tree) else tree.activateBestChainStep calls pindexMostWork

def disconnectInvalid (calls : TipCalls) (h : UInt256) : Nat → BlockTree → Bool × BlockTree
  | 0, tree => (true, tree)
  | fuel + 1, tree =>
    if h ∈ tree.chainActive then
      let marked := (tree.change tree.tip.toList BlockEntry.setFailedChild).eraseCandidates tree.tip.toList
      match marked.disconnectTip calls with
      | none => (false, marked)
      | some tree => disconnectInvalid calls h fuel tree
    else (true, tree)

def readdCandidates : BlockTree :=
  { tree with
    setBlockIndexCandidates := tree.setBlockIndexCandidates ++ tree.mapBlockIndex.filter fun h =>
      (tree.entry h).isValid BLOCK_VALID_TRANSACTIONS && decide ((tree.entry h).nChainTx ≠ 0) && !tree.belowTip h &&
        decide (h ∉ tree.setBlockIndexCandidates) }

def invalidateBlock (calls : TipCalls) (h : UInt256) : Bool × BlockTree :=
  match disconnectInvalid calls h tree.chainActive.length (tree.invalidBlockFound h) with
  | (false, tree) => (false, tree)
  | (true, tree) => (true, tree.readdCandidates)

def reconsidered (h : UInt256) : List UInt256 :=
  tree.mapBlockIndex.filter fun a =>
    !(tree.entry a).isValid BLOCK_VALID_TRANSACTIONS && decide (tree.getAncestor a (tree.entry h).nHeight = some h)

def reconsiderBlock (h : UInt256) : BlockTree :=
  let cleared := tree.change (tree.reconsidered h) BlockEntry.clearFailed
  let better := (tree.reconsidered h).filter fun a =>
    (cleared.entry a).isValid BLOCK_VALID_TRANSACTIONS && decide ((tree.entry a).nChainTx ≠ 0) &&
      tree.tip.any (fun tip => tree.workComparator tip a) && decide (a ∉ tree.setBlockIndexCandidates)
  { cleared with setBlockIndexCandidates := better ++ tree.setBlockIndexCandidates }.change (tree.lineage h) BlockEntry.clearFailed

end BlockTree

/-- The calls that edit the index, for hashes that it has. -/
inductive IndexCall where
  | acceptBlockHeader (header : HeaderCall)
  | receivedBlockTransactions (h : UInt256) (nTx : Nat)
  | activateBestChainStep (calls : TipCalls)
  | invalidateBlock (calls : TipCalls) (h : UInt256)
  | reconsiderBlock (h : UInt256)

def BlockTree.call (nMaxReorgDepth : Int) (tree : BlockTree) : IndexCall → BlockTree
  | .acceptBlockHeader header => (tree.acceptBlockHeader nMaxReorgDepth header).2
  | .receivedBlockTransactions h nTx => if h ∈ tree.mapBlockIndex then tree.receivedBlockTransactions h nTx else tree
  | .activateBestChainStep calls => (tree.activateBestChain calls).2
  | .invalidateBlock calls h => if h ∈ tree.mapBlockIndex then (tree.invalidateBlock calls h).2 else tree
  | .reconsiderBlock h => if h ∈ tree.mapBlockIndex then tree.reconsiderBlock h else tree

end Peony
