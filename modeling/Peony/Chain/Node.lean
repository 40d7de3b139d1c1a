import Peony.Consensus.Params
import Peony.Coins.Invariant
import Peony.Primitives.Script

namespace Peony

/-- Hashing, scripts, addresses and serialization, which the model takes as given. -/
structure Host where
  getHash : CTransaction → UInt256
  getBlockHash : CBlockHeader → UInt256
  hash : List UInt8 → UInt256
  verifyScript : (scriptSig scriptPubKey : CScript) → (flags : Nat) → (tx : CTransaction) → (nIn : Nat) →
    (amount : Int) → Bool
  extractDestination : CScript → Option String
  getLegacySigOpCount : CTransaction → Nat
  getP2SHSigOpCount : (scriptPubKey scriptSig : CScript) → Nat
  getSerializeSize : CTransaction → Nat
  getBlockSerializeSize : CBlock → Nat
  blockMerkleRoot : List CTransaction → UInt256 × Bool
  checkProofOfWork : (hash : UInt256) → (nBits : Nat) → Bool
  isBlockPayeeValid : CBlock → Bool

/-- The pointers `phashBlock` and `pprev` are the hashes of their blocks. -/
structure CBlockIndex where
  hash : UInt256
  pprev : Option UInt256
  (nHeight nTime nBits : Nat)
  nChainWork : UInt256
  vStakeModifier : List UInt8
  fGeneratedStakeModifier : Bool
  nMoneySupply : Int
  (fFailed fHaveData fHaveUndo : Bool)
  deriving DecidableEq

namespace CBlockIndex
variable (params : Consensus.Params) (pindex : CBlockIndex)
def getStakeModifierV1 : Nat :=
  if pindex.vStakeModifier.isEmpty || params.networkUpgradeActive pindex.nHeight .stakeModifierV2 then 0
  else readLE pindex.vStakeModifier

def getStakeModifierV2 : UInt256 :=
  if pindex.vStakeModifier.isEmpty || !params.networkUpgradeActive pindex.nHeight .stakeModifierV2 then 0
  else BitVec.ofNat 256 (readLE pindex.vStakeModifier)

end CBlockIndex

structure CChain where
  vChain : List CBlockIndex
  heights : ∀ (i : Nat) (pindex : CBlockIndex), vChain[i]? = some pindex → pindex.nHeight = i

namespace CChain

def tip (chain : CChain) : Option CBlockIndex := chain.vChain.getLast?
def height (chain : CChain) : Int := (chain.vChain.length : Int) - 1
def index (chain : CChain) (nHeight : Nat) : Option CBlockIndex := chain.vChain[nHeight]?

def contains (chain : CChain) (pindex : CBlockIndex) : Bool :=
  (chain.index pindex.nHeight).any fun own => own.hash == pindex.hash

end CChain

structure NodeState where
  mapBlockIndex : AssocMap UInt256 CBlockIndex
  chainActive : CChain
  mempool : AssocMap UInt256 CTransaction
  fTxIndex : Bool
  txIndex : AssocMap UInt256 (CBlockHeader × CTransaction)
  blockFiles : AssocMap UInt256 CBlock
  pcoinsTip : CCoinsView

def MAX_BLOCK_SIZE_CURRENT : Nat := 2000000
-- an empty `CTxOut` takes 9 bytes on the wire
def MAX_OUTPUTS_PER_BLOCK : Nat := MAX_BLOCK_SIZE_CURRENT / 9

def accessByTxid (view : CCoinsView) (txid : UInt256) : Coin :=
  ((List.range MAX_OUTPUTS_PER_BLOCK).findSome? fun n => (view.accessCoin ⟨txid, n⟩).1.unspent).getD coinEmpty

namespace NodeState
variable (host : Host) (node : NodeState)
def readBlockFromDisk (pindex : CBlockIndex) : Option CBlock :=
  (node.blockFiles.lookup pindex.hash).filter fun block => host.getBlockHash block.toCBlockHeader == pindex.hash

variable (hash : UInt256)
/-- The part of `GetTransaction` that looks outside the memory pool. -/
def findConfirmed : Option (CTransaction × UInt256) :=
  if node.fTxIndex then
    match node.txIndex.lookup hash with
    | none => none
    | some (header, tx) => if host.getHash tx = hash then some (tx, host.getBlockHash header) else none
  else
    let coin := accessByTxid node.pcoinsTip hash
    if coin.isSpent then none
    else do
      let pindexSlow ← node.chainActive.index coin.nHeight
      let block ← node.readBlockFromDisk host pindexSlow
      let tx ← block.vtx.find? fun tx => host.getHash tx == hash
      return (tx, pindexSlow.hash)

/-- A transaction of the memory pool leaves `hashBlock` null. -/
def getTransaction : Option (CTransaction × UInt256) :=
  match node.mempool.lookup hash with
  | some tx => some (tx, 0)
  | none => node.findConfirmed host hash

end NodeState

def permissiveHost : Host where
  getHash _ := 1
  getBlockHash header := BitVec.ofNat 256 header.nNonce
  hash _ := 0
  verifyScript _ _ _ _ _ _ := true
  extractDestination _ := none
  getLegacySigOpCount _ := 0
  getP2SHSigOpCount _ _ := 0
  getSerializeSize _ := 0
  getBlockSerializeSize _ := 0
  blockMerkleRoot _ := (0, false)
  checkProofOfWork _ _ := true
  isBlockPayeeValid _ := true

def indexAt (nHeight : Nat) : CBlockIndex where
  hash := BitVec.ofNat 256 nHeight
  pprev := if nHeight = 0 then none else some (BitVec.ofNat 256 (nHeight - 1))
  nHeight := nHeight
  nTime := 0
  nBits := 0x1e0fffff
  nChainWork := 0
  vStakeModifier := []
  fGeneratedStakeModifier := true
  nMoneySupply := 0
  fFailed := false
  fHaveData := true
  fHaveUndo := true

def emptyNode : NodeState where
  mapBlockIndex := ∅
  chainActive := ⟨[], by simp⟩
  mempool := ∅
  fTxIndex := true
  txIndex := ∅
  blockFiles := ∅
  pcoinsTip := .db ⟨0, ∅⟩

end Peony
