import Peony.Library.Except
import Peony.Chain.Node
import Peony.Primitives.ArithUint256

namespace Peony

structure CPivStake where
  txFrom : CTransaction
  nPosition : Nat
  pindexFrom : CBlockIndex

namespace CPivStake

def initFromTxIn (host : Host) (node : NodeState) (txin : CTxIn) : Option CPivStake := do
  let (txPrev, hashBlock) ← node.getTransaction host txin.prevout.hash
  let pindex ← node.mapBlockIndex.lookup hashBlock
  if node.chainActive.contains pindex then some ⟨txPrev, txin.prevout.n, pindex⟩ else none

def getTxOutFrom (stake : CPivStake) : Option CTxOut :=
  if stake.txFrom.isNull then none else stake.txFrom.vout[stake.nPosition]?

def getUniqueness (host : Host) (stake : CPivStake) : List UInt8 :=
  writeLE 4 stake.nPosition ++ writeLE 32 (host.getHash stake.txFrom).toNat

def contextCheck (params : Consensus.Params) (stake : CPivStake) (nHeight nTime : Nat) : Bool :=
  params.hasStakeMinAgeOrDepth nHeight nTime stake.pindexFrom.nHeight stake.pindexFrom.nTime

end CPivStake

def OLD_MODIFIER_INTERVAL : Nat := 2087

def oldModifierWalk (pindexFrom : CBlockIndex) (nStakeModifierTime : Nat) : List CBlockIndex → Option CBlockIndex
  | [] => none
  | pindex :: next =>
    let nStakeModifierTime := if pindex.fGeneratedStakeModifier then pindex.nTime else nStakeModifierTime
    if nStakeModifierTime < pindexFrom.nTime + OLD_MODIFIER_INTERVAL then oldModifierWalk pindexFrom nStakeModifierTime next
    else some pindex

/-- `GetOldStakeModifier`; the kernel goes on with modifier 0 when the walk runs off the tip. -/
def getOldStakeModifier (params : Consensus.Params) (vChain : List CBlockIndex) (pindexFrom : CBlockIndex) : Nat :=
  ((oldModifierWalk pindexFrom pindexFrom.nTime (vChain.drop (pindexFrom.nHeight + 1))).map
    (·.getStakeModifierV1 params)).getD 0

structure CStakeKernel where
  stakeModifier : List UInt8
  nTimeBlockFrom : Nat
  stakeUniqueness : List UInt8
  (nTime nBits : Nat)
  stakeValue : Int

namespace CStakeKernel
variable (host : Host) (kernel : CStakeKernel)
def getHash : UInt256 :=
  host.hash (kernel.stakeModifier ++ writeLE 4 kernel.nTimeBlockFrom ++ kernel.stakeUniqueness ++ writeLE 4 kernel.nTime)

def target (kernel : CStakeKernel) : UInt256 :=
  setCompact kernel.nBits * (BitVec.ofNat 256 (kernel.stakeValue % 2 ^ 64).toNat / 100)

def checkKernelHash : Bool := decide (kernel.getHash host < kernel.target)

end CStakeKernel

def kernelModifier (params : Consensus.Params) (vChain : List CBlockIndex) (pindexPrev pindexFrom : CBlockIndex) : List UInt8 :=
  if !params.networkUpgradeActive (pindexPrev.nHeight + 1) .stakeModifierV2 then
    writeLE 8 (getOldStakeModifier params vChain pindexFrom)
  else writeLE 32 (pindexPrev.getStakeModifierV2 params).toNat

def STANDARD_SCRIPT_VERIFY_FLAGS : Nat := 0xdf

def stakeTxIn (block : CBlock) (pindexPrev : CBlockIndex) : Option CTxIn :=
  if block.hashPrevBlock ≠ pindexPrev.hash then none
  else if !block.isProofOfStake then none
  else match block.vtx with
    | _ :: tx :: _ => tx.vin.head?
    | _ => none

variable (host : Host)
def loadStakeInput (node : NodeState) (block : CBlock) (pindexPrev : CBlockIndex) : Option CPivStake := do
  let txin ← stakeTxIn block pindexPrev
  CPivStake.initFromTxIn host node txin

/-- An output index past the end is read by the kernel before `GetTxOutFrom` rejects it; the model rejects it there. -/
def checkStakeInput (params : Consensus.Params) (block : CBlock) (pindexPrev : CBlockIndex)
    (stake : CPivStake) (stakeModifier : List UInt8) : Except String Unit := do
  Except.require (stake.contextCheck params (pindexPrev.nHeight + 1) block.nTime)
    "stake input failing contextual checks"
  match stake.getTxOutFrom, block.vtx[1]? with
  | some stakePrevout, some tx =>
    let kernel : CStakeKernel := ⟨stakeModifier, stake.pindexFrom.nTime, stake.getUniqueness host, block.nTime,
      block.nBits, stakePrevout.nValue⟩
    Except.require (kernel.checkKernelHash host) "kernel hash check fails"
    Except.require (host.verifyScript ((tx.vin.head?.map (·.scriptSig)).getD []) stakePrevout.scriptPubKey
      STANDARD_SCRIPT_VERIFY_FLAGS tx 0 stakePrevout.nValue) "signature fails: "
  | _, _ => .error "unable to get stake prevout for coinstake"

def checkProofOfStake (params : CChainParams) (node : NodeState) (block : CBlock) (pindexPrev : CBlockIndex) : Except String Unit :=
  if block.nTime ≤ params.checkpoints.nTimeLastCheckpoint then .ok ()
  else match loadStakeInput host node block pindexPrev with
    | none => .error "stake input initialization failed"
    | some stake => checkStakeInput host params.consensus block pindexPrev stake
        (kernelModifier params.consensus node.chainActive.vChain pindexPrev stake.pindexFrom)

end Peony
