import Peony.Rewards.Value
import Peony.Validation.CheckBlock
import Peony.Validation.UpdateCoins

namespace Peony
open Int64Arith Consensus Except

def MAX_BLOCK_SIGOPS_CURRENT : Nat := 40000

namespace CCoinsView

def haveInputs (view : CCoinsView) : List CTxIn → Bool × CCoinsView
  | [] => (true, view)
  | txin :: vin =>
    let held := view.haveCoin txin.prevout
    if held.1 then haveInputs held.2 vin else (false, held.2)

/-- `GetValueIn`; its callers have called `HaveInputs`, so the reads find every coin cached. -/
def getValueIn (view : CCoinsView) (tx : CTransaction) : Int :=
  if tx.isCoinBase then 0
  else tx.vin.foldl (fun nResult txin => wrapInt64 (nResult + (view.accessCoin txin.prevout).1.out.nValue)) 0

end CCoinsView

def checkInputValues (params : Params) (view : CCoinsView) (nSpendHeight : Nat) (nValueIn : Int) : List CTxIn → Except Failure Int
  | [] => .ok nValueIn
  | txin :: vin => do
    let coin := (view.accessCoin txin.prevout).1
    require (!coin.isSpent) (.assertion "!coin.IsSpent()")
    require (!(coin.fCoinBase || coin.fCoinStake) ||
      decide (params.nCoinbaseMaturity ≤ (nSpendHeight : Int) - coin.nHeight))
      (.invalid "bad-txns-premature-spend-of-coinbase-coinstake")
    let nValueIn := wrapInt64 (nValueIn + coin.out.nValue)
    require (params.moneyRange coin.out.nValue && params.moneyRange nValueIn)
      (.dos 100 "bad-txns-inputvalues-outofrange")
    checkInputValues params view nSpendHeight nValueIn vin

def checkTxInputs (params : CChainParams) (view : CCoinsView) (tx : CTransaction) (nSpendHeight : Nat) : Except Failure Unit :=
  if nSpendHeight ≤ params.getTotalBlocksEstimate then .ok ()
  else do
    require (view.haveInputs tx.vin).1 (.invalid "Inputs unavailable")
    let nValueIn ← checkInputValues params.consensus view nSpendHeight 0 tx.vin
    if tx.isCoinStake then .ok ()
    else do
      let nValueOut ← tx.getValueOut
      require (decide (nValueOut ≤ nValueIn)) (.dos 100 "bad-txns-in-belowout")
      let nTxFee := wrapInt64 (nValueIn - nValueOut)
      require (decide (0 ≤ nTxFee)) (.dos 100 "bad-txns-fee-negative")
      require (params.consensus.moneyRange nTxFee) (.dos 100 "bad-txns-fee-outofrange")

def checkScripts (host : Host) (view : CCoinsView) (tx : CTransaction) (flags : Nat) : (nIn : Nat) → List CTxIn → Except Failure Unit
  | _, [] => .ok ()
  | nIn, txin :: vin => do
    let coin := (view.accessCoin txin.prevout).1
    require (!coin.isSpent) (.assertion "!coin.IsSpent()")
    require (host.verifyScript txin.scriptSig coin.out.scriptPubKey flags tx nIn coin.out.nValue)
      (.dos 100 "mandatory-script-verify-flag-failed")
    checkScripts host view tx flags (nIn + 1) vin

variable (host : Host)
def checkInputs (params : CChainParams) (view : CCoinsView) (tx : CTransaction) (nSpendHeight : Nat)
    (fScriptChecks : Bool) (flags : Nat) : Except Failure Unit :=
  if tx.isCoinBase then .ok ()
  else do
    checkTxInputs params view tx nSpendHeight
    if fScriptChecks then checkScripts host view tx flags 0 tx.vin else .ok ()

variable (params : Params)
def paysBurnAddress (nHeight : Nat) (script : CScript) : Bool :=
  (host.extractDestination script).any fun addr => params.isBurnAddress addr nHeight

/-- The burn scan of a transaction's outputs, which only looks at normal payment scripts. -/
def addBurned (nHeight : Nat) (nUnspendableValue : Int) (vout : List CTxOut) : Int :=
  vout.foldl (fun nUnspendableValue out =>
    if isNormalPaymentScript out.scriptPubKey && paysBurnAddress host params nHeight out.scriptPubKey then
      wrapInt64 (nUnspendableValue + out.nValue)
    else nUnspendableValue) nUnspendableValue

structure ConnectState where
  view : CCoinsView
  nSigOps : Nat
  (nFees nValueIn nValueOut nUnspendableValue : Int)
  vtxundo : CBlockUndo

structure BlockContext where
  (nHeight nPrevHeight : Nat)

def BlockContext.nSpendHeight (context : BlockContext) : Nat := context.nPrevHeight + 1

def scriptFlags (context : BlockContext) : Nat :=
  SCRIPT_VERIFY_P2SH + SCRIPT_VERIFY_DERSIG +
    if params.networkUpgradeActive context.nPrevHeight .bip65 then SCRIPT_VERIFY_CHECKLOCKTIMEVERIFY else 0

def getP2SHSigOpCount (view : CCoinsView) (tx : CTransaction) : Nat :=
  if tx.isCoinBase then 0
  else (tx.vin.map fun txin =>
    host.getP2SHSigOpCount (view.accessCoin txin.prevout).1.out.scriptPubKey txin.scriptSig).sum

def connectTx (params : CChainParams) (context : BlockContext) (state : ConnectState) (i : Nat)
    (tx : CTransaction) : Except Failure ConnectState := do
  let nSigOps := state.nSigOps + host.getLegacySigOpCount tx
  require (decide (nSigOps ≤ MAX_BLOCK_SIGOPS_CURRENT)) (.dos 100 "bad-blk-sigops")
  let inputs := if tx.isCoinBase then (true, state.view) else state.view.haveInputs tx.vin
  require inputs.1 (.dos 100 "bad-txns-inputs-missingorspent")
  let nSigOps := nSigOps + getP2SHSigOpCount host inputs.2 tx
  require (decide (nSigOps ≤ MAX_BLOCK_SIGOPS_CURRENT)) (.dos 100 "bad-blk-sigops")
  let nTxValueIn := inputs.2.getValueIn tx
  let nTxValueOut ← tx.getValueOut
  checkInputs host params inputs.2 tx context.nSpendHeight
    (decide (params.getTotalBlocksEstimate ≤ context.nHeight)) (scriptFlags params.consensus context)
  let nUnspendableValue := wrapInt64 (state.nUnspendableValue + tx.getUnspendableValueOut)
  let (txundo, view) ← updateCoins host tx inputs.2 context.nHeight
  return {
    view
    nSigOps
    nFees := if tx.isCoinBase || tx.isCoinStake then state.nFees
      else wrapInt64 (state.nFees + wrapInt64 (nTxValueIn - nTxValueOut))
    nValueIn := if tx.isCoinBase then state.nValueIn else wrapInt64 (state.nValueIn + nTxValueIn)
    nValueOut := wrapInt64 (state.nValueOut + nTxValueOut)
    nUnspendableValue := if params.lastCheckpointHeight < context.nHeight then
      addBurned host params.consensus context.nHeight nUnspendableValue tx.vout else nUnspendableValue
    vtxundo := if i = 0 then state.vtxundo else state.vtxundo ++ [txundo] }

def connectTxs (host : Host) (params : CChainParams) (context : BlockContext) (state : ConnectState) :
    (i : Nat) → List CTransaction → Except Failure ConnectState
  | _, [] => .ok state
  | i, tx :: vtx => do
    let next ← connectTx host params context state i tx
    connectTxs host params context next (i + 1) vtx

variable (nHeight : Nat)
def addBurnedCoins (nUnspendableValue : Int) (coins : CoinMap) : Int :=
  coins.entries.foldl (fun nUnspendableValue entry =>
    if paysBurnAddress host params nHeight entry.2.out.scriptPubKey then wrapInt64 (nUnspendableValue + entry.2.out.nValue)
    else nUnspendableValue) nUnspendableValue

structure ConnectResult where
  view : CCoinsView
  blockundo : Option CBlockUndo
  (nFees nValueIn nValueOut nMint nMoneySupply : Int)

def ConnectState.start (view : CCoinsView) : ConnectState := ⟨view, 0, 0, 0, 0, 0, []⟩

def ConnectState.nMint (state : ConnectState) : Int :=
  wrapInt64 (wrapInt64 (state.nValueOut - state.nValueIn) + state.nFees)

def expectedMint (mDynamicRewards : DynamicRewards) (block : CBlock) (context : BlockContext) (nFees : Int) : Int :=
  let nBlockValue := getBlockValue params mDynamicRewards (context.nPrevHeight + 1)
  if block.isProofOfWork then wrapInt64 (nBlockValue + nFees) else nBlockValue

section
variable (params : CChainParams) (mDynamicRewards : DynamicRewards) (block : CBlock) (pindex pprev : CBlockIndex) (view : CCoinsView)
def connectVerified : Except Failure ConnectResult := do
  let context : BlockContext := ⟨pindex.nHeight, pprev.nHeight⟩
  let isPoSActive := params.consensus.networkUpgradeActive pindex.nHeight .pos
  require (isPoSActive || !block.isProofOfStake) (.dos 100 "PoS-early")
  require (!isPoSActive || block.isProofOfStake) (.dos 100 "PoW-ended")
  let state ← connectTxs host params context (.start view) 0 block.vtx
  require (decide (state.nMint ≤ expectedMint params.consensus mDynamicRewards block context state.nFees))
    (.dos 100 "bad-cb-amount")
  let nUnspendableValue := if pindex.nHeight = params.lastCheckpointHeight then
    addBurnedCoins host params.consensus pindex.nHeight state.nUnspendableValue state.view.cursor
    else state.nUnspendableValue
  return {
    view := state.view.setBestBlock pindex.hash
    blockundo := if pindex.fHaveUndo then none else some state.vtxundo
    nFees := state.nFees
    nValueIn := state.nValueIn
    nValueOut := state.nValueOut
    nMint := state.nMint
    nMoneySupply := wrapInt64 (pprev.nMoneySupply +
      wrapInt64 (wrapInt64 (state.nValueOut - state.nValueIn) - nUnspendableValue)) }

/-- `ConnectBlock` up to the reward and masternode hooks, for a block that has a parent. -/
def connectBlock : Except Failure ConnectResult := do
  checkBlock host params.consensus block
  require (view.getBestBlock.1 == pprev.hash) (.assertion "hashPrevBlock == view.GetBestBlock()")
  connectVerified host params mDynamicRewards block pindex pprev view.getBestBlock.2
end

def connectGenesis (pindex : CBlockIndex) (view : CCoinsView) : CCoinsView := view.setBestBlock pindex.hash

/-- The permissive host with the lock time of a transaction as its id. -/
def labelHost : Host := { permissiveHost with getHash := fun tx => BitVec.ofNat 256 tx.nLockTime }

def newIndex : CBlockIndex := { indexAt nHeight with fHaveUndo := false }

def coinbaseTx (label : Nat) (nValue : Int) : CTransaction :=
  ⟨1, [⟨⟨0, 4294967295⟩, [0, 0], 4294967295⟩], [⟨nValue, []⟩], label⟩

def paymentTx (label : Nat) (prevouts : List COutPoint) (vout : List CTxOut) : CTransaction :=
  ⟨1, prevouts.map fun prevout => ⟨prevout, [], 4294967295⟩, vout, label⟩

def blockAt (vtx : List CTransaction) : CBlock where
  nVersion := 7
  hashPrevBlock := (indexAt (nHeight - 1)).hash
  hashMerkleRoot := 0
  nTime := 0
  nBits := 0
  nNonce := nHeight
  nAccumulatorCheckpoint := 0
  vtx := vtx
  vchBlockSig := []

end Peony
