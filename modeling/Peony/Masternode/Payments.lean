import Peony.Masternode.Registry
import Peony.Primitives.ArithUint256

namespace Peony
open Consensus

def MASTERNODE_MIN_CONFIRMATIONS : Int := 15
def INT64_MIN : Int := -2 ^ 63

def CCoinsView.getCoinDepthAtHeight (view : CCoinsView) (output : COutPoint) (nHeight : Nat) : Int :=
  let coin := (view.accessCoin output).1
  if !coin.isSpent then ((nHeight : Int) - coin.nHeight + 1).bmod (2 ^ 32) else -1

/-- `std::sort` with `CompareLastPaid` over the reversed range; equal ones come in any order. -/
structure LastPaidSort where
  sort : List (Int × CTxIn) → List (Int × CTxIn)
  perm : ∀ vec, (sort vec).Perm vec
  descending : ∀ vec, (sort vec).Pairwise fun first second => second.1 ≤ first.1

namespace CollateralMaps
variable (maps : CollateralMaps) (script : CScript) (pindex : CBlockIndex)
def getLastPaidBlock : Option CBlockIndex :=
  ((maps.mapPaidPayeesBlocks.lookup script).getD []).reverse.find? fun paid => decide (paid.nHeight ≤ pindex.nHeight)

def getLastPaid : Int :=
  (maps.getLastPaidBlock script pindex).elim 0 (·.nTime)

end CollateralMaps

namespace MasternodeList

def masternodes (list : MasternodeList) : List CMasternode := list.vMasternodes.filterMap list.heap.lookup
def find (list : MasternodeList) (vin : CTxIn) : Option CMasternode := (list.findTxIn vin).bind list.heap.lookup

variable (clock : MnClock) (list : MasternodeList)
def enabled : List CMasternode := (list.check clock).masternodes.filter (·.isEnabled)
def countEnabled : Nat := (list.enabled clock).length

end MasternodeList

/-- What both sides read. `hashInput` is the hash of an input and a time. -/
structure PaymentView where
  host : Host
  params : Params
  getID : CPubKey → List UInt8
  hashInput : CTxIn → Int → UInt256
  lastPaidSort : LastPaidSort
  node : NodeState
  mDynamicRewards : DynamicRewards
  clock : MnClock
  list : MasternodeList
  maps : CollateralMaps
  (isBlockchainSynced isSynced : Bool)

namespace PaymentView

section
variable (view : PaymentView) (mn : CMasternode) (pindex : CBlockIndex)
def getLastPaid : Int :=
  let lastPaid := view.maps.getLastPaid (mn.payee view.getID) pindex
  if lastPaid < mn.sigTime then mn.sigTime else lastPaid

def secondsSincePayment : Int :=
  let lp := if view.getLastPaid mn pindex = 0 then mn.sigTime else view.getLastPaid mn pindex
  let sec := pindex.nTime - lp
  if sec < MONTH_IN_SECONDS then sec else MONTH_IN_SECONDS + getCompact (view.hashInput mn.vin mn.sigTime)

def nMnCount : Nat := view.list.countEnabled view.clock

variable (pindexPrev : CBlockIndex) (fFilterSigTime : Bool)
/-- Broadcast a cycle ago, and with as many confirmations as there are masternodes. -/
def isQueued (mn : CMasternode) : Bool :=
  !(fFilterSigTime && decide (view.clock.adjustedTime < mn.sigTime + view.nMnCount * 60)) &&
    decide (view.nMnCount ≤ view.node.pcoinsTip.getCoinDepthAtHeight mn.vin.prevout (pindexPrev.nHeight + 1))

def vecMasternodeLastPaid : List (Int × CTxIn) :=
  ((view.list.enabled view.clock).filter (view.isQueued pindexPrev fFilterSigTime)).map fun mn =>
    (view.secondsSincePayment mn pindexPrev, mn.vin)

def eligibleOf (vec : List (Int × CTxIn)) : List (CMasternode × CTxIn) :=
  (vec.filterMap fun s => ((view.list.check view.clock).find s.2).map fun pmn => (pmn, s.2)).take (max 10 (view.nMnCount * 5 / 100))

/-- The best masternode and the eligible inputs. With less than a third of the masternodes in the queue, it calls
itself without the filter on the broadcast time. -/
def getNextMasternodeInQueueForPayment : Option CMasternode × List CTxIn :=
  let vec := view.vecMasternodeLastPaid pindexPrev fFilterSigTime
  let vec := if fFilterSigTime && vec.length < view.nMnCount / 3 then view.vecMasternodeLastPaid pindexPrev false else vec
  let eligible := view.eligibleOf (view.lastPaidSort.sort vec)
  (eligible.head?.map Prod.fst, eligible.map Prod.snd)
end

variable (view : PaymentView)
def getBlockPayee (pindexPrev : CBlockIndex) : Option CScript :=
  (view.getNextMasternodeInQueueForPayment pindexPrev true).1.map (·.payee view.getID)

def masternodePayment (nHeight : Nat) : Int := getMasternodePayment view.params view.mDynamicRewards nHeight

/-- The payment is taken from the stake's outputs in equal parts, the remainder from the last. -/
def subtractPayment (masternodePayment : Int) (vout : List CTxOut) : List CTxOut :=
  let outputs := vout.length - 1
  let mnPaymentSplit := masternodePayment.tdiv outputs
  let mnPaymentRemainder := masternodePayment - mnPaymentSplit * outputs
  vout.mapIdx fun j out =>
    if vout.length = 2 ∧ j = 1 then { out with nValue := out.nValue - masternodePayment }
    else if 2 < vout.length ∧ 1 ≤ j then
      { out with nValue := out.nValue - mnPaymentSplit - (if j = outputs then mnPaymentRemainder else 0) }
    else out

def fillBlockPayee (txNew : CTransaction) (pindexPrev : Option CBlockIndex) (fProofOfStake : Bool) : CTransaction :=
  match pindexPrev with
  | none => txNew
  | some pindexPrev => match view.getBlockPayee pindexPrev with
    | none => txNew
    | some payee =>
      let masternodePayment := view.masternodePayment (pindexPrev.nHeight + 1)
      if fProofOfStake then
        { txNew with vout := subtractPayment masternodePayment txNew.vout ++ [⟨masternodePayment, payee⟩] }
      else
        let first := txNew.vout.head?.getD CTxOut.null
        let blockValue := getBlockValue view.params view.mDynamicRewards (pindexPrev.nHeight + 1)
        { txNew with vout := [{ first with nValue := blockValue - masternodePayment }, ⟨masternodePayment, payee⟩] }

variable (view : PaymentView)
def getLastPaidBlockSlow (script : CScript) : Nat → CBlockIndex → Except Failure (Option CBlockIndex)
  | 0, pindex => .ok (view.maps.getLastPaidBlock script pindex)
  | i + 1, pindex =>
    match view.node.chainActive.index pindex.nHeight with
    | none => .error (.fault "chainActive[pindex->nHeight]->GetBlockHash()")
    | some own =>
      if own.hash = pindex.hash then .ok (view.maps.getLastPaidBlock script pindex)
      else match view.node.readBlockFromDisk view.host pindex with
        | none => .ok none
        | some block =>
          if block.getPaidPayee (view.masternodePayment pindex.nHeight) = script then .ok (some pindex)
          else if block.hashPrevBlock = 0 then .ok none
          else match view.node.mapBlockIndex.lookup block.hashPrevBlock with
            | none => .error (.fault "pindex->nHeight")
            | some pindex => getLastPaidBlockSlow script i pindex

def findPayment (requiredMasternodePayment : Int) (vout : List CTxOut) : Option CScript :=
  vout.foldl (fun found out => if out.nValue = requiredMasternodePayment then some out.scriptPubKey else found) none

variable (pindexPrev : CBlockIndex)
def paidTime (paidPayee : CScript) : Except Failure Int := do
  match ← view.getLastPaidBlockSlow paidPayee DEFAULT_MAX_REORG_DEPTH.toNat pindexPrev with
  | some pLastPaidBlock => return pLastPaidBlock.nTime
  | none => match view.node.chainActive.index (view.maps.getCollateral paidPayee).nHeight with
    | none => .error (.fault "chainActive[collateral.nHeight]->nTime")
    | some pindex => return pindex.nTime

def nMaxLastPaid : Int :=
  ((view.getNextMasternodeInQueueForPayment pindexPrev true).2.filterMap (view.list.check view.clock).find).foldl
    (fun newest pmn => max newest (view.getLastPaid pmn pindexPrev)) INT64_MIN

/-- A payee may not be paid faster than all eligible masternodes. -/
def isInTurn (paidPayee : CScript) : Except Failure Bool := do
  let nLastPaid ← view.paidTime pindexPrev paidPayee
  if (view.getNextMasternodeInQueueForPayment pindexPrev true).1.isNone then return true
  return !decide (view.nMaxLastPaid pindexPrev < nLastPaid)

/-- The height of a coin is unsigned, and so is its distance to the block's parent. -/
def isTransactionValid (block : CBlock) (pindexPrev : CBlockIndex) : Except Failure Bool :=
  if !view.isBlockchainSynced then .ok true
  else if block.hashPrevBlock ≠ pindexPrev.hash then .error (.assertion "block.hashPrevBlock == pindexPrev->GetBlockHash()")
  else match block.vtx[if block.isProofOfStake then 1 else 0]? with
  | none => .error (.fault "block.vtx[0]")
  | some txNew => match findPayment (view.masternodePayment (pindexPrev.nHeight + 1)) txNew.vout with
    | none => .ok false
    | some paidPayee =>
      if !view.maps.hasCollateral paidPayee then .ok false
      else if view.nMnCount = 0 then .ok true
      else if !view.isSynced then .ok true
      else
        let collateral := view.maps.getCollateral paidPayee
        if collateral.nHeight = 0 then .ok false
        else if ((pindexPrev.nHeight : Int) - collateral.nHeight) % 2 ^ 32 < MASTERNODE_MIN_CONFIRMATIONS then .ok false
        else view.isInTurn pindexPrev paidPayee

end PaymentView

end Peony
