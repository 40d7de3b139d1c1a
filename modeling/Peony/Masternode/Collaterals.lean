import Peony.Library.Index
import Peony.Rewards.Adjust

namespace Peony
open Int64Arith Consensus

def HOUR_IN_SECONDS : Int := 60 * 60
def DEFAULT_MAX_REORG_DEPTH : Int := 100
/-- The bytes that a script keeps in its own object. -/
def CScriptBase.N : Nat := 28

def getMasternodePayment (params : Params) (mDynamicRewards : DynamicRewards) (nHeight : Nat) : Int :=
  if 110000 < nHeight then (wrapInt64 (getBlockValue params mDynamicRewards nHeight * 65)).tdiv 100
  else if 3000 < nHeight then (wrapInt64 (getBlockValue params mDynamicRewards nHeight * 80)).tdiv 100
  else 0

/-- The last output with the payment's amount, else the last output. -/
def CBlock.getPaidPayee (block : CBlock) (nAmount : Int) : CScript :=
  let vout := (block.vtx[if block.isProofOfWork then 0 else 1]?).elim [] (·.vout)
  match vout.reverse.find? fun out => out.nValue == nAmount with
  | some out => out.scriptPubKey
  | none => vout.getLast?.elim [] (·.scriptPubKey)

/-- `vinSpent` holds the scripts whose masternode the running call marks as spent. -/
structure CollateralMaps where
  (initiatedAt lastProcess : Int)
  mapScriptCollaterals : AssocMap CScript Coin
  mapCOutPointCollaterals : CoinMap
  mapCAmountCollaterals : AssocMap Int (List COutPoint)
  mapRemovedCollaterals : AssocMap Int CoinMap
  mapPaidPayeesBlocks : AssocMap CScript (List CBlockIndex)
  mapPaidPayeesHeight : AssocMap Nat CScript
  vinSpent : List CScript

/-- What a call reads of the node; the coin database is the one after `FlushStateToDisk`. -/
structure MnHook where
  now : Int
  node : NodeState
  coins : CoinMap
  mDynamicRewards : DynamicRewards

namespace CollateralMaps

section
variable (maps : CollateralMaps)
def insertCollateral (outPoint : COutPoint) (coin : Coin) : CollateralMaps :=
  { maps with
    mapScriptCollaterals := maps.mapScriptCollaterals.insert coin.out.scriptPubKey coin
    mapCOutPointCollaterals := maps.mapCOutPointCollaterals.insert outPoint coin
    mapCAmountCollaterals := maps.mapCAmountCollaterals.insert coin.out.nValue
      (((maps.mapCAmountCollaterals.lookup coin.out.nValue).getD []).insert outPoint) }

def eraseCollateral (outPoint : COutPoint) (out : CTxOut) : CollateralMaps :=
  { maps with
    mapScriptCollaterals := maps.mapScriptCollaterals.erase out.scriptPubKey
    mapCOutPointCollaterals := maps.mapCOutPointCollaterals.erase outPoint
    mapCAmountCollaterals := match maps.mapCAmountCollaterals.lookup out.nValue with
      | none => maps.mapCAmountCollaterals
      | some outPoints => maps.mapCAmountCollaterals.insert out.nValue (outPoints.filter (· ≠ outPoint)) }

variable (nHeight : Int) (outPoint : COutPoint)
def recordRemoved (coin : Coin) : CollateralMaps :=
  { maps with
    mapRemovedCollaterals := maps.mapRemovedCollaterals.insert nHeight
      (((maps.mapRemovedCollaterals.lookup nHeight).getD ∅).insert outPoint coin)
    vinSpent := maps.vinSpent ++ [coin.out.scriptPubKey] }

def registerPaidPayee (paidPayee : CScript) (pindex : CBlockIndex) (nHeight : Nat) : CollateralMaps :=
  { maps with
    mapPaidPayeesBlocks := maps.mapPaidPayeesBlocks.insert paidPayee
      (((maps.mapPaidPayeesBlocks.lookup paidPayee).getD []) ++ [pindex])
    mapPaidPayeesHeight := maps.mapPaidPayeesHeight.insert nHeight paidPayee }

def clear : CollateralMaps :=
  { maps with
    mapScriptCollaterals := ∅
    mapCOutPointCollaterals := ∅
    mapCAmountCollaterals := ∅
    mapRemovedCollaterals := ∅
    mapPaidPayeesBlocks := ∅
    mapPaidPayeesHeight := ∅ }

/-- A call more than an hour after the last one marks the maps for a rebuild. -/
def wake (now : Int) : CollateralMaps :=
  { maps with
    initiatedAt := if maps.lastProcess + HOUR_IN_SECONDS < now then -1 else maps.initiatedAt
    lastProcess := now
    vinSpent := [] }

def prune (nHeight : Nat) : CollateralMaps :=
  let nRemovalHeight := (nHeight : Int) - DEFAULT_MAX_REORG_DEPTH
  { maps with
    mapRemovedCollaterals := maps.mapRemovedCollaterals.erase nRemovalHeight
    initiatedAt := max maps.initiatedAt nRemovalHeight }

variable (payee : CScript)
def hasCollateral : Bool := (maps.mapScriptCollaterals.lookup payee).isSome
def getCollateral : Coin := (maps.mapScriptCollaterals.lookup payee).getD coinEmpty
end

variable (host : Host) (params : Params) (hook : MnHook)
def loadCollaterals (nHeight : Nat) (maps : CollateralMaps) : CollateralMaps :=
  if 0 < getMasternodeNodeCollateral nHeight ∨ 0 < getMasternodeNodeCollateral (nHeight + params.nBlocksPerWeek) then
    hook.coins.entries.foldl (fun maps entry =>
      if !entry.2.isSpent && isCollateralAmount params nHeight entry.2.out.nValue then maps.insertCollateral entry.1 entry.2
      else maps) maps
  else maps

/-- An index that is not on the chain is a null pointer. -/
def loadPaidPayees : List Nat → CollateralMaps → Except Failure CollateralMaps
  | [], maps => .ok maps
  | h :: heights, maps =>
    match hook.node.chainActive.index h with
    | none => .error (.fault "pBlockIndex->GetPaidPayee()")
    | some pindex =>
      let paidPayee := (hook.node.readBlockFromDisk host pindex).elim []
        (·.getPaidPayee (getMasternodePayment params hook.mDynamicRewards h))
      loadPaidPayees heights (maps.registerPaidPayee paidPayee pindex h)

/-- The scan for payees starts twice as many blocks below the tip as there are scripts. -/
def init (maps : CollateralMaps) : Except Failure CollateralMaps :=
  if 0 < maps.initiatedAt then .ok maps
  else do
    let nHeight := hook.node.chainActive.height.toNat
    let loaded := loadCollaterals params hook nHeight maps.clear
    let nMaxDepth := loaded.mapScriptCollaterals.entries.length * 2
    Except.require (decide (nMaxDepth ≤ nHeight)) (.fault "pBlockIndex->GetPaidPayee()")
    let paid ← loadPaidPayees host params hook (List.range' (nHeight - nMaxDepth) (nMaxDepth + 1)) loaded
    return { paid with initiatedAt := nHeight, lastProcess := hook.now }

variable (host : Host) (params : Params)
section
variable (nHeight : Nat) (maps : CollateralMaps)
/-- The condition compares the two accepted amounts with each other, not the amount with both. -/
def keepsAmount (nValue : Int) : Bool :=
  nValue == getMasternodeNodeCollateral nHeight ||
    getMasternodeNodeCollateral nHeight == getMasternodeNodeCollateral (nHeight + params.nBlocksPerWeek)

def spendCollateral (txin : CTxIn) : CollateralMaps :=
  match maps.mapCOutPointCollaterals.lookup txin.prevout with
  | none => maps
  | some coin => (maps.recordRemoved nHeight txin.prevout coin).eraseCollateral txin.prevout coin.out
end

/-- The coins of the index take their flags from the position of the output. -/
def collateralCoin (nHeight n : Nat) (out : CTxOut) : Coin := ⟨n == 0, n == 1, out, nHeight⟩

def createCollaterals (nHeight : Nat) (txid : UInt256) : (n : Nat) → List CTxOut → CollateralMaps → CollateralMaps
  | _, [], maps => maps
  | n, out :: vout, maps =>
    createCollaterals nHeight txid (n + 1) vout
      (if isCollateralAmount params nHeight out.nValue then maps.insertCollateral ⟨txid, n⟩ (collateralCoin nHeight n out)
        else maps)

def connectTx (nHeight : Nat) (maps : CollateralMaps) (tx : CTransaction) : CollateralMaps :=
  createCollaterals params nHeight (host.getHash tx) 0 tx.vout (tx.vin.foldl (spendCollateral nHeight) maps)

section
variable (hook : MnHook) (maps : CollateralMaps) (pindex : CBlockIndex) (block : CBlock)
def connectReady : CollateralMaps :=
  let nHeight := pindex.nHeight
  let connected := block.vtx.foldl (connectTx host params nHeight) (maps.prune nHeight)
  let paidPayee := block.getPaidPayee (getMasternodePayment params hook.mDynamicRewards nHeight)
  if paidPayee.isEmpty then connected else connected.registerPaidPayee paidPayee pindex nHeight

def ready : Except Failure CollateralMaps :=
  let woken := maps.wake hook.now
  if woken.initiatedAt < 0 then woken.init host params hook else .ok woken

/-- The loop over the amounts goes on from an entry that it has erased, and the script of a spent coin is read after the
coin is erased: it is still there if it lies in the coin itself, and freed if it lies on the heap. -/
def connectBlock : Except Failure CollateralMaps := do
  let ready ← maps.ready host params hook
  Except.require (ready.mapCAmountCollaterals.keys.all (keepsAmount params pindex.nHeight)) (.fault "kv")
  let connected := ready.connectReady host params hook pindex block
  Except.require (connected.vinSpent.all fun script => script.length ≤ CScriptBase.N) (.fault "scriptPubKey")
  return connected

variable {host params hook maps pindex block} in
lemma connectBlock_eq_ok {next} : maps.connectBlock host params hook pindex block = .ok next ↔
    ∃ ready, maps.ready host params hook = .ok ready ∧
      (∀ nValue ∈ ready.mapCAmountCollaterals.keys, keepsAmount params pindex.nHeight nValue = true) ∧
      (∀ script ∈ next.vinSpent, script.length ≤ CScriptBase.N) ∧ next = ready.connectReady host params hook pindex block := by
  unfold connectBlock
  rw [Except.bind_eq_ok]
  refine exists_congr fun ready => and_congr_right fun _ => ?_
  rw [Except.require_bind_eq_ok, Except.require_bind_eq_ok]
  simp only [List.all_eq_true, decide_eq_true_eq]
  refine and_congr_right fun _ => ?_
  constructor
  · rintro ⟨inline, done⟩
    cases done
    exact ⟨inline, rfl⟩
  · rintro ⟨inline, rfl⟩
    exact ⟨inline, rfl⟩
end

def uncreateCollaterals (nHeight : Nat) (txid : UInt256) : (n : Nat) → List CTxOut → CollateralMaps → CollateralMaps
  | _, [], maps => maps
  | n, out :: vout, maps =>
    uncreateCollaterals nHeight txid (n + 1) vout
      (if isCollateralAmount params nHeight out.nValue then maps.eraseCollateral ⟨txid, n⟩ out else maps)

variable (nHeight : Nat) (maps : CollateralMaps)
def restoreRemoved : CollateralMaps :=
  match maps.mapRemovedCollaterals.lookup (nHeight : Int) with
  | none => maps
  | some removed =>
    let restored := removed.entries.foldl (fun maps entry => maps.insertCollateral entry.1 entry.2) maps
    { restored with mapRemovedCollaterals := restored.mapRemovedCollaterals.erase nHeight }

def unregisterPaidPayee : CollateralMaps :=
  match maps.mapPaidPayeesHeight.lookup nHeight with
  | none => maps
  | some script =>
    let blocks := ((maps.mapPaidPayeesBlocks.lookup script).getD []).dropLast
    { maps with
      mapPaidPayeesBlocks := if blocks.isEmpty then maps.mapPaidPayeesBlocks.erase script
        else maps.mapPaidPayeesBlocks.insert script blocks
      mapPaidPayeesHeight := maps.mapPaidPayeesHeight.erase nHeight }

def disconnectBlock (now : Int) (maps : CollateralMaps) (pindex : CBlockIndex) (block : CBlock) : CollateralMaps :=
  let nHeight := pindex.nHeight
  let woken := maps.wake now
  if (nHeight : Int) < woken.initiatedAt then { woken with initiatedAt := -1 }
  else
    let uncreated := block.vtx.foldl (fun maps tx =>
      uncreateCollaterals params nHeight (host.getHash tx) 0 tx.vout maps) woken
    (uncreated.restoreRemoved nHeight).unregisterPaidPayee nHeight

end CollateralMaps

end Peony
