import Peony.Masternode.Collaterals

namespace Peony

def MASTERNODE_MIN_MNP_SECONDS : Int := 10 * 60
def MASTERNODE_MIN_MNB_SECONDS : Int := 5 * 60
def MASTERNODE_EXPIRATION_SECONDS : Int := 120 * 60
def MASTERNODE_REMOVAL_SECONDS : Int := 130 * 60
abbrev CPubKey := List UInt8

inductive MasternodeState where
  | preEnabled | enabled | expired | remove | watchdogExpired | poseBan | vinSpent | posError | missing
  deriving DecidableEq

structure CMasternodePing where
  vin : CTxIn
  blockHash : UInt256
  sigTime : Int
  vchSig : List UInt8
  nMessVersion : Int
  deriving DecidableEq

def CMasternodePing.isNull (ping : CMasternodePing) : Bool := ping.blockHash == 0 || ping.vin.prevout.isNull

structure CMasternode where
  vin : CTxIn
  addr : List UInt8
  (pubKeyCollateralAddress pubKeyMasternode : CPubKey)
  vchSig : List UInt8
  nMessVersion : Int
  activeState : MasternodeState
  (sigTime protocolVersion : Int)
  lastPing : CMasternodePing
  deriving DecidableEq

structure MnClock where
  adjustedTime : Int
  shutdownRequested : Bool

structure MnContext extends MnClock where
  checkPingSignature : CMasternodePing → CPubKey → Bool
  isRecentBlock : UInt256 → Bool
  checkSignature : CMasternode → Bool
  isDefaultPort : List UInt8 → Bool
  isInputAssociatedWithPubkey : CMasternode → Bool
  isActiveMasternode : CMasternode → Bool
  /-- Whether the collateral input is acceptable, deep enough and of a fitting amount, and the broadcast not older than that. -/
  acceptsInputs : CMasternode → Bool

/-- `GetScriptForDestination` of a key id: `OP_DUP OP_HASH160 <id> OP_EQUALVERIFY OP_CHECKSIG`. -/
def getScriptForDestination (keyID : List UInt8) : CScript := [0x76, 0xa9, 20] ++ keyID ++ [0x88, 0xac]

namespace CMasternode

def payee (getID : CPubKey → List UInt8) (mn : CMasternode) : CScript :=
  getScriptForDestination (getID mn.pubKeyCollateralAddress)

def keys (getID : CPubKey → List UInt8) (mn : CMasternode) : CScript × CTxIn × CPubKey :=
  (mn.payee getID, mn.vin, mn.pubKeyMasternode)

def isEnabled (mn : CMasternode) : Bool := mn.activeState == .enabled

section
variable (clock : MnClock)
def isPingedWithin (seconds now : Int) (mn : CMasternode) : Bool :=
  !mn.lastPing.isNull && decide ((if now = -1 then clock.adjustedTime else now) - mn.lastPing.sigTime < seconds)

def isBroadcastedWithin (seconds : Int) (mn : CMasternode) : Bool :=
  decide (clock.adjustedTime - mn.sigTime < seconds)

def check (mn : CMasternode) : CMasternode :=
  if clock.shutdownRequested then mn
  else if mn.activeState = .vinSpent then mn
  else if !mn.isPingedWithin clock MASTERNODE_REMOVAL_SECONDS (-1) then { mn with activeState := .remove }
  else if !mn.isPingedWithin clock MASTERNODE_EXPIRATION_SECONDS (-1) then { mn with activeState := .expired }
  else if mn.lastPing.sigTime - mn.sigTime < MASTERNODE_MIN_MNP_SECONDS then { mn with activeState := .preEnabled }
  else { mn with activeState := .enabled }
end

def takeBroadcast (mn mnb : CMasternode) : CMasternode :=
  { mn with
    pubKeyMasternode := mnb.pubKeyMasternode
    pubKeyCollateralAddress := mnb.pubKeyCollateralAddress
    sigTime := mnb.sigTime
    vchSig := mnb.vchSig
    protocolVersion := mnb.protocolVersion
    addr := mnb.addr }

end CMasternode

/-- The containers hold pointers; `heap` has the objects they lead to. -/
structure MasternodeList where
  heap : AssocMap Nat CMasternode
  vMasternodes : List Nat
  mapScriptMasternodes : AssocMap CScript Nat
  mapTxInMasternodes : AssocMap CTxIn Nat
  mapPubKeyMasternodes : AssocMap CPubKey Nat

namespace MasternodeList
variable (getID : CPubKey → List UInt8) (list : MasternodeList)
def findScript (payee : CScript) : Option Nat := list.mapScriptMasternodes.lookup payee
def findTxIn (vin : CTxIn) : Option Nat := list.mapTxInMasternodes.lookup vin
def findPubKey (pubKeyMasternode : CPubKey) : Option Nat := list.mapPubKeyMasternodes.lookup pubKeyMasternode
def newAddress : Nat := list.heap.keys.foldr max 0 + 1

def push (mn : CMasternode) : MasternodeList where
  heap := list.heap.insert list.newAddress mn
  vMasternodes := list.vMasternodes ++ [list.newAddress]
  mapScriptMasternodes := list.mapScriptMasternodes.insert (mn.payee getID) list.newAddress
  mapTxInMasternodes := list.mapTxInMasternodes.insert mn.vin list.newAddress
  mapPubKeyMasternodes := list.mapPubKeyMasternodes.insert mn.pubKeyMasternode list.newAddress

def dropPointer (pmn : Nat) : MasternodeList := { list with vMasternodes := list.vMasternodes.erase pmn }

def delete (pmn : Nat) (mn : CMasternode) : MasternodeList where
  heap := list.heap.erase pmn
  vMasternodes := list.vMasternodes.erase pmn
  mapScriptMasternodes := list.mapScriptMasternodes.erase (mn.payee getID)
  mapTxInMasternodes := list.mapTxInMasternodes.erase mn.vin
  mapPubKeyMasternodes := list.mapPubKeyMasternodes.erase mn.pubKeyMasternode

def modify (pmn : Nat) (f : CMasternode → CMasternode) : MasternodeList :=
  match list.heap.lookup pmn with
  | none => list
  | some mn => { list with heap := list.heap.insert pmn (f mn) }

/-- A known masternode of the script leaves the vector, and the new one is not added. -/
def add (mn : CMasternode) : MasternodeList :=
  if !mn.isEnabled then list
  else match list.findScript (mn.payee getID) with
    | some mnScript => list.dropPointer mnScript
    | none => match list.findTxIn mn.vin with
      | none => list.push getID mn
      | some _ => list

def remove (vin : CTxIn) : MasternodeList :=
  match list.vMasternodes.find? fun pmn => (list.heap.lookup pmn).any (·.vin == vin) with
  | none => list
  | some pmn => match list.heap.lookup pmn with
    | none => list
    | some mn => list.delete getID pmn mn

def check (clock : MnClock) : MasternodeList :=
  list.vMasternodes.foldl (fun list pmn => list.modify pmn (·.check clock)) list

def isRemovable (forceExpiredRemoval : Bool) (mn : CMasternode) : Bool :=
  mn.activeState == .remove || mn.activeState == .vinSpent || (forceExpiredRemoval && mn.activeState == .expired)

def checkAndRemove (clock : MnClock) (forceExpiredRemoval : Bool) : MasternodeList :=
  (list.check clock).vMasternodes.foldl (fun list pmn =>
    match list.heap.lookup pmn with
    | none => list
    | some mn => if isRemovable forceExpiredRemoval mn then list.delete getID pmn mn else list) (list.check clock)

/-- `Find(scriptPubKey)` of a collateral that leaves the collateral maps is marked as spent. -/
def markVinSpent (scriptPubKey : CScript) : MasternodeList :=
  match list.findScript scriptPubKey with
  | none => list
  | some pmn => list.modify pmn ({ · with activeState := .vinSpent })

def pingCheckAndUpdate (context : MnContext) (ping : CMasternodePing) (fRequireEnabled fCheckSigTimeOnly : Bool) :
    MasternodeList × Bool :=
  if context.adjustedTime + 60 * 60 < ping.sigTime then (list, false)
  else if ping.sigTime ≤ context.adjustedTime - MASTERNODE_EXPIRATION_SECONDS then (list, false)
  else match list.findTxIn ping.vin with
    | none => (list, fCheckSigTimeOnly)
    | some pmn => match list.heap.lookup pmn with
      | none => (list, false)
      | some mn =>
        let isSignatureValid := context.checkPingSignature ping mn.pubKeyMasternode
        if fCheckSigTimeOnly then (list, isSignatureValid)
        else if fRequireEnabled && !mn.isEnabled then (list, false)
        else if mn.isPingedWithin context.toMnClock (MASTERNODE_MIN_MNP_SECONDS - 60) ping.sigTime then (list, false)
        else if !isSignatureValid || !context.isRecentBlock ping.blockHash then (list, false)
        else
          let pinged := { mn with lastPing := ping }.check context.toMnClock
          (list.modify pmn fun _ => pinged, pinged.isEnabled)

def updateFromNewBroadcast (context : MnContext) (pmn : Nat) (mnb : CMasternode) : MasternodeList :=
  match list.heap.lookup pmn with
  | none => list
  | some mn =>
    if mn.sigTime < mnb.sigTime then
      let taken := list.modify pmn (·.takeBroadcast mnb)
      if mnb.lastPing.isNull then taken.modify pmn ({ · with lastPing := mnb.lastPing })
      else match taken.pingCheckAndUpdate context mnb.lastPing false false with
        | (pinged, true) => pinged.modify pmn ({ · with lastPing := mnb.lastPing })
        | (pinged, false) => pinged
    else list

variable (context : MnContext) (mnb : CMasternode)
def updateMasternodeList : MasternodeList :=
  match list.findTxIn mnb.vin with
  | none => list.add getID mnb
  | some pmn => list.updateFromNewBroadcast context pmn mnb

def checkBroadcast : Bool :=
  decide (mnb.sigTime ≤ context.adjustedTime + 60 * 60) &&
    !mnb.lastPing.isNull && (list.pingCheckAndUpdate context mnb.lastPing false true).2 &&
    (mnb.payee getID).length == 25 && (getScriptForDestination (getID mnb.pubKeyMasternode)).length == 25 &&
    mnb.vin.scriptSig.isEmpty && context.checkSignature mnb && context.isDefaultPort mnb.addr

def checkAndUpdate : MasternodeList × Bool :=
  if !list.checkBroadcast getID context mnb then (list, false)
  else match list.findTxIn mnb.vin with
    | none => (list, true)
    | some pmn => match list.heap.lookup pmn with
      | none => (list, true)
      | some mn =>
        if mnb.sigTime ≤ mn.sigTime then (list, false)
        else if !mn.isEnabled then (list, true)
        else if mn.pubKeyCollateralAddress == mnb.pubKeyCollateralAddress &&
            !mn.isBroadcastedWithin context.toMnClock MASTERNODE_MIN_MNB_SECONDS then
          ((list.updateFromNewBroadcast context pmn mnb).modify pmn (·.check context.toMnClock), true)
        else (list, true)

/-- The list when `CheckInputsAndAdd` comes to the inputs, without a known masternode that is not enabled. -/
def makeRoom : Option MasternodeList :=
  if context.isActiveMasternode mnb then none
  else if mnb.lastPing.isNull || !(list.pingCheckAndUpdate context mnb.lastPing false true).2 then none
  else match list.findTxIn mnb.vin with
    | none => some list
    | some pmn => match list.heap.lookup pmn with
      | none => none
      | some mn => if mn.isEnabled then none else some (list.remove getID mn.vin)

def checkInputsAndAdd : MasternodeList :=
  match list.makeRoom getID context mnb with
  | none => list
  | some list => if context.acceptsInputs mnb then list.add getID mnb else list

/-- The loop of `SerializationOp`, which ends at the first collateral script that is known. -/
def load : List CMasternode → MasternodeList → MasternodeList
  | [], list => list
  | mn :: mns, list => match list.findScript (mn.payee getID) with
    | some mnScript => list.dropPointer mnScript
    | none => load mns (list.push getID mn)

end MasternodeList

end Peony
