import Peony.Library.AssocMap
import Peony.Primitives.Transaction

namespace Peony

structure Coin where
  (fCoinBase fCoinStake : Bool)
  out : CTxOut
  nHeight : Nat
  deriving DecidableEq, Repr

def coinEmpty : Coin := ⟨false, false, CTxOut.null, 0⟩
def Coin.isSpent (coin : Coin) : Bool := coin.out.isNull
def Coin.unspent (coin : Coin) : Option Coin := if coin.isSpent then none else some coin

structure CCoinsCacheEntry where
  coin : Coin
  (dirty fresh : Bool)
  deriving DecidableEq, Repr

abbrev CCoinsMap := AssocMap COutPoint CCoinsCacheEntry
abbrev CoinMap := AssocMap COutPoint Coin

/-- The best block record, absent or null before the first flush, and the coins. -/
structure CCoinsViewDB where
  hashBestChain : UInt256
  coins : CoinMap
  deriving DecidableEq

structure CCoinsViewCache where
  hashBlock : UInt256
  cacheCoins : CCoinsMap
  deriving DecidableEq

inductive CCoinsView where
  | db (database : CCoinsViewDB)
  | cache (layer : CCoinsViewCache) (base : CCoinsView)
  deriving DecidableEq

namespace CCoinsView

def newCache (base : CCoinsView) : CCoinsView := .cache ⟨0, ∅⟩ base
def fetchedEntry (coin : Coin) : CCoinsCacheEntry := ⟨coin, false, coin.isSpent⟩

def getCoin : CCoinsView → COutPoint → Option Coin × CCoinsView
  | .db database, outpoint => (database.coins.lookup outpoint, .db database)
  | .cache layer base, outpoint =>
    match layer.cacheCoins.lookup outpoint with
    | some entry => (some entry.coin, .cache layer base)
    | none =>
      match base.getCoin outpoint with
      | (none, filled) => (none, .cache layer filled)
      | (some coin, filled) =>
        (some coin,
          .cache { layer with cacheCoins := layer.cacheCoins.insert outpoint (fetchedEntry coin) } filled)

variable (view : CCoinsView)
def accessCoin (outpoint : COutPoint) : Coin × CCoinsView :=
  ((view.getCoin outpoint).1.getD coinEmpty, (view.getCoin outpoint).2)

def haveCoin : CCoinsView → COutPoint → Bool × CCoinsView
  | .db database, outpoint => ((database.coins.lookup outpoint).isSome, .db database)
  | .cache layer base, outpoint =>
    let fetched := (CCoinsView.cache layer base).getCoin outpoint
    (fetched.1.any fun coin => !coin.isSpent, fetched.2)

def addedEntry (previous : Option CCoinsCacheEntry) (coin : Coin) (possibleOverwrite : Bool) : CCoinsCacheEntry :=
  let held := previous.getD ⟨coinEmpty, false, false⟩
  ⟨coin, true, held.fresh || (!possibleOverwrite && !held.dirty)⟩

def addCoin (outpoint : COutPoint) (coin : Coin) (possibleOverwrite : Bool) : Except Failure CCoinsView :=
  if coin.isSpent then .error (.assertion "!coin.IsSpent()")
  else if isUnspendable coin.out.scriptPubKey then .ok view
  else match view with
    | .db _ => .error (.assertion "AddCoin is a method of CCoinsViewCache")
    | .cache layer base =>
      let previous := layer.cacheCoins.lookup outpoint
      if !possibleOverwrite && previous.any (fun entry => !entry.coin.isSpent) then
        .error (.logicError "Adding new coin that replaces non-pruned entry")
      else
        .ok (.cache { layer with
          cacheCoins := layer.cacheCoins.insert outpoint (addedEntry previous coin possibleOverwrite) } base)

def prunedEntry (entry : CCoinsCacheEntry) : CCoinsCacheEntry := { entry with coin := coinEmpty, dirty := true }

def spendCoin (outpoint : COutPoint) : Coin × CCoinsView :=
  match view.getCoin outpoint with
  | (none, filled) => (coinEmpty, filled)
  | (some coin, .db database) => (coin, .db database)
  | (some coin, .cache layer base) =>
    match layer.cacheCoins.lookup outpoint with
    | none => (coin, .cache layer base)
    | some entry =>
      if entry.fresh then
        (coin, .cache { layer with cacheCoins := layer.cacheCoins.erase outpoint } base)
      else
        (coin, .cache { layer with cacheCoins := layer.cacheCoins.insert outpoint (prunedEntry entry) } base)

def getBestBlock : CCoinsView → UInt256 × CCoinsView
  | .db database => (database.hashBestChain, .db database)
  | .cache layer base =>
    if layer.hashBlock = 0 then
      let below := base.getBestBlock
      (below.1, .cache { layer with hashBlock := below.1 } below.2)
    else (layer.hashBlock, .cache layer base)

def setBestBlock (hashBlockIn : UInt256) : CCoinsView :=
  match view with
  | .db database => .db database
  | .cache layer base => .cache { layer with hashBlock := hashBlockIn } base

def mergeEntry (child : CCoinsCacheEntry) (ours : Option CCoinsCacheEntry) : Except Failure (Option CCoinsCacheEntry) :=
  match ours with
  | none =>
    if child.fresh && child.coin.isSpent then .ok none
    else .ok (some ⟨child.coin, true, child.fresh⟩)
  | some entry =>
    if child.fresh && !entry.coin.isSpent then
      .error (.logicError "FRESH flag misapplied to cache entry for base transaction with spendable outputs")
    else if entry.fresh && child.coin.isSpent then .ok none
    else .ok (some { entry with coin := child.coin, dirty := true })

def setEntry (cacheCoins : CCoinsMap) (outpoint : COutPoint) : Option CCoinsCacheEntry → CCoinsMap
  | none => cacheCoins.erase outpoint
  | some entry => cacheCoins.insert outpoint entry

def mergeEntries (cacheCoins : CCoinsMap) : List (Σ _ : COutPoint, CCoinsCacheEntry) → Except Failure CCoinsMap
  | [] => .ok cacheCoins
  | ⟨outpoint, child⟩ :: entries =>
    if child.dirty then
      match mergeEntry child (cacheCoins.lookup outpoint) with
      | .error failure => .error failure
      | .ok merged => mergeEntries (setEntry cacheCoins outpoint merged) entries
    else mergeEntries cacheCoins entries

def writeEntries (coins : CoinMap) : List (Σ _ : COutPoint, CCoinsCacheEntry) → CoinMap
  | [] => coins
  | ⟨outpoint, child⟩ :: entries =>
    if child.dirty then
      writeEntries (if child.coin.isSpent then coins.erase outpoint else coins.insert outpoint child.coin) entries
    else writeEntries coins entries

def batchWrite (mapCoins : CCoinsMap) (hashBlockIn : UInt256) : Except Failure CCoinsView :=
  match view with
  | .db database =>
    .ok (.db ⟨if hashBlockIn = 0 then database.hashBestChain else hashBlockIn,
      writeEntries database.coins mapCoins.entries⟩)
  | .cache layer base =>
    match mergeEntries layer.cacheCoins mapCoins.entries with
    | .error failure => .error failure
    | .ok cacheCoins => .ok (.cache ⟨hashBlockIn, cacheCoins⟩ base)

def flush : Except Failure CCoinsView :=
  match view with
  | .db _ => .error (.assertion "Flush is a method of CCoinsViewCache")
  | .cache layer base =>
    match base.batchWrite layer.cacheCoins layer.hashBlock with
    | .error failure => .error failure
    | .ok written => .ok (.cache { layer with cacheCoins := ∅ } written)

def uncache (outpoint : COutPoint) : CCoinsView :=
  match view with
  | .db database => .db database
  | .cache layer base =>
    match layer.cacheCoins.lookup outpoint with
    | none => .cache layer base
    | some entry =>
      if entry.dirty || entry.fresh then .cache layer base
      else .cache { layer with cacheCoins := layer.cacheCoins.erase outpoint } base

def cursor : CCoinsView → CoinMap
  | .db database => database.coins
  | .cache _ base => base.cursor

end CCoinsView

end Peony
