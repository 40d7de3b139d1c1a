import Mathlib.Algebra.Order.Monoid.Prod
import Peony.Library.Except
import Peony.Library.Reachability
import Peony.Primitives.Transaction

namespace Peony
open Reachability

structure HashedTx where
  tx : CTransaction
  hash : UInt256

namespace HashedTx

def outpoints (hashed : HashedTx) : List COutPoint := hashed.tx.vin.map CTxIn.prevout
def spentHashes (hashed : HashedTx) : List UInt256 := hashed.outpoints.map COutPoint.hash

end HashedTx

structure CTxMemPoolEntry extends HashedTx where
  (nFee nTxSize nTime : Int)
  fee_nonneg : 0 ≤ nFee
  size_pos : 0 < nTxSize

/-- `nCountWithDescendants`, `nSizeWithDescendants` and `nFeesWithDescendants` of an entry. -/
abbrev DescendantState := Int × Int × Int

def CTxMemPoolEntry.weight (entry : CTxMemPoolEntry) : DescendantState := (1, entry.nTxSize, entry.nFee)

namespace DescendantState

def isDirty (state : DescendantState) : Bool := state.1 == 0

def updateState (modify state : DescendantState) : Except Failure DescendantState :=
  if state.isDirty then .ok state
  else if (state + modify).2.1 ≤ 0 then .error (.assertion "int64_t(nSizeWithDescendants) > 0")
  else if (state + modify).2.2 < 0 then .error (.assertion "nFeesWithDescendants >= 0")
  else if (state + modify).1 ≤ 0 then .error (.assertion "int64_t(nCountWithDescendants) > 0")
  else .ok (state + modify)

def Positive (state : DescendantState) : Prop := 0 < state.1 ∧ 0 < state.2.1 ∧ 0 ≤ state.2.2

lemma updateState_ok {modify state} (fine : state.isDirty ∨ Positive (state + modify)) :
    updateState modify state = .ok (if state.isDirty then state else state + modify) := by
  unfold updateState
  rcases fine with dirty | ⟨count, size, fees⟩
  · simp [dirty]
  · simp only [not_le.2 count, not_le.2 size, not_lt.2 fees, if_false]
    split <;> rfl

end DescendantState

/-- `mapLinks` is `parents` and `children`; `withDescendants` holds the entries' own aggregates. -/
structure CTxMemPool where
  mapTx : List CTxMemPoolEntry
  mapNextTx : COutPoint → Option UInt256
  parents : UInt256 → List UInt256
  children : UInt256 → List UInt256
  withDescendants : UInt256 → DescendantState
  totalTxSize : Int

namespace CTxMemPool
variable (pool : CTxMemPool)
def empty : CTxMemPool := ⟨[], fun _ => none, fun _ => [], fun _ => [], fun _ => 0, 0⟩
def hashes : List UInt256 := pool.mapTx.map fun entry => entry.hash
def searchForParents (hashed : HashedTx) : List UInt256 := hashed.spentHashes.filter (· ∈ pool.hashes)

def calculateMemPoolAncestors (parentHashes : List UInt256) : List UInt256 :=
  closure BitVec.toNat pool.parents pool.mapTx.length parentHashes []

def calculateDescendants (setDescendants : List UInt256) (entryit : UInt256) : List UInt256 :=
  if entryit ∈ setDescendants then setDescendants
  else closure BitVec.toNat pool.children pool.mapTx.length [entryit] setDescendants

/-- A set holds an entry once, so the loop over `setAncestors` changes each of them once. -/
def updateAncestorsOf (add : Bool) (it : CTxMemPoolEntry) (setAncestors : List UInt256) : Except Failure CTxMemPool := do
  let update := DescendantState.updateState (if add then it.weight else -it.weight)
  setAncestors.forM fun h => (update (pool.withDescendants h)).map fun _ => ()
  return { pool with
    children := fun h =>
      if h ∈ pool.parents it.hash then
        if add then (pool.children h).insert it.hash else (pool.children h).filter (· ≠ it.hash)
      else pool.children h
    withDescendants := fun h =>
      if h ∈ setAncestors then (update (pool.withDescendants h)).toOption.getD 0 else pool.withDescendants h }

lemma updateAncestorsOf_ok {pool : CTxMemPool} {add it modify setAncestors}
    (change : modify = if add then it.weight else -it.weight)
    (fine : ∀ h ∈ setAncestors, (pool.withDescendants h).isDirty ∨ (pool.withDescendants h + modify).Positive) :
    pool.updateAncestorsOf add it setAncestors = .ok { pool with
      children := fun h =>
        if h ∈ pool.parents it.hash then
          if add then (pool.children h).insert it.hash else (pool.children h).filter (· ≠ it.hash)
        else pool.children h
      withDescendants := fun h =>
        if h ∈ setAncestors ∧ (pool.withDescendants h).isDirty = false then pool.withDescendants h + modify
        else pool.withDescendants h } := by
  subst change
  unfold updateAncestorsOf
  have passes : (setAncestors.forM fun h => (DescendantState.updateState (if add then it.weight else -it.weight)
      (pool.withDescendants h)).map fun _ => ()) = .ok () := by
    refine (Except.forM_eq_ok _).2 fun h ins => ?_
    rw [DescendantState.updateState_ok (fine h ins)]
    rfl
  simp only [passes]
  show Except.ok _ = Except.ok _
  congr 2
  funext h
  by_cases ins : h ∈ setAncestors
  · rw [DescendantState.updateState_ok (fine h ins)]
    cases dirty : (pool.withDescendants h).isDirty <;> simp [ins, Except.toOption]
  · simp [ins]

def addUnchecked (entry : CTxMemPoolEntry) : Except Failure CTxMemPool := do
  let setAncestors := pool.calculateMemPoolAncestors (pool.searchForParents entry.toHashedTx)
  let inserted := { pool with
    mapTx := if entry.hash ∈ pool.hashes then pool.mapTx else entry :: pool.mapTx
    mapNextTx := fun o => if o ∈ entry.outpoints then some entry.hash else pool.mapNextTx o
    parents := fun h =>
      if h = entry.hash then pool.parents h ∪ entry.spentHashes.filter (· ∈ entry.hash :: pool.hashes) else pool.parents h
    withDescendants := fun h =>
      if h = entry.hash ∧ h ∉ pool.hashes then entry.weight else pool.withDescendants h }
  let updated ← inserted.updateAncestorsOf true entry setAncestors
  return { updated with totalTxSize := updated.totalTxSize + entry.nTxSize }

def removeStaged (stage : List UInt256) : Except Failure CTxMemPool := do
  let staged := pool.mapTx.filter fun entry => entry.hash ∈ stage
  let updated ← staged.foldlM (fun pool it => pool.updateAncestorsOf false it (pool.calculateMemPoolAncestors (pool.parents it.hash))) pool
  return { updated with
    mapTx := updated.mapTx.filter fun entry => entry.hash ∉ stage
    mapNextTx := fun o => if staged.any fun entry => o ∈ entry.outpoints then none else updated.mapNextTx o
    -- `UpdateChildrenForRemoval` follows the child links that are left
    parents := fun h => if h ∈ stage then [] else (updated.parents h).filter fun p => ¬ (p ∈ stage ∧ h ∈ updated.children p)
    children := fun h => if h ∈ stage then [] else updated.children h
    totalTxSize := updated.totalTxSize - (staged.map fun entry => entry.nTxSize).sum }

def remove (origTx : HashedTx) (fRecursive : Bool) : Except Failure CTxMemPool := do
  let txToRemove :=
    if origTx.hash ∈ pool.hashes then [origTx.hash]
    else if fRecursive then (List.range origTx.tx.vout.length).filterMap fun i => pool.mapNextTx ⟨origTx.hash, i⟩
    else []
  Except.require (txToRemove.all (· ∈ pool.hashes)) (.assertion "nextit != mapTx.end()")
  pool.removeStaged (if fRecursive then txToRemove.foldl pool.calculateDescendants [] else txToRemove)

def removeConflicts (tx : HashedTx) : Except Failure CTxMemPool :=
  tx.outpoints.foldlM (fun pool prevout =>
    match (pool.mapNextTx prevout).bind fun h => pool.mapTx.find? fun entry => entry.hash = h with
    | none => .ok pool
    | some txConflict => if txConflict.hash = tx.hash then .ok pool else pool.remove txConflict.toHashedTx true) pool

def removeBlockTx (tx : HashedTx) : Except Failure CTxMemPool := do (← pool.remove tx false).removeConflicts tx
def removeForBlock (vtx : List HashedTx) : Except Failure CTxMemPool := vtx.foldlM removeBlockTx pool

def expire (time : Int) : Except Failure CTxMemPool :=
  let toremove := (pool.mapTx.filter fun entry => entry.nTime < time).map fun entry => entry.hash
  pool.removeStaged (toremove.foldl pool.calculateDescendants [])

/-- `worst` is the entry with the lowest descendant score, as long as the pool is too large. -/
def trimToSize (worst : CTxMemPool → Option UInt256) : Nat → CTxMemPool → Except Failure CTxMemPool
  | 0, pool => .ok pool
  | turns + 1, pool =>
    match (worst pool).filter (· ∈ pool.hashes) with
    | none => .ok pool
    | some it => do trimToSize worst turns (← pool.removeStaged (pool.calculateDescendants [] it))

end CTxMemPool

end Peony
