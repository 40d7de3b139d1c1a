import Peony.Masternode.Collaterals

namespace Peony
open Function Consensus List CollateralMaps Option

def collateralFrom (params : Params) (nHeight : Nat) (txid : UInt256) (n : Nat) (vout : List CTxOut) (outpoint : COutPoint) :
    Option Coin :=
  if outpoint.hash = txid ∧ n ≤ outpoint.n then
    (vout[outpoint.n - n]?).bind fun out =>
      if isCollateralAmount params nHeight out.nValue then some (collateralCoin nHeight outpoint.n out) else none
  else none

def collateralOf (host : Host) (params : Params) (nHeight : Nat) (tx : CTransaction) (outpoint : COutPoint) : Option Coin :=
  collateralFrom params nHeight (host.getHash tx) 0 tx.vout outpoint

variable {params : Params}
section
variable {host : Host} {nHeight : Nat} {tx : CTransaction} {outpoint : COutPoint}
lemma collateralOf_eq_some {coin} (made : collateralOf host params nHeight tx outpoint = some coin) :
    outpoint.hash = host.getHash tx ∧ ∃ out, tx.vout[outpoint.n]? = some out ∧
      isCollateralAmount params nHeight out.nValue = true ∧ coin = collateralCoin nHeight outpoint.n out := by
  grind [collateralOf, collateralFrom]

lemma collateralOf_of_output {out} (own : outpoint.hash = host.getHash tx) (found : tx.vout[outpoint.n]? = some out)
    (amt : isCollateralAmount params nHeight out.nValue = true) :
    collateralOf host params nHeight tx outpoint = some (collateralCoin nHeight outpoint.n out) := by
  simp [collateralOf, collateralFrom, own, found, amt]
end

lemma collateralFrom_cons (params nHeight txid n out vout outpoint) :
    collateralFrom params nHeight txid n (out :: vout) outpoint =
      if outpoint = ⟨txid, n⟩ then
        if isCollateralAmount params nHeight out.nValue then some (collateralCoin nHeight n out) else none
      else collateralFrom params nHeight txid (n + 1) vout outpoint := by
  obtain ⟨hash, i⟩ := outpoint
  simp only [collateralFrom, COutPoint.mk.injEq]
  by_cases own : hash = txid
  · cases own
    simp only [true_and]
    rcases Nat.lt_trichotomy i n with below | rfl | above
    · grind
    · simp
    · obtain ⟨k, rfl⟩ := Nat.exists_eq_add_of_lt above
      have index : n + k + 1 - n = k + 1 := by omega
      have index' : n + k + 1 - (n + 1) = k := by omega
      rw [if_pos (by omega), if_neg (by omega), if_pos (by omega), index, index', getElem?_cons_succ]
  · simp [own]

lemma collateralFrom_skip {nHeight txid n out vout}
    (other : ¬ isCollateralAmount params nHeight out.nValue = true) :
    collateralFrom params nHeight txid n (out :: vout) = collateralFrom params nHeight txid (n + 1) vout := by
  funext outpoint
  rw [collateralFrom_cons]
  by_cases own : outpoint = ⟨txid, n⟩
  · cases own
    simp [collateralFrom, other]
  · simp [own]

namespace CollateralMaps

def coins (maps : CollateralMaps) : FlatMap := fun outpoint => maps.mapCOutPointCollaterals.lookup outpoint

def removedAt (maps : CollateralMaps) (nHeight : Int) : FlatMap :=
  fun outpoint => ((maps.mapRemovedCollaterals.lookup nHeight).getD ∅).lookup outpoint

lemma removedAt_congr {maps next : CollateralMaps} {k}
    (same : next.mapRemovedCollaterals.lookup k = maps.mapRemovedCollaterals.lookup k) : next.removedAt k = maps.removedAt k := by
  unfold removedAt
  rw [same]

lemma removedAt_eq_none {maps : CollateralMaps} {k} (absent : maps.mapRemovedCollaterals.lookup k = none) :
    maps.removedAt k = fun _ => none := by
  unfold removedAt
  rw [absent]
  rfl

structure Frame (nHeight : Int) (maps next : CollateralMaps) : Prop where
  initiatedAt : next.initiatedAt = maps.initiatedAt
  lastProcess : next.lastProcess = maps.lastProcess
  paidBlocks : next.mapPaidPayeesBlocks = maps.mapPaidPayeesBlocks
  paidHeight : next.mapPaidPayeesHeight = maps.mapPaidPayeesHeight
  otherRemoved : ∀ k, k ≠ nHeight → next.mapRemovedCollaterals.lookup k = maps.mapRemovedCollaterals.lookup k

variable {nHeight : Int} {maps middle next : CollateralMaps}
lemma Frame.refl (maps) : Frame nHeight maps maps := ⟨rfl, rfl, rfl, rfl, fun _ _ => rfl⟩

lemma Frame.trans (first : Frame nHeight maps middle) (snd : Frame nHeight middle next) : Frame nHeight maps next where
  initiatedAt := snd.initiatedAt.trans first.initiatedAt
  lastProcess := snd.lastProcess.trans first.lastProcess
  paidBlocks := snd.paidBlocks.trans first.paidBlocks
  paidHeight := snd.paidHeight.trans first.paidHeight
  otherRemoved := fun k other => (snd.otherRemoved k other).trans (first.otherRemoved k other)

structure Effect (nHeight : Int) (maps next : CollateralMaps) (coins removed : FlatMap) : Prop extends
    Frame nHeight maps next where
  coins : next.coins = coins
  removedAt : next.removedAt nHeight = removed

lemma Effect.refl (maps) : Effect nHeight maps maps maps.coins (maps.removedAt nHeight) :=
  ⟨.refl _, rfl, rfl⟩

lemma Effect.trans {coins coins' gone removed'} (first : Effect nHeight maps middle coins gone)
    (snd : Effect nHeight middle next coins' removed') : Effect nHeight maps next coins' removed' :=
  ⟨first.toFrame.trans snd.toFrame, snd.coins, snd.removedAt⟩

variable (maps : CollateralMaps) (nHeight : Int) (outpoint : COutPoint)
lemma insertCollateral_effect (coin) :
    Effect nHeight maps (maps.insertCollateral outpoint coin) (update maps.coins outpoint (some coin)) (maps.removedAt nHeight) :=
  ⟨⟨rfl, rfl, rfl, rfl, fun _ _ => rfl⟩, AssocMap.lookup_insert_eq_update .., rfl⟩

lemma eraseCollateral_effect (out) :
    Effect nHeight maps (maps.eraseCollateral outpoint out) (update maps.coins outpoint none) (maps.removedAt nHeight) :=
  ⟨⟨rfl, rfl, rfl, rfl, fun _ _ => rfl⟩, AssocMap.lookup_erase_eq_update .., rfl⟩

lemma recordRemoved_effect (coin) : Effect nHeight maps (maps.recordRemoved nHeight outpoint coin) maps.coins
      (update (maps.removedAt nHeight) outpoint (some coin)) := by
  refine ⟨⟨rfl, rfl, rfl, rfl, fun k other => AList.lookup_insert_ne other⟩, rfl, ?_⟩
  funext key
  unfold removedAt recordRemoved
  rw [AList.lookup_insert, getD_some, AssocMap.lookup_insert_ite, update_apply]

def undoFor (coins removed : FlatMap) (outpoints : List COutPoint) : FlatMap :=
  fun outpoint => (if outpoint ∈ outpoints then coins outpoint else none).or (removed outpoint)

lemma undoFor_singleton (coins removed outpoint) :
    undoFor coins removed [outpoint] = update removed outpoint ((coins outpoint).or (removed outpoint)) := by
  funext key
  unfold undoFor
  by_cases own : key = outpoint
  · simp [own]
  · simp [own]

lemma spendCollateral_effect (nHeight : Nat) (txin) :
    Effect nHeight maps (maps.spendCollateral nHeight txin) (update maps.coins txin.prevout none)
      (undoFor maps.coins (maps.removedAt nHeight) [txin.prevout]) := by
  unfold spendCollateral
  cases found : maps.mapCOutPointCollaterals.lookup _ with
  | none =>
    refine ⟨.refl _, ?_, ?_⟩
    · rw [update_eq_self_iff.mpr]
      exact found.symm
    · rw [undoFor_singleton, coins, found, none_or, update_eq_self]
  | some coin =>
    have recorded := recordRemoved_effect maps nHeight txin.prevout coin
    have erased := eraseCollateral_effect (maps.recordRemoved nHeight txin.prevout coin) nHeight txin.prevout coin.out
    refine ⟨recorded.toFrame.trans erased.toFrame, ?_, ?_⟩
    · rw [erased.coins, recorded.coins]
    · rw [erased.removedAt, recorded.removedAt, undoFor_singleton, coins, found, some_or]

lemma spendCollaterals_effect (nHeight : Nat) (vin : List CTxIn) (maps) :
    Effect nHeight maps (vin.foldl (spendCollateral nHeight) maps) (maps.coins.spendAll (vin.map (·.prevout)))
      (undoFor maps.coins (maps.removedAt nHeight) (vin.map (·.prevout))) := by
  induction vin generalizing maps with
  | nil => simpa using .refl _
  | cons txin vin ih =>
    have first := spendCollateral_effect maps nHeight txin
    have rest := ih (maps.spendCollateral nHeight txin)
    rw [first.coins, first.removedAt] at rest
    rw [foldl_cons, map_cons, FlatMap.spendAll_cons]
    refine ⟨first.toFrame.trans rest.toFrame, rest.coins, ?_⟩
    rw [rest.removedAt]
    funext key
    unfold undoFor
    by_cases own : key = txin.prevout
    · cases own
      simp
    · simp [own]

variable (host : Host) (params : Params) (nHeight : Nat)
lemma createCollaterals_effect (txid vout n maps) :
    Effect nHeight maps (createCollaterals params nHeight txid n vout maps)
      (fun outpoint => (collateralFrom params nHeight txid n vout outpoint).or (maps.coins outpoint))
      (maps.removedAt nHeight) := by
  induction vout generalizing n maps with
  | nil =>
    refine ⟨.refl _, ?_, rfl⟩
    simp [createCollaterals, collateralFrom]
  | cons out vout ih =>
    unfold createCollaterals
    by_cases amt : isCollateralAmount params nHeight out.nValue = true
    · rw [if_pos amt]
      have added := insertCollateral_effect maps nHeight ⟨txid, n⟩ (collateralCoin nHeight n out)
      have rest := ih (n + 1) (maps.insertCollateral ⟨txid, n⟩ (collateralCoin nHeight n out))
      refine ⟨added.toFrame.trans rest.toFrame, ?_, rest.removedAt⟩
      rw [rest.coins, added.coins]
      funext outpoint
      rw [collateralFrom_cons]
      by_cases own : outpoint = ⟨txid, n⟩
      · cases own
        simp [collateralFrom, amt]
      · simp [own]
    · rw [if_neg amt, collateralFrom_skip amt]
      exact ih _ _

def applyCollateralTx (before : FlatMap × FlatMap) (tx : CTransaction) : FlatMap × FlatMap :=
  (fun outpoint => (collateralOf host params nHeight tx outpoint).or (before.1.spendAll (tx.vin.map (·.prevout)) outpoint),
    undoFor before.1 before.2 (tx.vin.map (·.prevout)))

lemma connectTx_effect (maps : CollateralMaps) (tx : CTransaction) : Effect nHeight maps (maps.connectTx host params nHeight tx)
      (applyCollateralTx host params nHeight (maps.coins, maps.removedAt nHeight) tx).1
      (applyCollateralTx host params nHeight (maps.coins, maps.removedAt nHeight) tx).2 := by
  have spent := spendCollaterals_effect nHeight tx.vin maps
  have made := createCollaterals_effect params nHeight (host.getHash tx) tx.vout 0 (tx.vin.foldl (spendCollateral nHeight) maps)
  rw [spent.coins, spent.removedAt] at made
  exact spent.trans made

lemma connectTxs_effect (vtx : List CTransaction) (maps) :
    Effect nHeight maps (vtx.foldl (connectTx host params nHeight) maps)
      (vtx.foldl (applyCollateralTx host params nHeight) (maps.coins, maps.removedAt nHeight)).1
      (vtx.foldl (applyCollateralTx host params nHeight) (maps.coins, maps.removedAt nHeight)).2 := by
  induction vtx generalizing maps with
  | nil => exact .refl _
  | cons tx vtx ih =>
    have first := connectTx_effect host params nHeight maps tx
    have rest := ih (maps.connectTx host params nHeight tx)
    rw [first.coins, first.removedAt] at rest
    exact first.trans rest

variable (host : Host) (params : Params) (nHeight : Nat)
def createsCollateral (vtx : List CTransaction) (outpoint : COutPoint) : Bool :=
  vtx.any fun tx => (collateralOf host params nHeight tx outpoint).isSome

lemma createsCollateral_cons (tx vtx outpoint) :
    createsCollateral host params nHeight (tx :: vtx) outpoint =
      ((collateralOf host params nHeight tx outpoint).isSome || createsCollateral host params nHeight vtx outpoint) :=
  any_cons

variable {host params nHeight} in
lemma createsCollateral_eq_true {vtx outpoint}
    (made : createsCollateral host params nHeight vtx outpoint = true) :
    ∃ tx ∈ vtx, outpoint.hash = host.getHash tx ∧ ∃ out, tx.vout[outpoint.n]? = some out ∧
      isCollateralAmount params nHeight out.nValue = true := by
  obtain ⟨tx, mem, some⟩ := any_eq_true.mp made
  obtain ⟨coin, made⟩ := isSome_iff_exists.mp some
  obtain ⟨own, out, found, amt, -⟩ := collateralOf_eq_some made
  exact ⟨tx, mem, own, out, found, amt⟩

lemma uncreateCollaterals_effect (txid vout n maps) :
    Effect nHeight maps (uncreateCollaterals params nHeight txid n vout maps)
      (fun outpoint => if (collateralFrom params nHeight txid n vout outpoint).isSome then none else maps.coins outpoint)
      (maps.removedAt nHeight) := by
  induction vout generalizing n maps with
  | nil =>
    refine ⟨.refl _, ?_, rfl⟩
    simp [uncreateCollaterals, collateralFrom]
  | cons out vout ih =>
    unfold uncreateCollaterals
    by_cases amt : isCollateralAmount params nHeight out.nValue = true
    · rw [if_pos amt]
      have erased := eraseCollateral_effect maps nHeight ⟨txid, n⟩ out
      have rest := ih (n + 1) (maps.eraseCollateral ⟨txid, n⟩ out)
      refine ⟨erased.toFrame.trans rest.toFrame, ?_, rest.removedAt⟩
      rw [rest.coins, erased.coins]
      funext outpoint
      rw [collateralFrom_cons]
      by_cases own : outpoint = ⟨txid, n⟩
      · cases own
        simp [amt]
      · simp [own]
    · rw [if_neg amt, collateralFrom_skip amt]
      exact ih _ _

lemma uncreateTxs_effect (vtx maps) : Effect nHeight maps
      (vtx.foldl (fun maps tx => uncreateCollaterals params nHeight (host.getHash tx) 0 tx.vout maps) maps)
      (fun outpoint => if createsCollateral host params nHeight vtx outpoint then none else maps.coins outpoint)
      (maps.removedAt nHeight) := by
  induction vtx generalizing maps with
  | nil => exact ⟨.refl _, rfl, rfl⟩
  | cons tx vtx ih =>
    have first := uncreateCollaterals_effect params nHeight (host.getHash tx) tx.vout 0 maps
    have rest := ih (uncreateCollaterals params nHeight (host.getHash tx) 0 tx.vout maps)
    refine ⟨first.toFrame.trans rest.toFrame, ?_, rest.removedAt.trans first.removedAt⟩
    rw [foldl_cons, rest.coins, first.coins]
    funext outpoint
    rw [createsCollateral_cons]
    change (if createsCollateral _ _ _ _ _ then none
      else if (collateralOf _ _ _ tx _).isSome then none else maps.coins _) = _
    cases (collateralOf _ _ _ tx _).isSome <;>
      cases createsCollateral _ _ _ _ _ <;> rfl

lemma insertEntries_effect (keep) (entries : List (Sigma fun _ => Coin)) (nodup : entries.NodupKeys)
    (maps) :
    Effect nHeight maps
      (entries.foldl (fun maps entry => if keep entry.2 then maps.insertCollateral entry.1 entry.2 else maps) maps)
      (fun outpoint => ((entries.dlookup outpoint).filter keep).or (maps.coins outpoint)) (maps.removedAt nHeight) := by
  induction entries generalizing maps with
  | nil => exact ⟨.refl _, rfl, rfl⟩
  | cons entry entries ih =>
    obtain ⟨key, coin⟩ := entry
    obtain ⟨fresh, nodup⟩ := nodupKeys_cons.mp nodup
    have absent : entries.dlookup key = none := dlookup_eq_none.mpr fresh
    rw [foldl_cons]
    cases kept : keep _ with
    | true =>
      simp only [if_true]
      have added := insertCollateral_effect maps nHeight key coin
      have rest := ih nodup (maps.insertCollateral key coin)
      refine ⟨added.toFrame.trans rest.toFrame, ?_, rest.removedAt⟩
      rw [rest.coins, added.coins]
      funext outpoint
      by_cases own : outpoint = key
      · cases own
        simp [absent, Option.filter, kept]
      · simp [own, dlookup_cons_ne]
    | false =>
      simp only [Bool.false_eq_true, if_false]
      have rest := ih nodup maps
      refine ⟨rest.toFrame, ?_, rest.removedAt⟩
      rw [rest.coins]
      funext outpoint
      by_cases own : outpoint = key
      · cases own
        simp [absent, Option.filter, kept]
      · simp [own, dlookup_cons_ne]

lemma restoreRemoved_effect (maps) : Effect nHeight maps (maps.restoreRemoved nHeight)
      (fun outpoint => (maps.removedAt nHeight outpoint).or (maps.coins outpoint)) (fun _ => none) ∧
    (maps.restoreRemoved nHeight).mapRemovedCollaterals.lookup (nHeight : Int) = none := by
  unfold restoreRemoved
  cases found : maps.mapRemovedCollaterals.lookup _ with
  | none =>
    have nothing : maps.removedAt nHeight = fun _ => none := by
      funext outpoint
      simp [removedAt, found]
    rw [nothing]
    exact ⟨⟨.refl _, rfl, nothing⟩, found⟩
  | some removed =>
    have entered := insertEntries_effect nHeight (fun _ => true) _ removed.nodupKeys maps
    have every : ∀ found : Option Coin, found.filter (fun _ => true) = found := by
      rintro (_ | coin) <;> rfl
    simp only [if_true, every] at entered
    dsimp only
    generalize removed.entries.foldl _ _ = back at entered ⊢
    have gone : (back.mapRemovedCollaterals.erase (nHeight : Int)).lookup (nHeight : Int) = none := AList.lookup_erase _ _
    refine ⟨⟨⟨entered.initiatedAt, entered.lastProcess, entered.paidBlocks, entered.paidHeight, fun k other => ?_⟩, ?_, ?_⟩, gone⟩
    · exact (AList.lookup_erase_ne other).trans (entered.otherRemoved k other)
    · refine entered.coins.trans ?_
      simp only [removedAt, found, getD_some]
      rfl
    · funext outpoint
      simp [removedAt]
variable (host : Host) (params : Params) (nHeight : Nat)
def spentBy (vtx : List CTransaction) : List COutPoint := vtx.flatMap fun tx => tx.vin.map (·.prevout)

def connectCollaterals (coins : FlatMap) (vtx : List CTransaction) : FlatMap × FlatMap :=
  vtx.foldl (applyCollateralTx host params nHeight) (coins, fun _ => none)

variable {host params nHeight}
section
variable (vtx : List CTransaction)
include vtx

/-- What was removed before does not matter for the coins. -/
lemma applied_fst (coins removed removed') : (vtx.foldl (applyCollateralTx host params nHeight) (coins, removed)).1 =
    (vtx.foldl (applyCollateralTx host params nHeight) (coins, removed')).1 := by
  induction vtx generalizing coins removed removed' with
  | nil => rfl
  | cons tx vtx ih => exact ih ..

variable {outpoint : COutPoint} (before : FlatMap × FlatMap)
lemma applied_of_unspent (kept : outpoint ∉ spentBy vtx) :
    (vtx.foldl (applyCollateralTx host params nHeight) before).2 outpoint = before.2 outpoint := by
  induction vtx generalizing before with
  | nil => rfl
  | cons tx vtx ih =>
    unfold spentBy at kept
    rw [flatMap_cons, mem_append, not_or] at kept
    rw [foldl_cons, ih _ kept.2]
    simp [applyCollateralTx, undoFor, kept.1]

lemma applied_of_uncreated (other : createsCollateral host params nHeight vtx outpoint = false) :
    (vtx.foldl (applyCollateralTx host params nHeight) before).1 outpoint = before.1.spendAll (spentBy vtx) outpoint ∧
      (vtx.foldl (applyCollateralTx host params nHeight) before).2 outpoint =
        undoFor before.1 before.2 (spentBy vtx) outpoint := by
  induction vtx generalizing before with
  | nil => exact ⟨rfl, rfl⟩
  | cons tx vtx ih =>
    simp only [createsCollateral, any_cons, Bool.or_eq_false_iff] at other
    have none : collateralOf host params nHeight tx outpoint = none := by simpa using other.1
    obtain ⟨coins, gone⟩ := ih _ other.2
    rw [foldl_cons, coins, gone]
    simp only [applyCollateralTx, FlatMap.spendAll, undoFor, none, none_or, spentBy, flatMap_cons, mem_append]
    by_cases here : outpoint ∈ tx.vin.map (·.prevout)
    · by_cases later : outpoint ∈ vtx.flatMap fun tx => tx.vin.map (·.prevout)
      · simp [here, later]
      · simp [here, later]
    · by_cases later : outpoint ∈ vtx.flatMap fun tx => tx.vin.map (·.prevout)
      · simp [here, later]
      · simp [here, later]

lemma undo_restores {coins}
    (fresh : ∀ outpoint, createsCollateral host params nHeight vtx outpoint = true → coins outpoint = none)
    (separate : ∀ outpoint, createsCollateral host params nHeight vtx outpoint = true → outpoint ∉ spentBy vtx) :
    (fun outpoint => ((connectCollaterals host params nHeight coins vtx).2 outpoint).or
      (if createsCollateral host params nHeight vtx outpoint then none
        else (connectCollaterals host params nHeight coins vtx).1 outpoint)) = coins := by
  funext outpoint
  unfold connectCollaterals
  cases made : createsCollateral _ _ _ _ _ with
  | true =>
    rw [applied_of_unspent _ _ (separate _ made), fresh _ made]
    rfl
  | false =>
    obtain ⟨kept, gone⟩ := applied_of_uncreated _ (coins, fun _ => none) made
    rw [kept, gone]
    simp only [undoFor, FlatMap.spendAll, Bool.false_eq_true, if_false]
    by_cases spent : outpoint ∈ spentBy vtx
    · simp [spent]
    · simp [spent]

lemma applied_of_created (made : createsCollateral host params nHeight vtx outpoint = true) (kept : outpoint ∉ spentBy vtx) :
    ∃ coin, (vtx.foldl (applyCollateralTx host params nHeight) before).1 outpoint = some coin := by
  induction vtx generalizing before with
  | nil => cases made
  | cons tx vtx ih =>
    have later : outpoint ∉ spentBy vtx := by
      unfold spentBy at kept
      rw [flatMap_cons, mem_append, not_or] at kept
      exact kept.2
    rw [foldl_cons]
    cases again : createsCollateral _ _ _ _ _ with
    | true => exact ih _ again later
    | false =>
      rw [createsCollateral_cons, again, Bool.or_false] at made
      obtain ⟨coin, found⟩ := isSome_iff_exists.mp made
      refine ⟨coin, ?_⟩
      rw [(applied_of_uncreated _ _ again).1, FlatMap.spendAll, if_neg later]
      simp [applyCollateralTx, found]
end

lemma undo_of_unspent (coins vtx)
    (separate : ∀ outpoint, createsCollateral host params nHeight vtx outpoint = true → outpoint ∉ spentBy vtx)
    (idle : ∀ outpoint ∈ spentBy vtx, coins outpoint = none) :
    (connectCollaterals host params nHeight coins vtx).2 = fun _ => none := by
  funext outpoint
  unfold connectCollaterals
  by_cases spent : outpoint ∈ spentBy vtx
  · cases made : createsCollateral _ _ _ _ _ with
    | true => exact absurd spent (separate _ made)
    | false =>
      rw [(applied_of_uncreated _ _ made).2, undoFor, if_pos spent]
      simp [idle _ spent]
  · rw [applied_of_unspent _ _ spent]

end CollateralMaps

end Peony
