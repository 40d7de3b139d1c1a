import Peony.Masternode.CollateralRun
import Peony.Masternode.Verifiable
import Peony.Validation.BranchCoins

namespace Peony
open Function Consensus List CollateralMaps MasternodeList CMasternode

namespace MasternodeList
variable {list : MasternodeList} {script : CScript} {vin : CTxIn}
section
variable (list : MasternodeList)
/-- The marks `ConnectBlock` sets. They change neither the vector nor a map. -/
def markSpent (scripts : List CScript) : MasternodeList := scripts.foldl markVinSpent list

def SpentOn (vin : CTxIn) : Prop :=
  ∃ pmn mn, list.entries pmn = some mn ∧ mn.activeState = .vinSpent ∧ mn.vin = vin

variable (script : CScript)
def FoundOn (vin : CTxIn) : Prop :=
  ∃ pmn mn, list.findScript script = some pmn ∧ list.entries pmn = some mn ∧ mn.vin = vin

lemma markVinSpent_entries (pmn : Nat) : (list.markVinSpent script).entries pmn =
      if list.findScript script = some pmn then (list.entries pmn).map ({ · with activeState := .vinSpent }) else list.entries pmn := by
  unfold markVinSpent
  cases found : list.findScript _ with
  | none => rfl
  | some own =>
    dsimp only
    unfold modify
    by_cases same : own = pmn
    · rw [same]
      unfold entries
      cases held : list.heap.lookup _ with
      | none => simp [held]
      | some mn => simp
    · rw [if_neg fun equal => same (Option.some.inj equal)]
      have apart : pmn ≠ own := fun equal => same equal.symm
      unfold entries
      cases held : list.heap.lookup _ with
      | none => rfl
      | some mn => simp [AList.lookup_insert_ne apart]
end

lemma markVinSpent_entries_found {pmn mn} (found : list.findScript script = some pmn)
    (held : list.entries pmn = some mn) : (list.markVinSpent script).entries pmn = some { mn with activeState := .vinSpent } := by
  rw [markVinSpent_entries, if_pos found, held, Option.map_some]

lemma markVinSpent_findScript (list : MasternodeList) (script) : (list.markVinSpent script).findScript = list.findScript := by
  have same : SameKeys (fun key => key) list (list.markVinSpent script) := SameKeys.markVinSpent _ _
  exact same.findScript

lemma foundOn_markVinSpent (other : CScript) : (list.markVinSpent script).FoundOn other vin ↔ list.FoundOn other vin := by
  unfold FoundOn
  rw [markVinSpent_findScript]
  constructor
  · rintro ⟨pmn, mn, found, held, own⟩
    rw [markVinSpent_entries] at held
    split at held
    · obtain ⟨old, old_held, rfl⟩ := Option.map_eq_some_iff.mp held
      exact ⟨_, _, found, old_held, own⟩
    · exact ⟨_, mn, found, held, own⟩
  · rintro ⟨pmn, mn, found, held, own⟩
    by_cases marked : list.findScript script = some pmn
    · exact ⟨_, _, found, markVinSpent_entries_found marked held, own⟩
    · exact ⟨_, mn, found, by rw [markVinSpent_entries, if_neg marked, held], own⟩

lemma spentOn_markVinSpent : (list.markVinSpent script).SpentOn vin ↔ list.SpentOn vin ∨ list.FoundOn script vin := by
  constructor
  · rintro ⟨pmn, mn, held, spent, own⟩
    rw [markVinSpent_entries] at held
    split at held
    · next found =>
      obtain ⟨old, old_held, rfl⟩ := Option.map_eq_some_iff.mp held
      exact .inr ⟨_, _, found, old_held, own⟩
    · exact .inl ⟨_, mn, held, spent, own⟩
  · rintro (⟨pmn, mn, held, spent, own⟩ | ⟨pmn, mn, found, held, own⟩)
    · by_cases marked : list.findScript script = some pmn
      · exact ⟨_, _, markVinSpent_entries_found marked held, rfl, own⟩
      · exact ⟨_, mn, by rw [markVinSpent_entries, if_neg marked, held], spent, own⟩
    · exact ⟨_, _, markVinSpent_entries_found found held, rfl, own⟩

lemma spentOn_markSpent (scripts : List CScript) (list : MasternodeList) :
    (list.markSpent scripts).SpentOn vin ↔ list.SpentOn vin ∨ ∃ script ∈ scripts, list.FoundOn script vin := by
  induction scripts generalizing list with
  | nil => simp [markSpent]
  | cons script scripts ih =>
    change ((list.markVinSpent _).markSpent _).SpentOn _ ↔ _
    rw [ih, spentOn_markVinSpent, or_assoc]
    simp [foundOn_markVinSpent]

end MasternodeList

def CMasternode.spentVin (mn : CMasternode) : Option CTxIn := if mn.activeState = .vinSpent then some mn.vin else none

lemma steadfast_spentVin : MasternodeList.Steadfast spentVin := by
  constructor
  · intro clock mn
    unfold CMasternode.check
    split_ifs with shutdown spent
    · rfl
    · rfl
    iterate 4 simp [spentVin, spent]
  · intro lastPing mn
    rfl

lemma spentVin_of_enabled {mn : CMasternode} (enabled : mn.isEnabled = true) : mn.spentVin = none := by grind [isEnabled, spentVin]

namespace MasternodeList
variable {Digest : Type} {texts : MessageTexts Digest} {verify : Digest → (keyID vchSig : List UInt8) → Bool} {list : MasternodeList}
  {allowed : CTxIn → Prop}

def SpentWithin (allowed : CTxIn → Prop) (list : MasternodeList) : Prop :=
  list.Every fun mn => ∀ vin, mn.spentVin = some vin → allowed vin

lemma spentWithin_iff : list.SpentWithin may ↔ ∀ vin, list.SpentOn vin → may vin := by
  constructor
  · rintro within vin ⟨pmn, mn, held, spent, rfl⟩
    exact within _ mn held _ (if_pos spent)
  · intro spentOn pmn mn held vin spent
    unfold spentVin at spent
    split at spent
    · next marked =>
      cases spent
      exact spentOn _ ⟨_, mn, held, marked, rfl⟩
    · cases spent

lemma SpentWithin.same {list'} (within : list.SpentWithin may) (same : SameBy spentVin list list') :
    list'.SpentWithin may := by
  apply (same.every_iff ?_).mpr within
  intro mn mn' equal
  rw [equal]

lemma SpentWithin.new {mn : CMasternode} (enabled : mn.isEnabled = true) : ∀ vin, mn.spentVin = some vin → allowed vin := by
  intro vin spent
  cases (spentVin_of_enabled enabled).symm.trans spent

lemma SpentWithin.apply (within : list.SpentWithin may) (event : MnEvent) : (event.apply texts verify list).SpentWithin may := by
  have takes : ∀ mnb mn : CMasternode, (mn.takeBroadcast mnb).spentVin = mn.spentVin := fun _ _ => rfl
  cases event with
  | checkAndUpdate ctx mnb => exact within.same (SameBy.checkAndUpdate steadfast_spentVin (takes _) _ _ _)
  | checkInputsAndAdd ctx mnb => exact Every.checkInputsAndAdd within _ SpentWithin.new
  | ping ctx mnp => exact within.same ((retouched_ping ..).sameBy steadfast_spentVin)
  | updateMasternodeList ctx mnb =>
    show (list.updateMasternodeList ..).SpentWithin _
    unfold updateMasternodeList
    split
    · exact Every.add within SpentWithin.new
    · exact within.same (SameBy.update steadfast_spentVin (takes _) _ _ _)
  | checkAndRemove clock forceExpiredRemoval =>
    exact Every.deleteRemovable _ _ (within.same ((retouched_check _ _).sameBy steadfast_spentVin))
  | saveAndLoad =>
    intro pmn mn held
    obtain ⟨old, kept, rfl⟩ := (saveAndLoad_entries _ _ mn).mp ⟨_, held⟩
    rcases readBack_subset _ _ kept with absent | file
    · cases absent
    · obtain ⟨pmn', old_held⟩ := mem_saved file
      exact within _ old old_held

end MasternodeList

structure ManagerState extends MnState where
  list : MasternodeList

inductive ManagerCall where
  | connectBlock (hook : MnHook) (pindex : CBlockIndex) (block : CBlock)
  | disconnectBlock (now : Int) (pindex : CBlockIndex)
  | onList (event : MnEvent)

variable {Digest : Type} (texts : MessageTexts Digest) (verify : Digest → (keyID vchSig : List UInt8) → Bool) (host : Host)
  (params : Params) (nBase : Nat) (base : FlatMap)

section
variable (state : ManagerState)
/-- `none` if `Init` fails, or no block above the base is left to disconnect. -/
def ManagerCall.apply : ManagerCall → Option ManagerState
  | .connectBlock hook pindex block => match state.maps.connectBlock host params hook pindex block with
    | .error _ => none
    | .ok maps => some ⟨⟨maps, block :: state.blocks⟩, state.list.markSpent maps.vinSpent⟩
  | .disconnectBlock now pindex => match state.blocks with
    | [] => none
    | block :: rest => some ⟨⟨state.maps.disconnectBlock host params now pindex block, rest⟩, state.list⟩
  | .onList event => some { state with list := event.apply texts verify state.list }

def IsCollateral (blocks : List CBlock) (outpoint : COutPoint) : Prop :=
  ∃ coin, chainCoins host nBase base blocks outpoint = some coin ∧
    isCollateralAmount params (nBase + blocks.length) coin.out.nValue = true

def ManagerState.MarksSpent : Prop :=
  ∀ vin, state.list.SpentOn vin → ¬ IsCollateral host params nBase base state.blocks vin.prevout

def CreatedBy (vtx : List CTransaction) (outpoint : COutPoint) : Prop := ∃ tx ∈ vtx, outpoint.hash = host.getHash tx

/-- A script that the block takes out of the index is found only with the masternode whose own output the block spends, and
no transaction has the id of a marked one. -/
def ManagerCall.Fits : ManagerCall → Prop
  | .connectBlock hook pindex block => (∀ vin, state.list.SpentOn vin → ¬ CreatedBy host block.vtx vin.prevout) ∧
      ∀ ready, state.maps.ready host params hook = .ok ready →
        ∀ script vin, SpendsScript host params pindex.nHeight ready.coins block.vtx script → state.list.FoundOn script vin →
          (∃ tx ∈ block.vtx, vin.prevout ∈ tx.prevouts) ∧ ¬ CreatedBy host block.vtx vin.prevout
  | .disconnectBlock _ _ => ∀ block rest, state.blocks = block :: rest →
      ∀ vin, state.list.SpentOn vin → ∀ tx ∈ block.vtx, vin.prevout ∉ tx.prevouts
  | .onList _ => True

/-- Every marked masternode has an output that the chain has spent. -/
def ManagerState.OnlySpent : Prop :=
  ∀ vin, state.list.SpentOn vin → chainCoins host nBase base state.blocks vin.prevout = none
end

def MarksSpentRun : ManagerState → List ManagerCall → Prop
  | state, [] => state.MarksSpent host params nBase base
  | state, call :: calls => state.MarksSpent host params nBase base ∧
      ∀ next, call.apply texts verify host params state = some next → MarksSpentRun next calls

def ManagerFitsRun : ManagerState → List ManagerCall → Prop
  | _, [] => True
  | state, call :: calls => call.Fits host params state ∧
      ∀ next, call.apply texts verify host params state = some next → ManagerFitsRun next calls

variable {texts verify host params nBase base} {state : ManagerState}
lemma applyTxs_lost {coins : FlatMap} {nHeight vtx outpoint} (unmade : ¬ CreatedBy host vtx outpoint)
    (lost : coins outpoint = none ∨ ∃ tx ∈ vtx, outpoint ∈ tx.prevouts) : coins.applyTxs host nHeight vtx outpoint = none := by
  induction vtx generalizing coins with
  | nil =>
    have absent : coins outpoint = none := by simpa using lost
    exact absent
  | cons tx vtx ih =>
    have first (lost : coins outpoint = none ∨ outpoint ∈ tx.prevouts) : coins.applyTx host nHeight tx outpoint = none := by
      refine Option.eq_none_iff_forall_ne_some.mpr fun coin shown => ?_
      rcases FlatMap.applyTx_eq_some shown with made | ⟨unspent, kept⟩
      · exact unmade ⟨tx, by simp, (createdCoin_eq_some made).1⟩
      · rcases lost with absent | spent
        · cases absent.symm.trans kept
        · exact unspent spent
    refine ih (fun ⟨other, mem, own⟩ => unmade ⟨other, by simp [mem], own⟩) ?_
    rcases lost with absent | ⟨other, mem, spent⟩
    · exact .inl (first (.inl absent))
    · rcases mem_cons.mp mem with rfl | later
      · exact .inl (first (.inr spent))
      · exact .inr ⟨other, later, spent⟩

lemma ManagerState.OnlySpent.marksSpent (only : state.OnlySpent host nBase base) : state.MarksSpent host params nBase base := by
  rintro vin spent ⟨coin, unspent, -⟩
  cases (only vin spent).symm.trans unspent

lemma connectBlock_onlySpent {hook : MnHook} {pindex : CBlockIndex} {block next} (only : state.OnlySpent host nBase base)
    (fits : (ManagerCall.connectBlock hook pindex block).Fits host params state)
    (stepped : (ManagerCall.connectBlock hook pindex block).apply texts verify host params state = some next) :
    next.OnlySpent host nBase base := by
  unfold ManagerCall.apply at stepped
  dsimp only at stepped
  split at stepped
  · cases stepped
  · rename_i maps connects
    cases stepped
    obtain ⟨ready, readies, -, -, rfl⟩ := connectBlock_eq_ok.mp connects
    obtain ⟨unmade, own⟩ := fits
    intro vin spent
    rcases (spentOn_markSpent _ _).mp spent with old | ⟨script, dropped, found⟩
    · exact applyTxs_lost (unmade vin old) (.inl (only vin old))
    · rw [mem_vinSpent_connectReady _ _ _ _ _ (ready_vinSpent readies)] at dropped
      obtain ⟨loses, unmade⟩ := own ready readies script vin dropped found
      exact applyTxs_lost unmade (.inr loses)

lemma disconnectBlock_onlySpent {now : Int} {pindex next} (only : state.OnlySpent host nBase base)
    (fits : (ManagerCall.disconnectBlock now pindex).Fits host params state)
    (stepped : (ManagerCall.disconnectBlock now pindex).apply texts verify host params state = some next) :
    next.OnlySpent host nBase base := by
  unfold ManagerCall.apply at stepped
  dsimp only at stepped
  split at stepped
  · cases stepped
  · rename_i block rest chain
    cases stepped
    intro vin spent
    have gone := only vin spent
    rw [chain] at gone
    -- an output that the block did not spend was not there before it either
    have shown := (applyTxs_unspent (fits block rest chain vin spent)).not.mp
      (show ¬ (chainCoins host nBase base (block :: rest) vin.prevout).isSome = true by simp [gone])
    simpa using fun there => shown (.inl there)

lemma ManagerCall.apply_onlySpent {call : ManagerCall} {next} (only : state.OnlySpent host nBase base)
    (fits : call.Fits host params state) (stepped : call.apply texts verify host params state = some next) :
    next.OnlySpent host nBase base := by
  cases call with
  | connectBlock hook pindex block => exact connectBlock_onlySpent only fits stepped
  | disconnectBlock now pindex => exact disconnectBlock_onlySpent only fits stepped
  | onList event =>
    cases stepped
    have within : (event.apply texts verify state.list).SpentWithin _ := (spentWithin_iff.mpr only).apply _
    exact spentWithin_iff.mp within

def ownCoin : Coin := ⟨false, false, ⟨20000 * COIN, getScriptForDestination (List.replicate 20 5)⟩, 1⟩
def ownHook : MnHook := straightHook 2 ((∅ : CoinMap).insert ⟨1, 0⟩ ownCoin)
def twinHook : MnHook := straightHook 2 (((∅ : CoinMap).insert ⟨1, 0⟩ ownCoin).insert ⟨6, 0⟩ ownCoin)
def withMasternode : ManagerState := ⟨⟨emptyMaps, []⟩, empty.push id (signedMn MESS_VER_HASH)⟩
def collateralSpend (outpoint : COutPoint) : CBlock := blockAt 3 [coinbaseTx 10 0, paymentTx 11 [outpoint] [⟨100, [2]⟩]]

lemma withMasternode_entries {pmn mn} (held : withMasternode.list.entries pmn = some mn) :
    mn = signedMn MESS_VER_HASH := by
  obtain ⟨mem, found⟩ := entries_eq_some.mp held
  cases mem_singleton.mp mem
  cases found
  rfl

lemma withMasternode_unmarked (vin : CTxIn) : ¬ withMasternode.list.SpentOn vin := by
  rintro ⟨pmn, mn, held, spent, -⟩
  cases withMasternode_entries held
  cases spent

end Peony
