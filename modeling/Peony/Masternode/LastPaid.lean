import Mathlib.Data.List.Find
import Peony.Masternode.PaymentAgreement
import Peony.Masternode.PaymentLog

namespace Peony
open Consensus CollateralMaps Relation List

namespace PaymentView
variable (view : PaymentView) (entries : List PaidEntry)
/-- An entry and its ancestors as a node holds them: off the active chain also on disk. -/
inductive Lineage : List CBlockIndex → Prop where
  | genesis {pindex : CBlockIndex} (lowest : pindex.nHeight = 0) (indexed : view.node.mapBlockIndex.lookup pindex.hash = some pindex)
      (active : view.node.chainActive.contains pindex = true) : Lineage [pindex]
  | child {pindex parent : CBlockIndex} {older : List CBlockIndex} (height : pindex.nHeight = parent.nHeight + 1)
      (indexed : view.node.mapBlockIndex.lookup pindex.hash = some pindex) (linked : pindex.pprev = some parent.hash)
      (stored : view.node.chainActive.contains pindex = false →
        ∃ block, view.node.readBlockFromDisk view.host pindex = some block ∧ block.hashPrevBlock = parent.hash ∧ parent.hash ≠ 0)
      (below : Lineage (parent :: older)) : Lineage (pindex :: parent :: older)

structure Follows : Prop where
  chain : view.node.chainActive.vChain = entries.map Prod.fst
  indexed : ∀ (i : Nat) (pindex : CBlockIndex), view.node.chainActive.index i = some pindex →
    view.node.mapBlockIndex.lookup pindex.hash = some pindex
  linked : ∀ (i : Nat) (parent child : CBlockIndex), view.node.chainActive.index i = some parent →
    view.node.chainActive.index (i + 1) = some child → child.pprev = some parent.hash

def paidPayee (pindex : CBlockIndex) : Option CScript :=
  if view.node.chainActive.contains pindex then (entries[pindex.nHeight]?).bind Prod.snd
  else (view.node.readBlockFromDisk view.host pindex).map (·.getPaidPayee (view.masternodePayment pindex.nHeight))

def lastPaid (ancestors : List CBlockIndex) (script : CScript) : Option CBlockIndex :=
  ancestors.find? fun pindex => view.paidPayee entries pindex = some script

def walked : Nat → List CBlockIndex → List CBlockIndex
  | 0, _ => []
  | _, [] => []
  | i + 1, pindex :: older => if view.node.chainActive.contains pindex then [] else pindex :: walked i older

def reached : Nat → List CBlockIndex → List CBlockIndex
  | 0, ancestors => ancestors
  | _, [] => []
  | i + 1, pindex :: older => if view.node.chainActive.contains pindex then pindex :: older else reached i older

variable {view entries}
lemma walked_append_reached (i : Nat) (ancestors) : view.walked i ancestors ++ view.reached i ancestors = ancestors := by
  induction i generalizing ancestors with
  | zero => rfl
  | succ i ih =>
    cases ancestors with
    | nil => rfl
    | cons pindex older =>
      unfold walked reached
      split
      · rfl
      · rw [cons_append, ih]

variable {pindex : CBlockIndex}
lemma contains_iff {chain : CChain} :
    chain.contains pindex = true ↔ ∃ own, chain.index pindex.nHeight = some own ∧ own.hash = pindex.hash := by
  unfold CChain.contains
  cases chain.index _ with
  | none => simp
  | some own => simp

variable {older : List CBlockIndex}
lemma Lineage.indexed (lineage : Lineage view (pindex :: older)) : view.node.mapBlockIndex.lookup pindex.hash = some pindex := by
  cases lineage with
  | genesis _ indexed _ => exact indexed
  | child _ indexed _ _ _ => exact indexed

lemma getLastPaidBlockSlow_eq (entries : List PaidEntry) (i) (script)
    (lineage : Lineage view (pindex :: older)) (low : pindex.nHeight < view.node.chainActive.vChain.length) :
    ∃ stop rest, view.reached i (pindex :: older) = stop :: rest ∧
      view.getLastPaidBlockSlow script i pindex =
        .ok ((view.lastPaid entries (view.walked i (pindex :: older)) script).or (view.maps.getLastPaidBlock script stop)) := by
  induction i generalizing pindex older with
  | zero => exact ⟨_, _, rfl, rfl⟩
  | succ i ih =>
    have found : view.node.chainActive.index pindex.nHeight = some view.node.chainActive.vChain[pindex.nHeight] :=
      getElem?_eq_getElem _
    have active : view.node.chainActive.contains pindex = true ↔ view.node.chainActive.vChain[pindex.nHeight].hash = pindex.hash := by
      rw [contains_iff, found]
      simp
    unfold reached walked getLastPaidBlockSlow
    rw [found]
    dsimp only
    by_cases onChain : view.node.chainActive.contains pindex = true
    · rw [if_pos onChain, if_pos onChain, if_pos (active.mp onChain)]
      exact ⟨_, _, rfl, rfl⟩
    · rw [if_neg onChain, if_neg onChain, if_neg (mt active.mpr onChain)]
      have off := Bool.eq_false_iff.mpr onChain
      cases lineage with
      | genesis _ _ own => exact absurd own onChain
      | child height _ _ stored below =>
        obtain ⟨block, reads, previous, nz⟩ := stored off
        obtain ⟨stop, rest, halts, walks⟩ := ih below (by omega)
        have payee : view.paidPayee entries pindex = some (block.getPaidPayee (view.masternodePayment pindex.nHeight)) := by
          simp [paidPayee, onChain, reads]
        refine ⟨_, _, halts, ?_⟩
        rw [reads]
        dsimp only
        by_cases own : block.getPaidPayee (view.masternodePayment pindex.nHeight) = script
        · rw [if_pos own, lastPaid, find?_cons_of_pos (by rw [payee, own]; simp)]
          rfl
        · rw [if_neg own, previous, if_neg nz, below.indexed]
          dsimp only
          rw [walks, lastPaid, lastPaid, find?_cons_of_neg (by rw [payee]; simpa using own)]

lemma getLastPaidBlockSlow_above (i : Nat) (script) (high : view.node.chainActive.vChain.length ≤ pindex.nHeight) :
    view.getLastPaidBlockSlow script (i + 1) pindex = .error (.fault "chainActive[pindex->nHeight]->GetBlockHash()") := by
  have miss : view.node.chainActive.index pindex.nHeight = none := getElem?_eq_none high
  rw [getLastPaidBlockSlow, miss]

section
variable (follows : Follows view entries)
include follows

lemma Follows.own (active : view.node.chainActive.contains pindex = true)
    (indexed : view.node.mapBlockIndex.lookup pindex.hash = some pindex) :
    view.node.chainActive.index pindex.nHeight = some pindex := by
  obtain ⟨own, found, same⟩ := contains_iff.mp active
  have held := follows.indexed _ _ found
  rw [same, indexed] at held
  rw [found, held]

lemma Follows.parent {parent} (found : view.node.chainActive.index pindex.nHeight = some pindex)
    (height : pindex.nHeight = parent.nHeight + 1) (link : pindex.pprev = some parent.hash)
    (indexed : view.node.mapBlockIndex.lookup parent.hash = some parent) :
    view.node.chainActive.index parent.nHeight = some parent := by
  have ins := (List.getElem?_eq_some_iff.mp found).1
  have below : view.node.chainActive.index parent.nHeight = some view.node.chainActive.vChain[parent.nHeight] :=
    List.getElem?_eq_getElem _
  rw [height] at found
  have same := follows.linked _ _ _ below found
  rw [link] at same
  have held := follows.indexed _ _ below
  rw [← Option.some.inj same, indexed] at held
  rw [below, ← held]

lemma Follows.lineage (lineage : Lineage view (pindex :: older)) (found : view.node.chainActive.index pindex.nHeight = some pindex) :
    (pindex :: older).reverse = view.node.chainActive.vChain.take (pindex.nHeight + 1) := by
  induction older generalizing pindex with
  | nil =>
    cases lineage with
    | genesis lowest _ _ =>
      rw [List.take_succ_eq_append_getElem (List.getElem?_eq_some_iff.mp found).1, (List.getElem?_eq_some_iff.mp found).2, lowest]
      rfl
  | cons parent older ih =>
    cases lineage with
    | child height _ link _ below =>
      have under := ih below (follows.parent found height link below.indexed)
      rw [List.reverse_cons, under, List.take_succ_eq_append_getElem (List.getElem?_eq_some_iff.mp found).1,
        (List.getElem?_eq_some_iff.mp found).2, height]
end
section
lemma find?_of_all {α : Type} {test : α → Bool} {items : List α} (all : ∀ item ∈ items, test item = true) :
    items.find? test = items.head? := by
  cases items with
  | nil => rfl
  | cons item items => rw [find?_cons_of_pos (all _ (by simp))]; rfl

lemma paidBlocks_append (front back script) :
    paidBlocks (front ++ back) script = paidBlocks front script ++ paidBlocks back script := by
  rw [paidBlocks, filter_append, map_append]
  rfl

lemma mem_paidBlocks {entries script} (mem : pindex ∈ paidBlocks entries script) :
    ∃ entry ∈ entries, entry.1 = pindex := by
  obtain ⟨entry, listed, rfl⟩ := mem_map.mp mem
  exact ⟨_, (mem_filter.mp listed).1, rfl⟩

lemma getLastPaidBlock_of_held {maps : CollateralMaps} (held : PaymentsHeld maps entries)
    (ins : pindex.nHeight < entries.length) (script) : maps.getLastPaidBlock script pindex =
      ((entries.take (pindex.nHeight + 1)).reverse.find? fun entry => entry.2 = some script).map Prod.fst := by
  obtain ⟨undone, found, high⟩ := held.blocks _
  have later : ∀ paid ∈ paidBlocks (entries.drop (pindex.nHeight + 1)) script ++ undone,
      ¬ decide (paid.nHeight ≤ pindex.nHeight) = true := by
    intro paid mem
    rw [decide_eq_true_iff]
    rcases mem_append.mp mem with mem | mem
    · obtain ⟨entry, listed, rfl⟩ := mem_paidBlocks mem
      obtain ⟨i, at_i⟩ := mem_iff_getElem?.mp listed
      rw [getElem?_drop] at at_i
      have height := held.heights _ _ at_i
      omega
    · have above := high _ mem
      omega
  have earlier : ∀ paid ∈ (paidBlocks (entries.take (pindex.nHeight + 1)) script).reverse,
      decide (paid.nHeight ≤ pindex.nHeight) = true := by
    intro paid mem
    obtain ⟨entry, listed, rfl⟩ := mem_paidBlocks (mem_reverse.mp mem)
    obtain ⟨i, at_i⟩ := mem_iff_getElem?.mp listed
    rw [getElem?_take] at at_i
    split at at_i
    · next low =>
      rw [decide_eq_true_iff, held.heights i _ at_i]
      omega
    · cases at_i
  have split : paidBlocks entries script ++ undone = paidBlocks (entries.take (pindex.nHeight + 1)) script ++
      (paidBlocks (entries.drop (pindex.nHeight + 1)) script ++ undone) := by
    rw [← append_assoc, ← paidBlocks_append, take_append_drop]
  rw [getLastPaidBlock, found, split, reverse_append, find?_append, find?_eq_none.mpr, Option.none_or, find?_of_all earlier,
    paidBlocks, ← map_reverse, ← filter_reverse, head?_map, head?_filter]
  intro paid mem
  exact later _ (mem_reverse.mp mem)

lemma Follows.getLastPaidBlock_eq (follows : Follows view entries) (held : PaymentsHeld view.maps entries)
    (lineage : Lineage view (pindex :: older)) (active : view.node.chainActive.contains pindex = true)
    (script : CScript) : view.maps.getLastPaidBlock script pindex = view.lastPaid entries (pindex :: older) script := by
  have found := follows.own active lineage.indexed
  have ins : pindex.nHeight < entries.length := by
    have bound := (List.getElem?_eq_some_iff.mp found).1
    rw [follows.chain, List.length_map] at bound
    exact bound
  have chain : pindex :: older = (entries.take (pindex.nHeight + 1)).reverse.map Prod.fst := by
    rw [← reverse_reverse (pindex :: older), follows.lineage lineage found, follows.chain, ← map_take, map_reverse]
  have payee : ∀ entry ∈ (entries.take (pindex.nHeight + 1)).reverse, view.paidPayee entries entry.1 = entry.2 := by
    intro entry mem
    obtain ⟨i, at_i⟩ := mem_iff_getElem?.mp (mem_of_mem_take (mem_reverse.mp mem))
    have height := held.heights i _ at_i
    have own : view.node.chainActive.contains entry.1 = true := by
      rw [contains_iff, height, CChain.index, follows.chain, getElem?_map, at_i]
      exact ⟨_, rfl, rfl⟩
    rw [paidPayee, if_pos own, height, at_i]
    rfl
  rw [getLastPaidBlock_of_held held ins, lastPaid, chain, find?_map]
  congr 1
  apply find?_congr
  intro entry mem
  change decide _ = decide _
  rw [payee _ mem]
end
section
variable (view : PaymentView) (entries : List PaidEntry)
/-- The walk ends on the active chain, or the maps happen to agree with the rest of the branch. -/
def ReachesRecord (ancestors : List CBlockIndex) : Prop :=
  ∃ stop rest, view.reached DEFAULT_MAX_REORG_DEPTH.toNat ancestors = stop :: rest ∧
    (view.node.chainActive.contains stop = true ∨
      ∀ script, view.lastPaid entries (view.walked DEFAULT_MAX_REORG_DEPTH.toNat ancestors) script = none →
        view.maps.getLastPaidBlock script stop = view.lastPaid entries (stop :: rest) script)

def LastPaidExact (pindex : CBlockIndex) (older : List CBlockIndex) : Prop :=
  ∀ script, view.getLastPaidBlockSlow script DEFAULT_MAX_REORG_DEPTH.toNat pindex = .ok (view.lastPaid entries (pindex :: older) script)
end

lemma lastPaid_append (front back script) :
    view.lastPaid entries (front ++ back) script = (view.lastPaid entries front script).or (view.lastPaid entries back script) :=
  find?_append

lemma Lineage.reached {ancestors} (i : Nat) (lineage : Lineage view ancestors) :
    Lineage view (view.reached i ancestors) ∨ view.reached i ancestors = [] := by
  induction i generalizing ancestors with
  | zero => exact .inl lineage
  | succ i ih =>
    cases lineage with
    | genesis lowest indexed active =>
      unfold PaymentView.reached
      rw [if_pos active]
      exact .inl (.genesis lowest indexed active)
    | child height indexed link stored below =>
      unfold PaymentView.reached
      split
      · exact .inl (.child height indexed link stored below)
      · exact ih below

lemma lastPaidExact_iff (follows : Follows view entries) (held : PaymentsHeld view.maps entries)
    (lineage : Lineage view (pindex :: older)) :
    LastPaidExact view entries pindex older ↔ pindex.nHeight < entries.length ∧ ReachesRecord view entries (pindex :: older) := by
  have length : view.node.chainActive.vChain.length = entries.length := by rw [follows.chain, length_map]
  by_cases low : pindex.nHeight < entries.length
  · have bound := length ▸ low
    obtain ⟨stop, rest, halts, -⟩ := getLastPaidBlockSlow_eq entries DEFAULT_MAX_REORG_DEPTH.toNat [] lineage bound
    have parts : ∀ script, view.lastPaid entries (pindex :: older) script =
        (view.lastPaid entries (view.walked DEFAULT_MAX_REORG_DEPTH.toNat (pindex :: older)) script).or
          (view.lastPaid entries (stop :: rest) script) := by simp [← lastPaid_append, ← halts, walked_append_reached]
    have walks : ∀ script, view.getLastPaidBlockSlow script DEFAULT_MAX_REORG_DEPTH.toNat pindex =
        .ok ((view.lastPaid entries (view.walked DEFAULT_MAX_REORG_DEPTH.toNat (pindex :: older)) script).or
          (view.maps.getLastPaidBlock script stop)) := by
      intro script
      obtain ⟨stop', rest', halts', walks⟩ := getLastPaidBlockSlow_eq _ _ _ lineage bound
      rw [halts] at halts'
      cases halts'
      exact walks
    constructor
    · intro exact
      refine ⟨low, _, _, halts, .inr fun script unmet => ?_⟩
      have res := exact script
      rw [walks, parts, unmet] at res
      exact Except.ok.inj res
    · rintro ⟨-, stop', rest', halts', agrees⟩ script
      rw [halts] at halts'
      cases halts'
      rw [walks, parts]
      rcases agrees with active | agrees
      · have below : Lineage view (stop :: rest) := by
          rcases lineage.reached DEFAULT_MAX_REORG_DEPTH.toNat with below | empty
          · simpa [halts] using below
          · rw [halts] at empty
            cases empty
        rw [follows.getLastPaidBlock_eq held below active]
      · cases met : view.lastPaid _ _ _ with
        | none => rw [agrees _ met]
        | some paid => rfl
  · constructor
    · intro exact
      have res := exact []
      have depth : DEFAULT_MAX_REORG_DEPTH.toNat = 99 + 1 := rfl
      rw [depth, getLastPaidBlockSlow_above 99 [] (by omega)] at res
      cases res
    · omega

/-- Exact for a block not above the tip, on a branch at most as long as the walk. -/
theorem getLastPaidBlockSlow_exact_iff {host : Host} {params : Params} {chain : CChain} {state : PaidState}
    (nonempty : chain.vChain ≠ [])
    (run : ReflTransGen (PaidStep host params) (.fresh chain) state) (maps : view.maps = state.maps)
    (follows : Follows view state.entries) {pindex : CBlockIndex} {older : List CBlockIndex}
    (lineage : Lineage view (pindex :: older)) :
    (LastPaidExact view state.entries pindex older ↔
      pindex.nHeight < state.entries.length ∧ ReachesRecord view state.entries (pindex :: older)) ∧
    ∀ hook, hook.node.chainActive.vChain = state.chain → state.maps.initiatedAt ≤ 0 →
      ((∃ next, state.maps.init host params hook = .ok next) ↔
        collateralScripts params hook state.maps * 2 ≤ hook.node.chainActive.height.toNat) := by
  have tracked := run_tracked (fresh_tracked nonempty) run
  constructor
  · exact lastPaidExact_iff follows (maps ▸ tracked.held) lineage
  · intro hook sees waiting
    exact init_ok_iff _ waiting (tracked.nonempty sees)

def forkIndex (label nHeight : Nat) (parent : Option Nat) : CBlockIndex :=
  { indexAt nHeight with hash := BitVec.ofNat 256 label, pprev := parent.map (BitVec.ofNat 256) }

def forkGenesis : CBlockIndex := forkIndex 1 0 none
def forkLeft : CBlockIndex := forkIndex 2 1 (some 1)
def forkRight : CBlockIndex := forkIndex 3 1 (some 1)

def payingBlock (label parent : Nat) (script : CScript) : CBlock :=
  { blockAt 1 [⟨1, [⟨⟨0, 4294967295⟩, [0, 0], 4294967295⟩], [⟨0, script⟩], label⟩] with
    nNonce := label
    hashPrevBlock := BitVec.ofNat 256 parent }

section
variable (chainActive : CChain)
def forkNode : NodeState :=
  { emptyNode with
    mapBlockIndex := (((∅ : AssocMap UInt256 CBlockIndex).insert 1 forkGenesis).insert 2 forkLeft).insert 3 forkRight
    chainActive := chainActive
    blockFiles := ((∅ : AssocMap UInt256 CBlock).insert 2 (payingBlock 2 1 [7])).insert 3 (payingBlock 3 1 [8]) }

def genesisChain : CChain where
  vChain := [forkGenesis]
  heights := by
    intro i pindex found
    cases i with
    | zero => cases found; rfl
    | succ i => cases found

def leftChain : CChain where
  vChain := [forkGenesis, forkLeft]
  heights := by
    intro i pindex found
    rcases i with _ | _ | i
    · cases found; rfl
    · cases found; rfl
    · cases found

def forkHook (coins : CoinMap) : MnHook := ⟨0, forkNode chainActive, coins, ∅⟩

def leftMaps : CollateralMaps :=
  (emptyMaps.connectBlock permissiveHost mainParams.consensus (forkHook genesisChain ∅) forkLeft
    (payingBlock 2 1 [7])).toOption.getD emptyMaps

def leftState : PaidState :=
  ⟨leftMaps, (PaidState.fresh genesisChain).ready permissiveHost mainParams.consensus (forkHook genesisChain ∅) ++
    [(forkLeft, recordedPayee mainParams.consensus (forkHook genesisChain ∅) forkLeft (payingBlock 2 1 [7]))]⟩

def forkView (maps : CollateralMaps) : PaymentView :=
  { sampleView 0 0 MasternodeList.empty maps with node := forkNode chainActive }
end

lemma leftState_run : ReflTransGen (PaidStep permissiveHost mainParams.consensus) (.fresh genesisChain) leftState :=
  .single (.connect _ _ _ rfl rfl rfl)

lemma forkView_lineage {chainActive} (maps) (rooted : chainActive.contains forkGenesis = true) :
    Lineage (forkView chainActive maps) [forkRight, forkGenesis] :=
  .child rfl rfl rfl (fun _ => ⟨_, rfl, rfl, by decide⟩) (.genesis rfl rfl rooted)

lemma leftView_follows : Follows (forkView leftChain leftMaps) leftState.entries where
  chain := rfl
  indexed := by
    intro i pindex found
    rcases i with _ | _ | i
    · cases found; decide
    · cases found; decide
    · cases found
  linked := by
    intro i parent child first snd
    rcases i with _ | i
    · cases first; cases snd; rfl
    · cases snd

theorem lastPaid_on_fork : LastPaidExact (forkView leftChain leftMaps) leftState.entries forkRight [forkGenesis] :=
  (getLastPaidBlockSlow_exact_iff (by decide) leftState_run rfl leftView_follows (forkView_lineage leftMaps (by decide))).1.mpr
    ⟨by decide, forkGenesis, [], by decide, .inl (by decide)⟩

/-- The lookup reads past the end of a lower active chain; two blocks are too few for `Init`. -/
theorem lastPaid_faults : (∀ script, (forkView genesisChain emptyMaps).getLastPaidBlockSlow script DEFAULT_MAX_REORG_DEPTH.toNat forkRight =
      .error (.fault "chainActive[pindex->nHeight]->GetBlockHash()")) ∧
    Lineage (forkView genesisChain emptyMaps) [forkRight, forkGenesis] ∧
    emptyMaps.init permissiveHost mainParams.consensus (forkHook leftChain ((∅ : CoinMap).insert ⟨5, 0⟩ firstCollateral)) =
      .error (.fault "pBlockIndex->GetPaidPayee()") := by
  refine ⟨fun script => ?_, forkView_lineage emptyMaps (by decide), rfl⟩
  exact getLastPaidBlockSlow_above 99 script (by decide)

end PaymentView

end Peony
