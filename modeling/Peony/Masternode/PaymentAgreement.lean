import Mathlib.Data.List.Sort
import Peony.Masternode.CollateralRun
import Peony.Masternode.Listing
import Peony.Masternode.Payments

namespace Peony
open List

lemma CChain.index_tip {chain : CChain} {tip} (last : chain.tip = some tip) : chain.index tip.nHeight = some tip := by
  unfold CChain.tip at last
  rw [getLast?_eq_getElem?] at last
  rw [chain.heights _ _ last]
  exact last

namespace PaymentView
variable {view : PaymentView} {pindexPrev : CBlockIndex} {pmn : CMasternode}
section
variable (view : PaymentView) (pindexPrev : CBlockIndex)
def queue : List (Int × CTxIn) :=
  if (view.vecMasternodeLastPaid pindexPrev true).length < view.nMnCount / 3 then view.vecMasternodeLastPaid pindexPrev false
  else view.vecMasternodeLastPaid pindexPrev true

def eligible : List (CMasternode × CTxIn) :=
  view.eligibleOf (view.lastPaidSort.sort (view.queue pindexPrev))

lemma getNext_eq : view.getNextMasternodeInQueueForPayment pindexPrev true =
      ((view.eligible pindexPrev).head?.map Prod.fst, (view.eligible pindexPrev).map Prod.snd) := by
  simp [getNextMasternodeInQueueForPayment, eligible, queue]
end

lemma mem_eligible {txin} (mem : (pmn, txin) ∈ view.eligible pindexPrev) :
    (view.list.check view.clock).find txin = some pmn ∧ ∃ seconds, (seconds, txin) ∈ view.queue pindexPrev := by
  have found := mem_of_mem_take mem
  obtain ⟨s, sorted, entry⟩ := mem_filterMap.mp found
  obtain ⟨pmn', held, equal⟩ := Option.map_eq_some_iff.mp entry
  cases equal
  exact ⟨held, _, (view.lastPaidSort.perm _).mem_iff.mp sorted⟩

lemma best_eligible (best : (view.getNextMasternodeInQueueForPayment pindexPrev true).1 = some pmn) :
    ∃ txin, (pmn, txin) ∈ view.eligible pindexPrev := by
  rw [getNext_eq] at best
  obtain ⟨entry, first, rfl⟩ := Option.map_eq_some_iff.mp best
  exact ⟨_, mem_of_head? first⟩

lemma le_newest (view : PaymentView) (pindexPrev) (pmns : List CMasternode) (newest) :
    newest ≤ pmns.foldl (fun newest pmn => max newest (view.getLastPaid pmn pindexPrev)) newest := by
  induction pmns generalizing newest with
  | nil => exact le_refl _
  | cons pmn pmns ih => exact (le_max_left ..).trans (ih _)

lemma getLastPaid_le_newest (pmns : List CMasternode) (newest) (mem : pmn ∈ pmns) :
    view.getLastPaid pmn pindexPrev ≤ pmns.foldl (fun newest pmn => max newest (view.getLastPaid pmn pindexPrev)) newest := by
  induction pmns generalizing newest with
  | nil => exact absurd mem not_mem_nil
  | cons first pmns ih =>
    rcases mem_cons.mp mem with rfl | mem
    · exact (le_max_right ..).trans (le_newest _ _ _ _)
    · exact ih _ mem

lemma getLastPaid_le_max {txin} (mem : (pmn, txin) ∈ view.eligible pindexPrev) :
    view.getLastPaid pmn pindexPrev ≤ view.nMaxLastPaid pindexPrev := by
  have found : pmn ∈ (view.getNextMasternodeInQueueForPayment pindexPrev true).2.filterMap (view.list.check view.clock).find := by
    rw [getNext_eq]
    apply mem_filterMap.mpr
    exact ⟨_, mem_map.mpr ⟨_, mem, rfl⟩, (mem_eligible mem).1⟩
  exact getLastPaid_le_newest _ _ found

lemma paid_le_getLastPaid {paid}
    (last : view.maps.getLastPaidBlock (pmn.payee view.getID) pindexPrev = some paid) :
      (paid.nTime : Int) ≤ view.getLastPaid pmn pindexPrev := by
  unfold getLastPaid CollateralMaps.getLastPaid
  rw [last]
  dsimp only [Option.elim_some]
  split
  · omega
  · exact le_refl _

variable {view : PaymentView} {tip : CBlockIndex} {tx : CTransaction} (view : PaymentView) (tip : CBlockIndex)
lemma fillBlockPayee_isCoinStake (coinstake : tx.isCoinStake = true) :
    (view.fillBlockPayee tx (some tip) true).isCoinStake = true := by
  unfold fillBlockPayee
  split
  · exact coinstake
  · grind [subtractPayment, CTransaction.isCoinStake]

lemma findPayment_filled (tx) :
    findPayment (view.masternodePayment (tip.nHeight + 1)) (view.fillBlockPayee tx (some tip) true).vout =
      (view.getBlockPayee tip).or (findPayment (view.masternodePayment (tip.nHeight + 1)) tx.vout) := by
  unfold fillBlockPayee
  dsimp only
  cases view.getBlockPayee _ with
  | none => rfl
  | some payee =>
    simp [findPayment, foldl_append]

section
variable {view : PaymentView} {tip : CBlockIndex} {payee : CScript}
/-- A collateral and, once the list is synced, one of fifteen confirmations. -/
def Payable (view : PaymentView) (tip : CBlockIndex) (payee : CScript) : Prop :=
  view.maps.hasCollateral payee = true ∧
    (view.nMnCount ≠ 0 → view.isSynced = true →
      (view.maps.getCollateral payee).nHeight ≠ 0 ∧
      MASTERNODE_MIN_CONFIRMATIONS ≤ ((tip.nHeight : Int) - (view.maps.getCollateral payee).nHeight) % 2 ^ 32 ∧
      (view.maps.getLastPaidBlock payee tip = none →
        ∃ pindex, view.node.chainActive.index (view.maps.getCollateral payee).nHeight = some pindex ∧
          ((view.getBlockPayee tip).isSome = true → (pindex.nTime : Int) ≤ view.nMaxLastPaid tip)))

section
variable (onTip : view.node.chainActive.tip = some tip)
include onTip

lemma getLastPaidBlockSlow_tip (script : CScript) :
    view.getLastPaidBlockSlow script DEFAULT_MAX_REORG_DEPTH.toNat tip = .ok (view.maps.getLastPaidBlock script tip) := by
  show view.getLastPaidBlockSlow _ (99 + 1) _ = _
  rw [getLastPaidBlockSlow, CChain.index_tip onTip]
  exact if_pos rfl

lemma paidTime_tip (payee) : view.paidTime tip payee = match view.maps.getLastPaidBlock payee tip with
      | some paid => .ok paid.nTime
      | none => match view.node.chainActive.index (view.maps.getCollateral payee).nHeight with
        | none => .error (.fault "chainActive[collateral.nHeight]->nTime")
        | some pindex => .ok pindex.nTime := by
  unfold paidTime
  rw [getLastPaidBlockSlow_tip onTip]
  cases view.maps.getLastPaidBlock _ _ <;> rfl

lemma isInTurn_iff (own : ∀ paid, view.maps.getLastPaidBlock payee tip = some paid → (view.getBlockPayee tip).isSome = true →
      (paid.nTime : Int) ≤ view.nMaxLastPaid tip) :
    view.isInTurn tip payee = .ok true ↔
      (view.maps.getLastPaidBlock payee tip = none →
        ∃ pindex, view.node.chainActive.index (view.maps.getCollateral payee).nHeight = some pindex ∧
          ((view.getBlockPayee tip).isSome = true → (pindex.nTime : Int) ≤ view.nMaxLastPaid tip)) := by
  have last : ∀ time, (if (view.getNextMasternodeInQueueForPayment tip true).1.isNone then Except.ok true
      else Except.ok (!decide (view.nMaxLastPaid tip < time)) : Except Failure Bool) = .ok true ↔
      ((view.getBlockPayee tip).isSome = true → time ≤ view.nMaxLastPaid tip) := by
    unfold getBlockPayee
    cases (view.getNextMasternodeInQueueForPayment _ _).1 <;> simp
  unfold isInTurn
  rw [paidTime_tip onTip]
  cases found : view.maps.getLastPaidBlock _ _ with
  | some paid =>
    apply iff_of_true ((last _).mpr (own _ found))
    intro never
    cases never
  | none =>
    cases view.node.chainActive.index _ with
    | none => simp [bind, Except.bind]
    | some pindex =>
      apply (last _).trans
      simp
end

lemma isTransactionValid_iff {block txNew} (synced : view.isBlockchainSynced = true)
    (parent : block.hashPrevBlock = tip.hash) (onTip : view.node.chainActive.tip = some tip)
    (carried : block.vtx[if block.isProofOfStake then 1 else 0]? = some txNew)
    (found : findPayment (view.masternodePayment (tip.nHeight + 1)) txNew.vout = some payee)
    (own : ∀ paid, view.maps.getLastPaidBlock payee tip = some paid → (view.getBlockPayee tip).isSome = true →
      (paid.nTime : Int) ≤ view.nMaxLastPaid tip) :
    view.isTransactionValid block tip = .ok true ↔ view.Payable tip payee := by
  unfold isTransactionValid Payable
  rw [synced, carried]
  simp only [Bool.not_true, Bool.false_eq_true, if_false, parent, ne_eq, not_true_eq_false, found]
  rw [← isInTurn_iff onTip own]
  split_ifs <;> simp_all

/-- A filled coinstake is accepted exactly if the masternode it pays is payable. -/
theorem filledCoinstake_accepted_iff (view : PaymentView) (tip : CBlockIndex) (tx : CTransaction) (block : CBlock)
    (onTip : view.node.chainActive.tip = some tip) (coinstake : tx.isCoinStake = true) (parent : block.hashPrevBlock = tip.hash)
    (carried : block.vtx[1]? = some (view.fillBlockPayee tx (some tip) true)) :
    view.isTransactionValid block tip = .ok true ↔
      (view.isBlockchainSynced = true → ∃ payee,
        (view.getBlockPayee tip).or (findPayment (view.masternodePayment (tip.nHeight + 1)) tx.vout) = some payee ∧
          view.Payable tip payee) := by
  have proofOfStake : block.isProofOfStake = true := by
    unfold CBlock.isProofOfStake
    rcases same : block.vtx with _ | ⟨coinbase, _ | ⟨own, vtx⟩⟩
    · simp [same] at carried
    · simp [same] at carried
    · rw [same] at carried
      cases carried
      exact (fillBlockPayee_isCoinStake _ _ coinstake)
  cases synced : view.isBlockchainSynced with
  | false => simp [isTransactionValid, synced]
  | true =>
    have second : block.vtx[if block.isProofOfStake then 1 else 0]? = some (view.fillBlockPayee tx (some tip) true) := by
      rw [proofOfStake]
      exact carried
    have found := findPayment_filled view tip tx
    cases chosen : (view.getBlockPayee _).or _ with
    | none =>
      rw [chosen] at found
      simp [isTransactionValid, synced, parent, second, found]
    | some payee =>
      rw [chosen] at found
      have own : ∀ paid, view.maps.getLastPaidBlock payee tip = some paid → (view.getBlockPayee tip).isSome = true →
          (paid.nTime : Int) ≤ view.nMaxLastPaid tip := by
        intro paid last some_payee
        obtain ⟨own, own_chosen⟩ := Option.isSome_iff_exists.mp some_payee
        rw [own_chosen] at chosen
        cases chosen
        obtain ⟨pmn, best, rfl⟩ := Option.map_eq_some_iff.mp own_chosen
        obtain ⟨txin, member⟩ := best_eligible best
        exact (paid_le_getLastPaid last).trans (getLastPaid_le_max member)
      rw [isTransactionValid_iff synced parent onTip second found own]
      simp
end

variable {view : PaymentView}
open MasternodeList

def insertionLastPaidSort : LastPaidSort where
  sort vec := vec.insertionSort fun first second => second.1 ≤ first.1
  perm vec := perm_insertionSort _ vec
  descending vec := by
    have total : Std.Total fun first second : Int × CTxIn => second.1 ≤ first.1 := ⟨fun first second => le_total second.1 first.1⟩
    have trans : IsTrans (Int × CTxIn) fun first second => second.1 ≤ first.1 := ⟨fun _ _ _ upper lower => lower.trans upper⟩
    exact pairwise_insertionSort _ vec

def sampleScript : CScript := getScriptForDestination (sampleID [5])
def collateralAt (nHeight : Nat) : Coin := ⟨false, false, ⟨30000 * COIN, sampleScript⟩, nHeight⟩

variable (nHeight created : Nat) (list : MasternodeList) (maps : CollateralMaps)
def sampleView : PaymentView where
  host := permissiveHost
  params := mainParams.consensus
  getID := sampleID
  hashInput _ _ := 0
  lastPaidSort := insertionLastPaidSort
  node := { emptyNode with
    chainActive := straightChain (nHeight + 1)
    pcoinsTip := .db ⟨0, (∅ : CoinMap).insert (sampleVin 0).prevout (collateralAt created)⟩ }
  mDynamicRewards := ∅
  clock := sampleContext.toMnClock
  list := list
  maps := maps
  isBlockchainSynced := true
  isSynced := true

lemma sampleView_tip : (sampleView nHeight created list maps).node.chainActive.tip = some (indexAt nHeight) := by
  simp [sampleView, CChain.tip, straightChain, range_succ]

def oneMasternode : MasternodeList := empty.add sampleID (sampleMasternode 0 [5] [6] 1000)

def collateralMapsAt (nHeight : Nat) : CollateralMaps :=
  { emptyMaps with mapScriptCollaterals := (∅ : AssocMap CScript Coin).insert sampleScript (collateralAt nHeight) }

def paidMaps : CollateralMaps :=
  { collateralMapsAt 1000 with mapPaidPayeesBlocks := (∅ : AssocMap CScript (List CBlockIndex)).insert sampleScript [indexAt 140000] }

def sampleStake : CTransaction := ⟨1, [⟨⟨2, 0⟩, [], 0⟩], [⟨0, []⟩, ⟨1000 * COIN, [0x51]⟩], 0⟩

section
variable (view : PaymentView) (nHeight : Nat)
def filledBlock : CBlock :=
  { stakeBlock (nHeight + 1) 0 with
    vtx := [⟨1, [⟨⟨0, 4294967295⟩, [0, 0], 0⟩], [⟨0, []⟩], 0⟩, view.fillBlockPayee sampleStake (some (indexAt nHeight)) true] }

def acceptsFilled : Except Failure Bool :=
  view.isTransactionValid (view.filledBlock nHeight) (indexAt nHeight)
end

lemma paidMaps_payable : (sampleView 150000 1000 oneMasternode paidMaps).Payable (indexAt 150000) sampleScript := by
  apply And.intro (by decide +kernel)
  intro _ _
  exact ⟨by decide +kernel, by decide +kernel, fun never => absurd never (by decide +kernel)⟩

theorem filledCoinstake_of_paid : acceptsFilled (sampleView 150000 1000 oneMasternode paidMaps) 150000 = .ok true := by
  have chosen : (sampleView 150000 1000 oneMasternode paidMaps).getBlockPayee (indexAt 150000) = some sampleScript := by decide +kernel
  apply (filledCoinstake_accepted_iff _ (indexAt 150000) sampleStake _ (sampleView_tip 150000 ..) rfl rfl rfl).mpr
  intro _
  rw [chosen]
  exact ⟨sampleScript, rfl, paidMaps_payable⟩

/-- No enabled masternode, a collateral of 11 blocks, a second collateral of that age on an old script. -/
theorem filledCoinstake_rejected : acceptsFilled (sampleView 150000 1000 empty emptyMaps) 150000 = .ok false ∧
    (sampleView 150000 149990 oneMasternode (collateralMapsAt 149990)).getBlockPayee (indexAt 150000) = some sampleScript ∧
    acceptsFilled (sampleView 150000 149990 oneMasternode (collateralMapsAt 149990)) 150000 = .ok false ∧
    (sampleView 150000 1000 oneMasternode (collateralMapsAt 149990)).getBlockPayee (indexAt 150000) = some sampleScript ∧
    acceptsFilled (sampleView 150000 1000 oneMasternode (collateralMapsAt 149990)) 150000 = .ok false := by decide +kernel

end PaymentView

end Peony
