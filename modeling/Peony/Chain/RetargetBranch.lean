import Peony.Chain.Retarget

namespace Peony
open Consensus Int64Arith List Except.Avoids DarkGravity Window Except
open BitVec (ofNat toNat_ofNat)

structure IsAncestry (ancestry : List CBlockIndex) (pindexLast : CBlockIndex) : Prop where
  tip : ancestry.getLast? = some pindexLast
  heights : ∀ (i : Nat) (pindex : CBlockIndex), ancestry[i]? = some pindex → pindex.nHeight = i
  root : ∀ pindex, ancestry[0]? = some pindex → pindex.pprev = none
  linked : ∀ (i : Nat) (parent child : CBlockIndex), ancestry[i]? = some parent → ancestry[i + 1]? = some child →
    child.pprev = some parent.hash

/-- The tree holds the ancestors, over the same genesis block. -/
structure HoldsAncestry (node : NodeState) (ancestry : List CBlockIndex) : Prop where
  indexed : ∀ pindex ∈ ancestry, node.mapBlockIndex.lookup pindex.hash = some pindex
  genesis : node.chainActive.index 0 = ancestry[0]?

/-- The same answer on two nodes, and no read past the active chain. -/
structure SameBits (params : WorkParams) (a b : NodeState) (pindexLast : CBlockIndex) : Prop where
  same : getNextWorkRequired params a pindexLast = getNextWorkRequired params b pindexLast
  found : (getNextWorkRequired params a pindexLast).Avoids (· = missingEntry)

def SharesStart (params : WorkParams) (node : NodeState) (ancestry : List CBlockIndex) (pindexLast : CBlockIndex) : Prop :=
  ∀ h : Nat, (h : Int) + params.nBlocksPerDay ≤ pindexLast.nHeight → node.chainActive.index h = ancestry[h]?

def ReadsActiveChain (params : WorkParams) (pindexLast : CBlockIndex) : Prop :=
  params.fRegTestNet = false ∧ params.networkUpgradeActive (pindexLast.nHeight + 1) .posV3 = true ∧
    params.nBlocksPerDay < pindexLast.nHeight

variable (params : WorkParams)
lemma WorkParams.nBlocksPerDay_pos : 0 < params.nBlocksPerDay := by
  rw [Params.nBlocksPerDay, Int.tdiv_eq_ediv_of_nonneg (by decide)]
  exact Int.le_ediv_of_mul_le params.spacing_pos (by simpa using params.spacing_le_day)

lemma WorkParams.nBlocksPerDay_le {span} (longer : DAY_IN_SECONDS ≤ span) :
    params.nBlocksPerDay ≤ span.tdiv params.nTargetSpacing := by
  have pos : 0 ≤ DAY_IN_SECONDS := by decide
  rw [Params.nBlocksPerDay, Int.tdiv_eq_ediv_of_nonneg pos, Int.tdiv_eq_ediv_of_nonneg (pos.trans longer)]
  exact Int.ediv_le_ediv params.spacing_pos longer

lemma WorkParams.nBlocksPerDay_le_window {window} (mem : window ∈ params.windows) :
    params.nBlocksPerDay ≤ window.nTargetBlocks := by
  have day := params.nBlocksPerDay_pos
  have week : params.nBlocksPerDay ≤ params.nBlocksPerWeek := params.nBlocksPerDay_le (by decide)
  have month : params.nBlocksPerDay ≤ params.nBlocksPerMonth := params.nBlocksPerDay_le (by decide)
  simp only [WorkParams.windows, mem_cons, not_mem_nil, or_false] at mem
  rcases mem with rfl | rfl | rfl | rfl
  · exact le_refl _
  · exact week
  · grind
  · exact month

section
variable {params : WorkParams} {a b node : NodeState} {ancestry : List CBlockIndex} {pindex pindexLast : CBlockIndex}
section
variable (chain : IsAncestry ancestry pindexLast)
include chain

lemma IsAncestry.last : ancestry[pindexLast.nHeight]? = some pindexLast := by
  have tip := chain.tip
  rw [getLast?_eq_getElem?] at tip
  rw [chain.heights _ _ tip]
  exact tip

lemma HoldsAncestry.prev (held : HoldsAncestry node ancestry) {i}
    (at_i : ancestry[i]? = some pindex) : node.prev pindex = if i = 0 then none else ancestry[i - 1]? := by
  cases i with
  | zero =>
    rw [NodeState.prev, chain.root _ at_i]
    rfl
  | succ i =>
    have ins : i < ancestry.length := Nat.lt_of_succ_lt (List.getElem?_eq_some_iff.mp at_i).1
    have parent : ancestry[i]? = some ancestry[i] := List.getElem?_eq_getElem _
    rw [NodeState.prev, chain.linked i _ _ parent at_i]
    change node.mapBlockIndex.lookup _ = _
    rw [held.indexed _ (getElem_mem _), if_neg (Nat.succ_ne_zero i), Nat.add_sub_cancel, parent]

variable (left : HoldsAncestry a ancestry) (right : HoldsAncestry b ancestry)
include left right

lemma HoldsAncestry.prev_congr {i : Nat} (at_i : ancestry[i]? = some pindex) : a.prev pindex = b.prev pindex := by
  rw [left.prev chain at_i, right.prev chain at_i]

lemma walk_congr (rounds : Nat) (gravity) {i : Nat} (at_i : ancestry[i]? = some pindex) :
    walk a rounds gravity pindex = walk b rounds gravity pindex := by
  induction rounds generalizing gravity pindex i with
  | zero => rfl
  | succ rounds ih =>
    have same := left.prev_congr chain right at_i
    have parent := right.prev chain at_i
    unfold walk
    split
    · rfl
    · congr 1
      funext gravity
      rw [same]
      split
      · rfl
      · next pprev found =>
        rw [found] at parent
        split at parent
        · cases parent
        · exact ih _ parent.symm

lemma blockSpacing_congr (atGenesis : Int) : blockSpacing a pindexLast atGenesis = blockSpacing b pindexLast atGenesis := by
  simp [blockSpacing, left.prev_congr chain right chain.last]
end

lemma blockSpacing_avoids (atGenesis : Int) : (blockSpacing node pindexLast atGenesis).Avoids (· = missingEntry) := by
  unfold blockSpacing
  split
  · exact .ok _
  · split
    · exact .error (by decide)
    · exact .ok _

lemma divide_avoids {num div} : (ArithUint256.divide num div).Avoids (· = missingEntry) := by
  by_cases zero : div = 0
  · rw [zero, ArithUint256.divide_zero]
    exact .error (by decide)
  · rw [ArithUint256.divide_eq zero]
    exact .ok _

lemma nextTarget_avoids {bnNew} {nMultiplier nDivisor : Int} {limit} :
    (nextTarget bnNew nMultiplier nDivisor limit).Avoids (· = missingEntry) := by
  apply bind (divide_avoids)
  intro quot _
  exact .ok _

lemma walk_avoids (rounds : Nat) (gravity pindex) :
    (walk node rounds gravity pindex).Avoids (· = missingEntry) := by
  induction rounds generalizing gravity pindex with
  | zero => exact .ok _
  | succ rounds ih =>
    unfold walk
    split
    · exact .ok _
    · apply Except.Avoids.bind
      · apply Except.Avoids.bind
        · unfold average
          split
          · exact .ok _
          · exact divide_avoids
        · intro average _
          exact .ok _
      · intro next _
        split
        · exact .ok _
        · exact ih _ _

lemma getNextWorkRequiredPOSV2_avoids
    (found : ∀ window ∈ params.windows, (window.accumulatedSpacing node pindexLast).Avoids (· = missingEntry)) :
    (getNextWorkRequiredPOSV2 params node pindexLast).Avoids (· = missingEntry) := by
  apply Except.Avoids.bind (blockSpacing_avoids _)
  intro spacing _
  apply Except.Avoids.bind (.mapM _ found)
  intro accumulated _
  apply Except.Avoids.bind (.require (by decide))
  intro _ _
  exact nextTarget_avoids

lemma SameBits.of_pointers (chain : IsAncestry ancestry pindexLast) (left : HoldsAncestry a ancestry)
    (right : HoldsAncestry b ancestry)
    (pre : params.fRegTestNet = true ∨ params.networkUpgradeActive (pindexLast.nHeight + 1) .posV3 = false) :
    SameBits params a b pindexLast := by
  have work : getNextWorkRequiredPOW params a pindexLast = getNextWorkRequiredPOW params b pindexLast := by
    rw [getNextWorkRequiredPOW, getNextWorkRequiredPOW, walk_congr chain left right 24 _ chain.last]
  have stake : getNextWorkRequiredPOS params a pindexLast = getNextWorkRequiredPOS params b pindexLast := by
    rw [getNextWorkRequiredPOS, getNextWorkRequiredPOS, blockSpacing_congr chain left right]
  constructor
  · grind [getNextWorkRequired]
  · unfold getNextWorkRequired
    split
    · exact .ok _
    · next notRegTest =>
      rcases pre with regTest | inactive
      · grind
      · rw [inactive, if_neg Bool.false_ne_true]
        split
        · apply bind (blockSpacing_avoids 0)
          intro spacing _
          exact nextTarget_avoids
        · unfold getNextWorkRequiredPOW
          split
          · exact .ok _
          · apply bind (walk_avoids _ _ _)
            intro gravity _
            exact nextTarget_avoids

def Window.accumulatedOf (window : Window) (ancestry : List CBlockIndex) (pindexLast : CBlockIndex) : Int :=
  if window.nTargetBlocks < pindexLast.nHeight + 1 then
    (pindexLast.nTime : Int) - (ancestry[(pindexLast.nHeight - window.nTargetBlocks).toNat]?).elim 0 fun start => (start.nTime : Int)
  else window.nAccumulatedTargetSpacing

lemma Window.accumulatedSpacing_shared (chain : IsAncestry ancestry pindexLast) (shares : SharesStart params node ancestry pindexLast)
    {window} (mem : window ∈ params.windows) :
    window.accumulatedSpacing node pindexLast = .ok (window.accumulatedOf ancestry pindexLast) := by
  have enough := params.nBlocksPerDay_le_window mem
  have day := params.nBlocksPerDay_pos
  unfold accumulatedSpacing accumulatedOf
  split
  · next reads =>
    have bound := (List.getElem?_eq_some_iff.mp chain.last).1
    have ins : (pindexLast.nHeight - window.nTargetBlocks).toNat < ancestry.length := by omega
    rw [shares _ (by omega), List.getElem?_eq_getElem ins]
    rfl
  · rfl

lemma SameBits.of_shared (chain : IsAncestry ancestry pindexLast) (left : HoldsAncestry a ancestry)
    (right : HoldsAncestry b ancestry) (sharesLeft : SharesStart params a ancestry pindexLast)
    (sharesRight : SharesStart params b ancestry pindexLast) : SameBits params a b pindexLast := by
  by_cases pointers : params.fRegTestNet = true ∨ params.networkUpgradeActive (pindexLast.nHeight + 1) .posV3 = false
  · exact .of_pointers chain left right pointers
  · obtain ⟨notRegTest, active⟩ := not_or.mp pointers
    rw [Bool.not_eq_false] at active
    have windows : (params.windows.mapM fun window => window.accumulatedSpacing a pindexLast) =
        params.windows.mapM fun window => window.accumulatedSpacing b pindexLast := by
      apply mapM_congr
      intro window mem
      rw [accumulatedSpacing_shared chain sharesLeft mem, accumulatedSpacing_shared chain sharesRight mem]
    constructor
    · simp [getNextWorkRequired, notRegTest, active, getNextWorkRequiredPOSV2, blockSpacing_congr chain left right, windows]
    · rw [getNextWorkRequired, if_neg notRegTest, if_pos active]
      apply getNextWorkRequiredPOSV2_avoids
      intro window mem
      rw [accumulatedSpacing_shared chain sharesLeft mem]
      exact .ok _

lemma HoldsAncestry.shares (held : HoldsAncestry node ancestry) (young : pindexLast.nHeight ≤ params.nBlocksPerDay) :
    SharesStart params node ancestry pindexLast := by
  intro h low
  have zero : h = 0 := by omega
  rw [zero]
  exact held.genesis

lemma missing_of_reads (chain : IsAncestry ancestry pindexLast) (held : HoldsAncestry node ancestry)
    (short : node.chainActive.vChain.length ≤ 1) (reads : ReadsActiveChain params pindexLast) :
    getNextWorkRequired params node pindexLast = .error missingEntry := by
  obtain ⟨notRegTest, active, deep⟩ := reads
  have day := params.nBlocksPerDay_pos
  have bound := (List.getElem?_eq_some_iff.mp chain.last).1
  have parent : ∃ spacing, blockSpacing node pindexLast params.nTargetSpacing = .ok spacing := by
    have ins : pindexLast.nHeight - 1 < ancestry.length := by omega
    rw [blockSpacing, if_neg (by omega), held.prev chain chain.last, if_neg (by omega), List.getElem?_eq_getElem ins]
    exact ⟨_, rfl⟩
  have empty : node.chainActive.index (pindexLast.nHeight - params.nBlocksPerDay).toNat = none := by
    rw [CChain.index, getElem?_eq_none_iff]
    omega
  have miss : accumulatedSpacing node pindexLast ⟨params.nBlocksPerDay, DAY_IN_SECONDS, 60⟩ = .error missingEntry := by
    rw [accumulatedSpacing]
    dsimp only
    rw [if_pos (by omega), empty]
  obtain ⟨spacing, parent⟩ := parent
  rw [getNextWorkRequired, notRegTest, if_pos active, getNextWorkRequiredPOSV2, parent,
    WorkParams.windows, mapM_cons, miss]
  rfl

def NodeState.atGenesis (node : NodeState) (genesis : CBlockIndex) (lowest : genesis.nHeight = 0) : NodeState :=
  { node with chainActive := ⟨[genesis], by
      intro i pindex found
      cases i with
      | zero =>
        cases found
        exact lowest
      | succ i => cases found⟩ }

lemma HoldsAncestry.atGenesis (held : HoldsAncestry node ancestry) {genesis} (first : ancestry[0]? = some genesis)
    (lowest : genesis.nHeight = 0) : HoldsAncestry (node.atGenesis genesis lowest) ancestry := ⟨held.indexed, first.symm⟩

lemma getNextWorkRequiredPOSV2_eq {spacing accumulated}
    (parent : blockSpacing node pindexLast params.nTargetSpacing = .ok spacing)
    (starts : (params.windows.mapM fun window => window.accumulatedSpacing node pindexLast) = .ok accumulated)
    (nz : ∀ nAccumulatedSpacing ∈ accumulated, nAccumulatedSpacing ≠ 0) :
    getNextWorkRequiredPOSV2 params node pindexLast =
      let nFinalTargetSpacing := finalTargetSpacing params.nTargetSpacing params.windows accumulated
      nextTarget (setCompact pindexLast.nBits) (wrapInt64 (spacing * 1000 + 59 * nFinalTargetSpacing)) (60 * nFinalTargetSpacing)
        (params.proofOfStakeLimit (params.isTimeProtocolV2 (pindexLast.nHeight + 1))) := by
  have all : accumulated.all (· != 0) = true := by simpa using nz
  rw [getNextWorkRequiredPOSV2, parent]
  rw [starts]
  change (require _ _ >>= _) = _
  rw [all]
  rfl
end
section
def treeOf (entries : List CBlockIndex) : AssocMap UInt256 CBlockIndex :=
  entries.foldr (fun pindex tree => tree.insert pindex.hash pindex) ∅

lemma lookup_treeOf {entries pindex} (mem : pindex ∈ entries)
    (unique : ∀ other ∈ entries, other.hash = pindex.hash → other = pindex) :
    (treeOf entries).lookup pindex.hash = some pindex := by
  induction entries with
  | nil => exact absurd mem not_mem_nil
  | cons first entries ih =>
    change ((treeOf _).insert _ _).lookup _ = _
    rw [AssocMap.lookup_insert_ite]
    split
    · grind
    · grind

def chainOf (entry : Nat → CBlockIndex) (heights : ∀ h, (entry h).nHeight = h) (nBlocks : Nat) : CChain where
  vChain := (List.range nBlocks).map entry
  heights := by
    intro i pindex found
    rw [List.getElem?_map] at found
    obtain ⟨h, inside, rfl⟩ := Option.map_eq_some_iff.mp found
    rw [heights, ← (List.getElem?_eq_some_iff.mp inside).2, List.getElem_range]

variable {entry : Nat → CBlockIndex}
lemma chainOf_index {heights nBlocks h} (ins : h < nBlocks) :
    (chainOf entry heights nBlocks).index h = some (entry h) := by
  rw [CChain.index, chainOf, getElem?_map, getElem?_range ins]
  rfl

variable (nBits : Nat) (nTime : Nat → Nat) (nHeight : Nat)
def timedIndex : CBlockIndex :=
  { indexAt nHeight with nTime := nTime nHeight, nBits := nBits }

def timedAncestry : List CBlockIndex :=
  (List.range (nHeight + 1)).map (timedIndex nBits nTime)

variable (nBits : Nat) (nTime : Nat → Nat) (nHeight : Nat)
lemma timedAncestry_get {i pindex} (found : (timedAncestry nBits nTime nHeight)[i]? = some pindex) :
    i < nHeight + 1 ∧ pindex = timedIndex nBits nTime i := by
  rw [timedAncestry, List.getElem?_map] at found
  obtain ⟨h, ins, rfl⟩ := Option.map_eq_some_iff.mp found
  obtain ⟨bound, same⟩ := List.getElem?_eq_some_iff.mp ins
  rw [List.getElem_range] at same
  rw [List.length_range] at bound
  exact ⟨bound, by rw [same]⟩

lemma timedAncestry_isAncestry : IsAncestry (timedAncestry nBits nTime nHeight) (timedIndex nBits nTime nHeight) where
  tip := by rw [timedAncestry, range_succ, map_append, map_singleton, getLast?_concat]
  heights := by
    intro i pindex found
    rw [(timedAncestry_get _ _ _ found).2]
    rfl
  root := by
    intro pindex found
    rw [(timedAncestry_get _ _ _ found).2]
    rfl
  linked := by
    intro i parent child first snd
    rw [(timedAncestry_get _ _ _ first).2, (timedAncestry_get _ _ _ snd).2]
    rfl

variable {top : Nat}
lemma indexHash_inj {h h'} (low : top < 2 ^ 64) (ins : h < top + 1) (ins' : h' < top + 1)
    (same : ofNat 256 h' = ofNat 256 h) : h' = h := by
  have values := congrArg BitVec.toNat same
  rw [toNat_ofNat, toNat_ofNat] at values
  omega

def minuteIndex : Nat → CBlockIndex := timedIndex 0x1c00ffff fun h => 60 * h
def minuteAncestry : Nat → List CBlockIndex := timedAncestry 0x1c00ffff fun h => 60 * h

/-- A block every two minutes, to the same time at the height `top`. -/
def slowIndex (top h : Nat) : CBlockIndex :=
  if h = 0 then minuteIndex 0
  else { minuteIndex h with
    hash := ofNat 256 (2 ^ 128 + h)
    pprev := some (if h = 1 then 0 else ofNat 256 (2 ^ 128 + h - 1))
    nTime := 60 * top - 120 * (top - h) }

lemma minuteIndex_nHeight (h : Nat) : (minuteIndex h).nHeight = h := rfl
lemma slowIndex_nHeight (top h : Nat) : (slowIndex top h).nHeight = h := by
  unfold slowIndex
  split
  · next zero => rw [zero]; rfl
  · rfl

def twoBranches (top : Nat) (chainActive : CChain) : NodeState :=
  { emptyNode with
    mapBlockIndex := treeOf (minuteAncestry top ++ (List.range (top + 1)).map (slowIndex top))
    chainActive := chainActive }

lemma twoBranches_holds (low : top < 2 ^ 64) {chainActive}
    (genesis : chainActive.index 0 = some (minuteIndex 0)) : HoldsAncestry (twoBranches top chainActive) (minuteAncestry top) where
  indexed := by
    intro pindex mem
    apply lookup_treeOf (mem_append_left _ mem)
    obtain ⟨h, ins, rfl⟩ := mem_map.mp mem
    rw [mem_range] at ins
    intro other listed same
    rcases mem_append.mp listed with listed | listed
    · obtain ⟨h', ins', rfl⟩ := mem_map.mp listed
      rw [mem_range] at ins'
      rw [indexHash_inj low ins ins' same]
    · obtain ⟨h', ins', rfl⟩ := mem_map.mp listed
      rw [mem_range] at ins'
      unfold slowIndex at same ⊢
      split at same
      · next zero =>
        rw [if_pos zero, ← indexHash_inj low ins (Nat.succ_pos _) same]
        rfl
      · have hashes : ofNat 256 (2 ^ 128 + h') = ofNat 256 h := same
        have values := congrArg BitVec.toNat hashes
        rw [toNat_ofNat, toNat_ofNat] at values
        omega
  genesis := by
    rw [minuteAncestry, timedAncestry, getElem?_map, getElem?_range (Nat.succ_pos _)]
    exact genesis

def onMinutes (top : Nat) : NodeState := twoBranches top (chainOf minuteIndex minuteIndex_nHeight (top + 1))
def onSlow (top : Nat) : NodeState := twoBranches top (chainOf (slowIndex top) (slowIndex_nHeight top) (top + 1))
def onGenesis (top : Nat) : NodeState := twoBranches top (chainOf minuteIndex minuteIndex_nHeight 1)

lemma minuteAncestry_isAncestry (top : Nat) : IsAncestry (minuteAncestry top) (minuteIndex top) := timedAncestry_isAncestry _ _ _

variable {node : NodeState}
lemma blockSpacing_minute (held : HoldsAncestry node (minuteAncestry (top + 1))) {atGenesis : Int} :
    blockSpacing node (minuteIndex (top + 1)) atGenesis = .ok 60 := by
  have chain := minuteAncestry_isAncestry (top + 1)
  have parent : (minuteAncestry (top + 1))[top]? = some (minuteIndex top) := by
    rw [minuteAncestry, timedAncestry, getElem?_map, getElem?_range (by omega)]
    rfl
  have prev : node.prev (minuteIndex (top + 1)) = some (minuteIndex top) := by
    rw [held.prev chain chain.last, minuteIndex_nHeight, if_neg (Nat.succ_ne_zero _), Nat.add_sub_cancel, parent]
  rw [blockSpacing, minuteIndex_nHeight, prev]
  change Except.ok (((60 * (top + 1) : Nat) : Int) - ((60 * top : Nat) : Int)) = _
  congr 1
  omega

section
variable {heights : ∀ h, (entry h).nHeight = h} (chain : node.chainActive = chainOf entry heights (top + 1))
include heights chain

lemma accumulatedSpacing_at {window : Window} {nBlocks : Nat} (blocks : window.nTargetBlocks = nBlocks) (ins : nBlocks ≤ top) :
    window.accumulatedSpacing node (minuteIndex top) = .ok ((60 * top : Nat) - ((entry (top - nBlocks)).nTime : Int)) := by
  have start : ((top : Int) - nBlocks).toNat = top - nBlocks := by omega
  have found : node.chainActive.index (top - nBlocks) = some (entry (top - nBlocks)) := by
    rw [chain]
    exact chainOf_index (by omega)
  rw [accumulatedSpacing, minuteIndex_nHeight, blocks, if_pos (by omega), start, found]
  rfl

lemma mainWork_windows (deep : 43200 ≤ top) : (mainWork.windows.mapM fun window => window.accumulatedSpacing node (minuteIndex top)) =
      .ok ([1440, 10080, 20160, 43200].map fun nBlocks => (60 * top : Nat) - ((entry (top - nBlocks)).nTime : Int)) := by
  have day : mainWork.nBlocksPerDay = (1440 : Nat) := by decide
  have week : mainWork.nBlocksPerWeek = (10080 : Nat) := by decide
  have biWeek : 2 * mainWork.nBlocksPerWeek = (20160 : Nat) := by decide
  have month : mainWork.nBlocksPerMonth = (43200 : Nat) := by decide
  rw [WorkParams.windows, mapM_cons, accumulatedSpacing_at chain day (by omega), mapM_cons,
    accumulatedSpacing_at chain week (by omega), mapM_cons, accumulatedSpacing_at chain biWeek (by omega), mapM_cons,
    accumulatedSpacing_at chain month deep]
  rfl
end

lemma minute_bits {accumulated} (held : HoldsAncestry node (minuteAncestry (top + 1))) (late : 1900000 ≤ top + 1)
    (windows : (mainWork.windows.mapM fun window => window.accumulatedSpacing node (minuteIndex (top + 1))) = .ok accumulated)
    (nz : ∀ nAccumulatedSpacing ∈ accumulated, nAccumulatedSpacing ≠ 0) :
    getNextWorkRequired mainWork node (minuteIndex (top + 1)) =
      let nFinalTargetSpacing := finalTargetSpacing 60 mainWork.windows accumulated
      nextTarget (setCompact 0x1c00ffff) (wrapInt64 (60 * 1000 + 59 * nFinalTargetSpacing)) (60 * nFinalTargetSpacing)
        mainWork.posLimitV2 := by
  have active : mainWork.networkUpgradeActive (top + 1 + 1) .posV3 = true := by
    simp [Params.networkUpgradeActive, mainWork, mainConsensus, mainUpgrades, NO_ACTIVATION_HEIGHT]
    omega
  have timeV2 : mainWork.isTimeProtocolV2 (top + 1 + 1) = true := by
    simp [Params.isTimeProtocolV2, Params.networkUpgradeActive, mainWork, mainConsensus, mainUpgrades, NO_ACTIVATION_HEIGHT]
    omega
  have bits := getNextWorkRequiredPOSV2_eq (blockSpacing_minute held) windows nz
  rw [minuteIndex_nHeight, timeV2] at bits
  rw [getNextWorkRequired, minuteIndex_nHeight, active, bits]
  rfl

lemma onMinutes_holds (low : top < 2 ^ 64) : HoldsAncestry (onMinutes top) (minuteAncestry top) :=
  twoBranches_holds low (chainOf_index (Nat.succ_pos _))

lemma onSlow_holds (low : top < 2 ^ 64) : HoldsAncestry (onSlow top) (minuteAncestry top) :=
  twoBranches_holds low (chainOf_index (Nat.succ_pos _))

lemma even_bits (pace : Nat) {heights}
    (held : HoldsAncestry node (minuteAncestry (top + 1))) (late : 1900000 ≤ top + 1) (running : pace ≠ 0)
    (chain : node.chainActive = chainOf entry heights (top + 1 + 1))
    (span : ∀ nBlocks ≤ 43200, ((60 * (top + 1) : Nat) : Int) - ((entry (top + 1 - nBlocks)).nTime : Int) = pace * nBlocks) :
    getNextWorkRequired mainWork node (minuteIndex (top + 1)) =
      let nFinalTargetSpacing := finalTargetSpacing 60 mainWork.windows
        ([1440, 10080, 20160, 43200].map fun nBlocks : Nat => (pace * nBlocks : Int))
      nextTarget (setCompact 0x1c00ffff) (wrapInt64 (60 * 1000 + 59 * nFinalTargetSpacing)) (60 * nFinalTargetSpacing)
        mainWork.posLimitV2 := by
  apply minute_bits held late
  · rw [mainWork_windows chain (by omega)]
    congr 1
    apply map_congr_left
    intro nBlocks mem
    apply span
    simp only [mem_cons, not_mem_nil, or_false] at mem
    omega
  · intro nAccumulatedSpacing mem
    obtain ⟨nBlocks, listed, rfl⟩ := mem_map.mp mem
    simp only [mem_cons, not_mem_nil, or_false] at listed
    apply mul_ne_zero
    · exact_mod_cast running
    · omega

variable (late : 1900000 ≤ top + 1) (low : top + 1 < 2 ^ 64)
include late low

lemma onMinutes_bits : getNextWorkRequired mainWork (onMinutes (top + 1)) (minuteIndex (top + 1)) = .ok 0x1c00ffff := by
  have chain : (onMinutes (top + 1)).chainActive = chainOf minuteIndex minuteIndex_nHeight (top + 1 + 1) := rfl
  rw [even_bits 60 (onMinutes_holds low) late (by decide) chain]
  · rw [nextTarget_eq _ _ (by decide)]
    decide
  · intro nBlocks ins
    change ((60 * (top + 1) : Nat) : Int) - ((60 * (top + 1 - nBlocks) : Nat) : Int) = 60 * nBlocks
    omega

lemma onSlow_bits : getNextWorkRequired mainWork (onSlow (top + 1)) (minuteIndex (top + 1)) = .ok 0x1c010078 := by
  have chain : (onSlow (top + 1)).chainActive = chainOf (slowIndex (top + 1)) (slowIndex_nHeight (top + 1)) (top + 1 + 1) := rfl
  rw [even_bits 120 (onSlow_holds low) late (by decide) chain]
  · rw [nextTarget_eq _ _ (by decide)]
    decide
  · intro nBlocks ins
    have above : top + 1 - nBlocks ≠ 0 := by omega
    rw [slowIndex, if_neg above]
    change ((60 * (top + 1) : Nat) : Int) - ((60 * (top + 1) - 120 * (top + 1 - (top + 1 - nBlocks)) : Nat) : Int) = 120 * nBlocks
    omega
end

variable (params : WorkParams) {node : NodeState} {ancestry : List CBlockIndex} {pindexLast : CBlockIndex}
/-- Only the ancestors count exactly when the active chain is not read, or shares those the windows start at. -/
theorem retarget_ancestral_iff (chain : IsAncestry ancestry pindexLast) (held : HoldsAncestry node ancestry) :
    ((∀ a b, HoldsAncestry a ancestry → HoldsAncestry b ancestry → SameBits params a b pindexLast) ↔
      ¬ ReadsActiveChain params pindexLast) ∧
    ∀ a b, HoldsAncestry a ancestry → HoldsAncestry b ancestry → SharesStart params a ancestry pindexLast →
      SharesStart params b ancestry pindexLast → SameBits params a b pindexLast := by
  constructor
  · constructor
    · intro every reads
      have bound := (List.getElem?_eq_some_iff.mp chain.last).1
      have first : ancestry[0]? = some ancestry[0] := List.getElem?_eq_getElem _
      have short := held.atGenesis first (chain.heights 0 _ first)
      exact (every _ _ short short).found _ (missing_of_reads chain short (le_refl 1) reads) rfl
    · intro quiet a b left right
      by_cases young : pindexLast.nHeight ≤ params.nBlocksPerDay
      · exact .of_shared chain left right (left.shares young) (right.shares young)
      · apply SameBits.of_pointers chain left right
        by_contra reads
        obtain ⟨notRegTest, active⟩ := not_or.mp reads
        exact quiet ⟨Bool.eq_false_iff.mpr notRegTest, Bool.eq_true_of_not_eq_false active, not_le.mp young⟩
  · intro a b left right sharesLeft sharesRight
    exact .of_shared chain left right sharesLeft sharesRight

variable {params} in
lemma minutes_shares {top nBlocks : Nat} (reach : (top : Int) < nBlocks + params.nBlocksPerDay) :
    SharesStart params (twoBranches top (chainOf minuteIndex minuteIndex_nHeight nBlocks)) (minuteAncestry top)
      (minuteIndex top) := by
  intro h low
  have day := params.nBlocksPerDay_pos
  rw [minuteIndex_nHeight] at low
  have found : (chainOf minuteIndex minuteIndex_nHeight nBlocks).index h = some (minuteIndex h) := chainOf_index (by omega)
  rw [minuteAncestry, timedAncestry, getElem?_map, getElem?_range (by omega)]
  exact found

/-- The active chain ends where the shortest window starts. -/
def dayBehind (top : Nat) : NodeState := twoBranches top (chainOf minuteIndex minuteIndex_nHeight (top - 1439))

theorem retarget_ancestral_on_minutes : SameBits mainWork (onMinutes 1900000) (dayBehind 1900000) (minuteIndex 1900000) := by
  have held : HoldsAncestry (onMinutes 1900000) (minuteAncestry 1900000) := onMinutes_holds (by decide)
  have behind : HoldsAncestry (dayBehind 1900000) (minuteAncestry 1900000) :=
    twoBranches_holds (by decide) (chainOf_index (by decide))
  exact (retarget_ancestral_iff mainWork (minuteAncestry_isAncestry 1900000) held).2 _ _ held behind (minutes_shares (by decide))
    (minutes_shares (by decide))

/-- Three nodes hold the same ancestors. They ask for different bits, or read past the end. -/
theorem mainNet_retarget_depends_on_active :
    HoldsAncestry (onMinutes 1900000) (minuteAncestry 1900000) ∧ HoldsAncestry (onSlow 1900000) (minuteAncestry 1900000) ∧
      HoldsAncestry (onGenesis 1900000) (minuteAncestry 1900000) ∧
      getNextWorkRequired mainWork (onMinutes 1900000) (minuteIndex 1900000) = .ok 0x1c00ffff ∧
      getNextWorkRequired mainWork (onSlow 1900000) (minuteIndex 1900000) = .ok 0x1c010078 ∧
      getNextWorkRequired mainWork (onGenesis 1900000) (minuteIndex 1900000) = .error missingEntry := by
  have short : HoldsAncestry (onGenesis 1900000) (minuteAncestry 1900000) := twoBranches_holds (by decide) (chainOf_index Nat.one_pos)
  exact ⟨onMinutes_holds (by decide), onSlow_holds (by decide), short, onMinutes_bits (by decide) (by decide),
    onSlow_bits (by decide) (by decide), missing_of_reads (minuteAncestry_isAncestry _) short (by decide) ⟨rfl, by decide, by decide⟩⟩

end Peony
