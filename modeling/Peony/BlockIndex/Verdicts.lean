import Peony.BlockIndex.Activation

namespace Peony
open BlockTree List
open BlockEntry (setFailedChild isValid clearFailed)
variable {old tree : BlockTree} {h : UInt256}

structure Invalidating (old : BlockTree) (h : UInt256) (tree : BlockTree) : Prop where
  formed : WellFormed tree
  same : SameButFlags old tree
  invalid : ∀ a, (tree.entry a).fFailedValid = true ↔ a = h ∨ (old.entry a).fFailedValid = true
  failed : ∀ a, (tree.entry a).failed = true → (old.entry a).failed = true ∨ h ∈ old.lineage a
  fewer : ∀ c ∈ tree.setBlockIndexCandidates, c ∈ old.setBlockIndexCandidates
  shorter : ∀ a ∈ tree.chainActive, a ∈ old.chainActive

lemma invalidating_invalidBlockFound (sound : Consistent old) (held : h ∈ old.mapBlockIndex) :
    Invalidating old h (old.invalidBlockFound h) := by
  have narrowed := narrowed_invalidBlockFound old h
  constructor
  · exact sound.formed.invalidBlockFound h
  · exact narrowed.same
  · exact fFailedValid_invalidBlockFound
  · intro a failed
    rcases failed_invalidBlockFound failed with rfl | failed
    · exact .inr (sound.formed.graded.self_mem held)
    · exact .inl failed
  · exact narrowed.fewer
  · exact fun _ mem => mem

lemma Invalidating.step (inval : Invalidating old h tree) {calls} (ins : h ∈ tree.chainActive)
    (disc : ∀ a ∈ old.chainActive, h ∈ old.lineage a → calls.disconnects a = true ∧ (old.entry a).pprev ≠ none) :
    ∃ tree', ((tree.change tree.tip.toList setFailedChild).eraseCandidates tree.tip.toList).disconnectTip calls = some tree' ∧
      Invalidating old h tree' ∧ tree'.chainActive.length < tree.chainActive.length := by
  obtain ⟨tip, known, top, chain⟩ := inval.formed.exists_tip
  have shape := inval.same.core.shape
  have mem : h ∈ old.lineage tip := by
    rw [← shape.lineage, ← chain]
    exact ins
  obtain ⟨may, inner⟩ := disc _ (inval.shorter _ (Linking.tip_active top)) mem
  cases up : (tree.entry _).pprev with
  | none => exact absurd ((shape.pprev _).symm.trans up) inner
  | some p =>
    have line : tree.chainActive = tip :: tree.lineage p := by
      rw [chain]
      exact inval.formed.graded.lineage_up known up
    rw [top]
    obtain ⟨marked, markedEq⟩ : ∃ marked, marked = (tree.change [tip] setFailedChild).eraseCandidates [tip] := ⟨_, rfl⟩
    have entry : ∀ a, marked.entry a = if a ∈ [tip] then (tree.entry a).setFailedChild else tree.entry a := by
      rw [markedEq]
      exact fun _ => rfl
    have same : SameButFlags tree marked := by
      have flags : SameButFlags tree (tree.change [tip] setFailedChild) := tree.sameButFlags_change _ fun _ => rfl
      rw [markedEq]
      exact ⟨rfl, flags.entry, rfl⟩
    have wf : WellFormed { marked with chainActive := marked.lineage p } := by
      apply WellFormed.setChain
      · rw [markedEq]
        apply WellFormed.eraseCandidates
        exact inval.formed.change _ fun _ => rfl
      · rw [same.known]
        exact (inval.formed.graded.up known up).1
    refine ⟨{ marked with chainActive := marked.lineage p }, ?_, ?_, ?_⟩
    · change disconnectTip ((tree.change [tip] _).eraseCandidates [tip]) _ = _
      have chain' : marked.chainActive = tip :: marked.lineage p := by
        rw [same.core.shape.lineage, ← line, markedEq]
        rfl
      rw [← markedEq, disconnectTip, chain']
      simp [may, same.core.pprev, up]
    · have whole : SameButFlags old { marked with chainActive := marked.lineage p } := by
        have flags := inval.same.trans same
        exact ⟨flags.known, flags.entry, flags.unlinked⟩
      refine ⟨wf, whole, ?_, ?_, ?_, ?_⟩
      · intro a
        rw [← inval.invalid]
        rw [entry]
        split <;> rfl
      · intro a failed
        have failed' := failed
        rw [entry] at failed'
        split at failed'
        · grind
        · exact inval.failed a failed'
      · intro c listed
        have listed' := listed
        rw [markedEq] at listed'
        exact inval.fewer c (mem_of_mem_filter listed')
      · intro a listed
        have listed' := listed
        apply inval.shorter
        rw [line, ← same.core.shape.lineage]
        exact mem_cons_of_mem _ listed'
    · rw [same.core.shape.lineage, line]
      exact Nat.lt_succ_self _

lemma Invalidating.disconnect {calls} (fuel) (inval : Invalidating old h tree)
    (disc : ∀ a ∈ old.chainActive, h ∈ old.lineage a → calls.disconnects a = true ∧ (old.entry a).pprev ≠ none)
    (enough : tree.chainActive.length ≤ fuel) :
    ∃ tree', disconnectInvalid calls h fuel tree = (true, tree') ∧ Invalidating old h tree' ∧ h ∉ tree'.chainActive := by
  induction fuel generalizing tree with
  | zero =>
    refine ⟨_, rfl, inval, ?_⟩
    rw [eq_nil_of_length_eq_zero (Nat.le_zero.mp enough)]
    exact not_mem_nil
  | succ fuel ih =>
    unfold disconnectInvalid
    by_cases ins : h ∈ tree.chainActive
    · obtain ⟨tree', done, invalidating', shorter⟩ := inval.step ins disc
      obtain ⟨final, ended⟩ := ih invalidating' (by omega)
      refine ⟨final, ?_⟩
      simp only [if_pos ins, done]
      exact ended
    · rw [if_neg ins]
      exact ⟨_, rfl, inval, ins⟩

lemma Invalidating.readdCandidates (inval : Invalidating old h tree) (sound : Consistent old) (outside : h ∉ tree.chainActive) :
    Consistent tree.readdCandidates := by
  have core : SameCore old tree.readdCandidates := ⟨inval.same.known, inval.same.core.core⟩
  have shape := core.shape
  obtain ⟨tip, known, top, chain⟩ := inval.formed.exists_tip
  obtain ⟨oldTip, known', top', chain'⟩ := sound.formed.exists_tip
  have top'' : tree.readdCandidates.tip = some tip := top
  have lower : old.rank tip ≤ old.rank oldTip := by
    apply sound.rank_of_mem known'
    rw [← chain']
    exact inval.shorter _ (Linking.tip_active top)
  refine ⟨inval.formed.readdCandidates, sound.counted.of_sameCore core inval.same.unlinked,
    sound.levelled.congr shape inval.same.nValid core.nTx inval.shorter, ?_, ?_, ?_, ?_, ?_⟩
  · intro a mem
    obtain ⟨good, link⟩ := sound.selected.active a (inval.shorter a mem)
    rw [core.nChainTx]
    refine ⟨?_, link⟩
    rw [← Bool.not_eq_true]
    intro failed
    rcases inval.failed a failed with failed | descends
    · rw [failed] at good
      cases good
    · apply outside
      have mem' := chain ▸ mem
      rw [← inval.same.core.shape.lineage] at descends
      rw [chain]
      exact inval.formed.graded.mem_trans known mem' descends
  · intro a listed failed
    rw [core.known] at listed
    rw [shape.lineage]
    rcases inval.failed a failed with failed | descends
    · obtain ⟨b, mem, invalid⟩ := sound.selected.failed a listed failed
      exact ⟨b, mem, (inval.invalid b).mpr (Or.inr invalid)⟩
    · exact ⟨h, descends, (inval.invalid h).mpr (Or.inl rfl)⟩
  · intro c mem
    rcases mem_append.mp mem with mem | added
    · rw [core.nChainTx]
      exact sound.selected.linked c (inval.fewer c mem)
    · have chosen := (mem_filter.mp added).2
      simp only [Bool.and_eq_true, decide_eq_true_eq] at chosen
      exact chosen.1.1.2
  · intro c mem
    rw [not_belowTip_iff top'', core.rank, core.rank]
    rcases mem_append.mp mem with mem | added
    · exact lower.trans ((not_belowTip_iff top' c).mp (sound.selected.best c (inval.fewer c mem)))
    · have chosen := (mem_filter.mp added).2
      simp only [Bool.and_eq_true, Bool.not_eq_true'] at chosen
      have best := (not_belowTip_iff top c).mp chosen.1.2
      rw [inval.same.core.rank, inval.same.core.rank] at best
      exact best
  · intro a listed link good best
    apply mem_append.mpr
    by_cases already : a ∈ tree.setBlockIndexCandidates
    · exact .inl already
    · apply Or.inr
      apply mem_filter.mpr ⟨listed, _⟩
      have listed' := core.known ▸ listed
      have level : BLOCK_VALID_TRANSACTIONS ≤ (tree.entry a).nValid := by
        rw [inval.same.nValid, sound.levelled.transactions a listed', ← sound.counted.data a listed']
        rw [core.nChainTx] at link
        exact sound.data_of_linked listed' link
      have sane : (tree.entry a).failed = false := good
      have above : tree.belowTip a = false := best
      have cnt : (tree.entry a).nChainTx ≠ 0 := link
      simp [isValid, sane, level, cnt, above, already]

lemma Consistent.invalidateBlock (sound : Consistent tree) {calls} (held : h ∈ tree.mapBlockIndex)
    (disc : ∀ a ∈ tree.chainActive, h ∈ tree.lineage a → calls.disconnects a = true ∧ (tree.entry a).pprev ≠ none) :
    Consistent (tree.invalidateBlock calls h).2 := by
  have marked := invalidating_invalidBlockFound sound held
  obtain ⟨tree', done, inval, outside⟩ := marked.disconnect tree.chainActive.length disc (Nat.le_refl _)
  rw [BlockTree.invalidateBlock, done]
  exact inval.readdCandidates sound outside

lemma getAncestor_eq_iff (wf : WellFormed tree) {a} (listed : a ∈ tree.mapBlockIndex) :
    tree.getAncestor a (tree.entry h).nHeight = some h ↔ h ∈ tree.lineage a := by
  constructor
  · exact mem_of_find?_eq_some
  · intro mem
    cases found : tree.getAncestor a _ with
    | none =>
      have missed := find?_eq_none.mp found h mem
      simp at missed
    | some b =>
      have level := find?_some found
      simp only [beq_iff_eq] at level
      exact congrArg _ (wf.graded.eq_of_height listed (mem_of_find?_eq_some found) mem level)

lemma mem_reconsidered (wf : WellFormed tree) {a} :
    a ∈ tree.reconsidered h ↔ a ∈ tree.mapBlockIndex ∧ (tree.entry a).isValid BLOCK_VALID_TRANSACTIONS = false ∧
      h ∈ tree.lineage a := by
  rw [reconsidered, mem_filter, Bool.and_eq_true, Bool.not_eq_true', decide_eq_true_eq]
  refine and_congr_right fun listed => and_congr_right fun _ => getAncestor_eq_iff wf listed

lemma entry_reconsiderBlock (a) : (tree.reconsiderBlock h).entry a =
    if a ∈ tree.reconsidered h ∨ a ∈ tree.lineage h then (tree.entry a).clearFailed else tree.entry a := by
  change (if a ∈ tree.lineage h then (if a ∈ tree.reconsidered h then (tree.entry a).clearFailed else tree.entry a).clearFailed
    else if a ∈ tree.reconsidered h then (tree.entry a).clearFailed else tree.entry a) = _
  by_cases line : a ∈ tree.lineage h <;> by_cases listed : a ∈ tree.reconsidered h <;> simp [line, listed, clearFailed]

variable (sound : Consistent tree) (clean : ∀ a ∈ tree.lineage h, a ≠ h → (tree.entry a).failed = false)
include sound

lemma failed_reconsiderBlock {a} (listed : a ∈ tree.mapBlockIndex) (failed : ((tree.reconsiderBlock h).entry a).failed = true) :
    (tree.entry a).failed = true ∧ h ∉ tree.lineage a := by
  rw [entry_reconsiderBlock] at failed
  split at failed
  · cases failed
  · next apart =>
    rw [not_or, mem_reconsidered sound.formed] at apart
    refine ⟨failed, fun mem => apart.1 ⟨listed, ?_, mem⟩⟩
    simp [isValid, failed]

include clean

lemma fFailedValid_reconsiderBlock {b} (invalid : (tree.entry b).fFailedValid = true) (listed : b ∈ tree.mapBlockIndex)
    (apart : h ∉ tree.lineage b) : ((tree.reconsiderBlock h).entry b).fFailedValid = true := by
  have failed : (tree.entry b).failed = true := by simp [BlockEntry.failed, invalid]
  have outside : ¬ (b ∈ tree.reconsidered h ∨ b ∈ tree.lineage h) := by
    rw [not_or, mem_reconsidered sound.formed]
    refine ⟨fun cleared => apart cleared.2.2, ?_⟩
    intro line
    by_cases self : b = h
    · rw [self] at apart listed
      exact apart (sound.formed.graded.self_mem listed)
    · rw [clean b line self] at failed
      cases failed
  rw [entry_reconsiderBlock, if_neg outside]
  exact invalid

lemma candidate_reconsiderBlock {a tip} (top : tree.tip = some tip) (listed : a ∈ tree.mapBlockIndex)
    (link : (tree.entry a).nChainTx ≠ 0) (good : ((tree.reconsiderBlock h).entry a).failed = false) (best : tree.belowTip a = false) :
    a ∈ (tree.reconsiderBlock h).setBlockIndexCandidates := by
  apply mem_append.mpr
  by_cases already : a ∈ tree.setBlockIndexCandidates
  · exact .inr already
  · have failed : (tree.entry a).failed = true := by simpa using fun sane => already (sound.selected.all a listed link sane best)
    have mem : h ∈ tree.lineage a := by
      rw [entry_reconsiderBlock] at good
      split at good
      · next cleared =>
        rcases cleared with cleared | line
        · exact ((mem_reconsidered sound.formed).mp cleared).2.2
        · grind
      · rw [failed] at good
        cases good
    have cleared : a ∈ tree.reconsidered h := by
      rw [mem_reconsidered sound.formed]
      exact ⟨listed, by simp [isValid, failed], mem⟩
    have level : BLOCK_VALID_TRANSACTIONS ≤ (tree.entry a).nValid := by
      rw [sound.levelled.transactions a listed, ← sound.counted.data a listed]
      exact sound.data_of_linked listed link
    have better : tree.workComparator tip a = true := by
      rw [workComparator_iff]
      apply lt_of_le_of_ne ((not_belowTip_iff top a).mp best)
      intro same
      have self := tree.rank_injective same
      rw [← self, (sound.selected.active _ (Linking.tip_active top)).1] at failed
      cases failed
    apply Or.inl
    simp [change, cleared, isValid, BlockEntry.failed, clearFailed, level, link, top, better, already]

lemma Consistent.reconsiderBlock : Consistent (tree.reconsiderBlock h) := by
  have same : SameButFlags tree (tree.reconsiderBlock h) := by
    refine ⟨rfl, ?_, rfl⟩
    intro a
    rw [entry_reconsiderBlock]
    split <;> rfl
  have core := same.core
  obtain ⟨tip, known, top, -⟩ := sound.formed.exists_tip
  have top' : (tree.reconsiderBlock h).tip = some tip := top
  have below : ∀ a, (tree.reconsiderBlock h).belowTip a = tree.belowTip a := by
    simp [Bool.eq_iff_iff, belowTip_iff top', belowTip_iff top, core.rank]
  refine ⟨sound.formed.reconsiderBlock h, sound.counted.of_sameCore core rfl,
    sound.levelled.congr core.shape same.nValid core.nTx (fun _ mem => mem), ?_, ?_, ?_, ?_, ?_⟩
  · intro a mem
    obtain ⟨good, link⟩ := sound.selected.active a mem
    rw [core.nChainTx]
    refine ⟨?_, link⟩
    rw [← Bool.not_eq_true]
    intro failed
    rw [(failed_reconsiderBlock sound (sound.active_mem mem) failed).1] at good
    cases good
  · intro a listed failed
    obtain ⟨failed, apart⟩ := failed_reconsiderBlock sound listed failed
    obtain ⟨b, mem, invalid⟩ := sound.selected.failed a listed failed
    have listed' := sound.formed.graded.known_of_mem listed mem
    rw [core.shape.lineage]
    refine ⟨b, mem, fFailedValid_reconsiderBlock sound clean invalid listed' ?_⟩
    exact fun line => apart (sound.formed.graded.mem_trans listed mem line)
  · intro c mem
    rw [core.nChainTx]
    rcases mem_append.mp mem with added | mem
    · have chosen := (mem_filter.mp added).2
      simp only [Bool.and_eq_true, decide_eq_true_eq] at chosen
      exact chosen.1.1.2
    · exact sound.selected.linked c mem
  · intro c mem
    rw [below]
    rcases mem_append.mp mem with added | mem
    · have chosen := (mem_filter.mp added).2
      simp only [Bool.and_eq_true, top, Option.any_some, workComparator_iff] at chosen
      exact (not_belowTip_iff top c).mpr chosen.1.2.le
    · exact sound.selected.best c mem
  · intro a listed link good best
    rw [core.nChainTx] at link
    rw [below] at best
    exact candidate_reconsiderBlock sound clean top listed link good best

end Peony
