import Peony.BlockIndex.Invariant

namespace Peony
open BlockTree List

structure Narrowed (tree tree' : BlockTree) : Prop where
  same : SameButFlags tree tree'
  chain : tree'.chainActive = tree.chainActive
  fewer : ∀ c ∈ tree'.setBlockIndexCandidates, c ∈ tree.setBlockIndexCandidates
  failed : ∀ h, (tree.entry h).failed = true → (tree'.entry h).failed = true

lemma Narrowed.refl (tree) : Narrowed tree tree := ⟨SameButFlags.refl _, rfl, fun _ mem => mem, fun _ failed => failed⟩

lemma Narrowed.trans {tree tree' tree''} (first : Narrowed tree tree') (snd : Narrowed tree' tree'') :
    Narrowed tree tree'' where
  same := first.same.trans snd.same
  chain := snd.chain.trans first.chain
  fewer c mem := first.fewer c (snd.fewer c mem)
  failed h failed := snd.failed h (first.failed h failed)

lemma Narrowed.belowTip {tree tree'} (narrowed : Narrowed tree tree') (h) : tree'.belowTip h = tree.belowTip h := by
  have top : tree'.tip = tree.tip := congrArg List.head? narrowed.chain
  cases tip : tree.tip with
  | none => simp [BlockTree.belowTip, top, tip]
  | some t => simp [Bool.eq_iff_iff, belowTip_iff (top.trans tip), belowTip_iff tip, narrowed.same.core.rank]

variable {tree tree' : BlockTree} {h : UInt256}
lemma Consistent.narrow (sound : Consistent tree) (narrowed : Narrowed tree tree') (wf : WellFormed tree')
    (active : ∀ a ∈ tree.chainActive, (tree'.entry a).failed = false)
    (failed : ∀ a ∈ tree.mapBlockIndex, (tree'.entry a).failed = true → ∃ b ∈ tree.lineage a, (tree'.entry b).fFailedValid = true)
    (kept : ∀ c ∈ tree.setBlockIndexCandidates, (tree'.entry c).failed = false → c ∈ tree'.setBlockIndexCandidates) :
    Consistent tree' := by
  have core := narrowed.same.core
  refine ⟨wf, sound.counted.of_sameCore core narrowed.same.unlinked, ?_, ?_, ?_, ?_, ?_, ?_⟩
  · exact sound.levelled.congr core.shape narrowed.same.nValid core.nTx fun _ mem => narrowed.chain ▸ mem
  · intro a mem
    rw [narrowed.chain] at mem
    rw [core.nChainTx]
    exact ⟨active a mem, (sound.selected.active a mem).2⟩
  · intro a listed failed'
    rw [core.known] at listed
    rw [core.shape.lineage]
    exact failed a listed failed'
  · intro c mem
    rw [core.nChainTx]
    exact sound.selected.linked c (narrowed.fewer c mem)
  · intro c mem
    rw [narrowed.belowTip]
    exact sound.selected.best c (narrowed.fewer c mem)
  · intro a listed link good best
    rw [core.known] at listed
    rw [core.nChainTx] at link
    rw [narrowed.belowTip] at best
    have sane : (tree.entry a).failed = false := by
      rw [← Bool.not_eq_true]
      intro failed
      rw [narrowed.failed a failed] at good
      cases good
    exact kept a (sound.selected.all a listed link sane best) good

variable {pindexTest : UInt256} {above : List UInt256}
section
variable (failed : (tree.entry pindexTest).failed = true)
include failed

lemma dropBranch_eq :
    tree.dropBranch pindexTest above = (tree.change above BlockEntry.setFailedChild).eraseCandidates (pindexTest :: above) := by
  rw [dropBranch, if_pos failed]

lemma narrowed_dropBranch : Narrowed tree (tree.dropBranch pindexTest above) := by
  rw [dropBranch_eq failed]
  refine ⟨?_, rfl, fun _ mem => mem_of_mem_filter mem, ?_⟩
  · have same : SameButFlags tree (tree.change above BlockEntry.setFailedChild) := tree.sameButFlags_change _ fun _ => rfl
    exact ⟨rfl, same.entry, rfl⟩
  · intro a failed
    change (if a ∈ above then (tree.entry a).setFailedChild else tree.entry a).failed = true
    split
    · exact Bool.or_true _
    · exact failed
end
section
variable (sound : Consistent tree)
include sound

lemma Consistent.dropBranch (failed : (tree.entry pindexTest).failed = true) (held : pindexTest ∈ tree.mapBlockIndex)
    (descend : ∀ a ∈ above, a ∈ tree.mapBlockIndex ∧ a ∉ tree.chainActive ∧ pindexTest ∈ tree.lineage a) :
    Consistent (tree.dropBranch pindexTest above) := by
  have narrowed : Narrowed tree (tree.dropBranch pindexTest above) := narrowed_dropBranch failed
  have entry : ∀ a, (tree.dropBranch pindexTest above).entry a = if a ∈ above then (tree.entry a).setFailedChild else tree.entry a := by
    intro a
    rw [dropBranch_eq failed]
    rfl
  have invalid : ∀ a, ((tree.dropBranch pindexTest above).entry a).fFailedValid = (tree.entry a).fFailedValid := by
    intro a
    rw [entry]
    split <;> rfl
  apply sound.narrow narrowed (sound.formed.dropBranch _ fun a mem => (descend a mem).1)
  · intro a mem
    have apart : a ∉ above := fun listed => (descend a listed).2.1 mem
    rw [entry, if_neg apart]
    exact (sound.selected.active a mem).1
  · intro a listed failed'
    by_cases marked : a ∈ above
    · obtain ⟨b, mem, first⟩ := sound.selected.failed _ held failed
      refine ⟨b, sound.formed.graded.mem_trans listed (descend a marked).2.2 mem, ?_⟩
      rw [invalid]
      exact first
    · rw [entry, if_neg marked] at failed'
      obtain ⟨b, mem, first⟩ := sound.selected.failed a listed failed'
      refine ⟨b, mem, ?_⟩
      rw [invalid]
      exact first
  · intro c mem good
    rw [dropBranch_eq failed]
    apply mem_filter.mpr ⟨mem, _⟩
    rw [decide_eq_true_eq, mem_cons, not_or]
    constructor
    · rintro rfl
      rw [narrowed.failed c failed] at good
      cases good
    · intro marked
      rw [entry, if_pos marked] at good
      simp [BlockEntry.failed, BlockEntry.setFailedChild] at good

lemma Consistent.dropBest {pindexNew rest} (best : tree.bestCandidate = some pindexNew)
    (bad : (tree.offChain pindexNew).dropWhile tree.usable = pindexTest :: rest) :
    Consistent (tree.dropBranch pindexTest ((tree.offChain pindexNew).takeWhile tree.usable)) ∧
      Narrowed tree (tree.dropBranch pindexTest ((tree.offChain pindexNew).takeWhile tree.usable)) ∧
      (tree.dropBranch pindexTest ((tree.offChain pindexNew).takeWhile tree.usable)).setBlockIndexCandidates.length <
        tree.setBlockIndexCandidates.length := by
  have candidate := (tree.bestCandidate_spec best).1
  have listed := sound.formed.candidates _ candidate
  obtain ⟨held, unusable, descend, -⟩ := sound.formed.stopsAt listed bad
  have failed : (tree.entry pindexTest).failed = true := by
    have data := sound.data_of_linked held.2.1 (sound.linked_of_mem listed (sound.selected.linked _ candidate) held.1)
    simpa [usable, data] using unusable
  refine ⟨sound.dropBranch failed held.2.1 descend, narrowed_dropBranch failed, sound.formed.length_dropBest best bad⟩

lemma Consistent.findMostWorkChain {fuel} (enough : tree.setBlockIndexCandidates.length < fuel) :
    ∃ m tree', findMostWorkChain fuel tree = (some m, tree') ∧ Consistent tree' ∧ Narrowed tree tree' ∧
      m ∈ tree'.setBlockIndexCandidates ∧ (∀ c ∈ tree'.setBlockIndexCandidates, tree'.rank c ≤ tree'.rank m) ∧
      ∀ a ∈ tree'.offChain m, tree'.usable a = true := by
  induction fuel generalizing tree with
  | zero => omega
  | succ fuel ih =>
    unfold findMostWorkChain
    cases best : tree.bestCandidate with
    | none =>
      obtain ⟨tip, -, top, -⟩ := sound.formed.exists_tip
      have mem := sound.tip_candidate top
      rw [tree.bestCandidate_none best] at mem
      cases mem
    | some m =>
      cases bad : (tree.offChain m).dropWhile tree.usable with
      | nil =>
        obtain ⟨mem, most⟩ := tree.bestCandidate_spec best
        simp only [bad]
        exact ⟨m, _, rfl, sound, Narrowed.refl _, mem, most, dropWhile_eq_nil_iff.mp bad⟩
      | cons pindexTest rest =>
        obtain ⟨sound', narrowed, fewer⟩ := sound.dropBest best bad
        obtain ⟨m', tree', found, final, narrowed', rest⟩ := ih sound' (by omega)
        simp only [bad]
        exact ⟨m', _, found, final, narrowed.trans narrowed', rest⟩
end

/-- The tip is on its way: what may be compared to it is what was a candidate before. -/
structure Switching (old tree : BlockTree) : Prop where
  formed : WellFormed tree
  core : SameCore old tree
  unlinked : tree.mapBlocksUnlinked = old.mapBlocksUnlinked
  levelled : Levelled tree
  active : ∀ a ∈ tree.chainActive, (tree.entry a).failed = false ∧ (tree.entry a).nChainTx ≠ 0
  failed : ∀ a ∈ tree.mapBlockIndex, (tree.entry a).failed = true → ∃ b ∈ tree.lineage a, (tree.entry b).fFailedValid = true
  grows : ∀ a, (old.entry a).failed = true → (tree.entry a).failed = true
  fewer : ∀ c ∈ tree.setBlockIndexCandidates, c ∈ old.setBlockIndexCandidates
  kept : ∀ c ∈ old.setBlockIndexCandidates, (tree.entry c).failed = false → tree.belowTip c = false → c ∈ tree.setBlockIndexCandidates

lemma Switching.consistent {old oldTip tip} (switching : Switching old tree) (sound : Consistent old)
    (pre : old.tip = some oldTip) (after : tree.tip = some tip) (better : old.rank oldTip ≤ old.rank tip)
    (pruned : ∀ c ∈ tree.setBlockIndexCandidates, tree.belowTip c = false) : Consistent tree := by
  have core := switching.core
  refine ⟨switching.formed, sound.counted.of_sameCore core switching.unlinked, switching.levelled, switching.active, switching.failed,
    ?_, pruned, ?_⟩
  · intro c mem
    rw [core.nChainTx]
    exact sound.selected.linked c (switching.fewer c mem)
  · intro a listed link good best
    have sane : (old.entry a).failed = false := by
      rw [← Bool.not_eq_true]
      intro failed
      rw [switching.grows a failed] at good
      cases good
    have candidate : a ∈ old.setBlockIndexCandidates := by
      rw [core.known] at listed
      rw [core.nChainTx] at link
      apply sound.selected.all a listed link sane
      rw [not_belowTip_iff pre]
      rw [not_belowTip_iff after, core.rank, core.rank] at best
      exact better.trans best
    exact switching.kept a candidate good best

variable {old : BlockTree} {m : UInt256} {path : List UInt256}
lemma entry_connectTip_of_ne {a} (other : a ≠ h) : (tree.connectTip h).entry a = tree.entry a := Function.update_of_ne other _ _
lemma entry_connectTip : (tree.connectTip h).entry h = (tree.entry h).raiseValidity BLOCK_VALID_SCRIPTS := Function.update_self _ _ _
lemma sameCore_connectTip (tree h) : SameCore tree (tree.connectTip h) := by
  have same : SameCore tree (tree.modify h fun pindex => pindex.raiseValidity BLOCK_VALID_SCRIPTS) :=
    sameCore_modify fun pindex => BlockEntry.core_raiseValidity _ _
  exact ⟨rfl, same.core⟩

lemma failed_connectTip (a) : ((tree.connectTip h).entry a).failed = (tree.entry a).failed := by
  by_cases self : a = h
  · rw [self, entry_connectTip, BlockEntry.failed_raiseValidity]
  · rw [entry_connectTip_of_ne self]

lemma Levelled.connectTip (levelled : Levelled tree) (good : (tree.entry h).failed = false) (full : (tree.entry h).nTx ≠ 0)
    {tip} (up : (tree.entry h).pprev = some tip) (top : tip ∈ tree.chainActive) : Levelled (tree.connectTip h) := by
  have core := sameCore_connectTip tree h
  have raised : ∀ a, (tree.entry a).nValid ≤ ((tree.connectTip h).entry a).nValid := by
    intro a
    by_cases self : a = h
    · rw [self, entry_connectTip, BlockEntry.nValid_raiseValidity good]
      exact Nat.le_max_left _ _
    · rw [entry_connectTip_of_ne self]
  have own : ((tree.connectTip h).entry h).nValid = max (tree.entry h).nValid BLOCK_VALID_SCRIPTS := by
    rw [entry_connectTip, BlockEntry.nValid_raiseValidity good]
  constructor
  · intro a listed
    exact (levelled.valid a listed).trans (raised a)
  · intro a listed
    by_cases self : a = h
    · rw [self, own, core.nTx]
      exact iff_of_true (le_max_of_le_right (by decide)) full
    · rw [entry_connectTip_of_ne self]
      exact levelled.transactions a listed
  · intro a p listed line n chain run
    rw [core.pprev] at line ⊢
    have old : n ≤ (tree.entry a).nValid → (tree.entry p).pprev = none ∨ n ≤ ((tree.connectTip h).entry p).nValid := by
      intro run
      exact (levelled.inherited a p listed line n chain run).imp_right fun below => below.trans (raised p)
    by_cases self : a = h
    · rw [self, own] at run
      rw [self] at line old
      rcases le_max_iff.mp run with run | scripts
      · exact old run
      · cases up.symm.trans line
        exact (levelled.active _ top).imp_right fun below => (scripts.trans below).trans (raised _)
    · rw [entry_connectTip_of_ne self] at run
      exact old run
  · intro a mem
    rw [core.pprev]
    rcases mem_cons.mp mem with rfl | mem
    · rw [own]
      exact .inr (Nat.le_max_right _ _)
    · exact (levelled.active a mem).imp_right fun below => below.trans (raised a)

lemma Switching.connect (switching : Switching old tree) (sound : Consistent old) (held : m ∈ tree.mapBlockIndex)
    (leads : tree.Leads (h :: path) m) (good : (tree.entry h).failed = false) (link : (old.entry h).nChainTx ≠ 0) :
    Switching old (tree.connectTip h).pruneBlockIndexCandidates ∧
      (∀ c ∈ (tree.connectTip h).pruneBlockIndexCandidates.setBlockIndexCandidates,
        (tree.connectTip h).pruneBlockIndexCandidates.belowTip c = false) ∧
      ∃ tip, tree.tip = some tip ∧ old.rank tip < old.rank h := by
  obtain ⟨listed, -, -, -, tip, top, up⟩ := switching.formed.leads_cons held leads
  have core := switching.core
  have listed' := core.known ▸ listed
  have climbs : old.rank tip < old.rank h := by
    apply old.rank_lt_of_work
    exact sound.counted.work h _ listed' ((core.pprev h).symm.trans up)
  refine ⟨?_, fun c mem => ?_, _, top, climbs⟩
  · constructor
    · exact (switching.formed.connectTip held leads).1.pruneBlockIndexCandidates
    · exact core.trans ⟨rfl, (sameCore_connectTip _ h).core⟩
    · exact switching.unlinked
    · have full : (tree.entry h).nTx ≠ 0 := by
        rw [core.nTx, ← sound.counted.data h listed']
        exact sound.data_of_linked listed' link
      have levelled := switching.levelled.connectTip good full up (Linking.tip_active top)
      exact levelled.congr ⟨rfl, fun _ => rfl, fun _ => rfl⟩ (fun _ => rfl) (fun _ => rfl) fun _ mem => mem
    · intro a mem
      change ((tree.connectTip h).entry a).failed = false ∧ ((tree.connectTip h).entry a).nChainTx ≠ 0
      rw [failed_connectTip, (sameCore_connectTip _ h).nChainTx]
      rcases mem_cons.mp mem with rfl | mem
      · rw [core.nChainTx]
        exact ⟨good, link⟩
      · exact switching.active a mem
    · intro a listed failed
      obtain ⟨b, mem, invalid⟩ := switching.failed a listed ((failed_connectTip a).symm.trans failed)
      refine ⟨b, ?_, ?_⟩
      · rw [← (sameCore_connectTip _ h).shape.lineage] at mem
        exact mem
      · change ((tree.connectTip h).entry b).fFailedValid = true
        by_cases self : b = h
        · simpa [self, entry_connectTip, BlockEntry.fFailedValid_raiseValidity] using invalid
        · rw [entry_connectTip_of_ne self]
          exact invalid
    · intro a failed
      exact (failed_connectTip a).trans (switching.grows a failed)
    · exact fun c mem => switching.fewer c (mem_of_mem_filter mem)
    · intro c mem unfailed' best
      have best' : (tree.connectTip h).belowTip c = false := best
      apply mem_filter.mpr
      refine ⟨?_, ?_⟩
      · apply switching.kept c mem ((failed_connectTip c).symm.trans unfailed')
        rw [not_belowTip_iff top, core.rank, core.rank]
        have top' : (tree.connectTip h).tip = some h := rfl
        rw [not_belowTip_iff top', (sameCore_connectTip _ h).rank, (sameCore_connectTip _ h).rank, core.rank, core.rank] at best'
        exact climbs.le.trans best'
      · rw [best']
        rfl
  · have best := (mem_filter.mp mem).2
    rw [Bool.not_eq_true'] at best
    exact best

lemma entry_invalidBlockFound_of_ne {a} (other : a ≠ h) : (tree.invalidBlockFound h).entry a = tree.entry a :=
  Function.update_of_ne other _ _

lemma entry_invalidBlockFound : (tree.invalidBlockFound h).entry h = (tree.entry h).setFailedValid := Function.update_self _ _ _
lemma narrowed_invalidBlockFound (tree h) : Narrowed tree (tree.invalidBlockFound h) := by
  refine ⟨?_, rfl, fun _ mem => mem_of_mem_filter mem, ?_⟩
  · have same : SameButFlags tree (tree.modify h BlockEntry.setFailedValid) := tree.sameButFlags_modify h fun _ => rfl
    exact ⟨rfl, same.entry, rfl⟩
  · intro a failed
    by_cases self : a = h
    · rw [self, entry_invalidBlockFound]
      exact Bool.true_or _
    · rw [entry_invalidBlockFound_of_ne self]
      exact failed

lemma failed_invalidBlockFound {a} (failed : ((tree.invalidBlockFound h).entry a).failed = true) :
    a = h ∨ (tree.entry a).failed = true := by
  by_cases self : a = h
  · exact .inl self
  · rw [entry_invalidBlockFound_of_ne self] at failed
    exact .inr failed

lemma fFailedValid_invalidBlockFound (a) :
    ((tree.invalidBlockFound h).entry a).fFailedValid = true ↔ a = h ∨ (tree.entry a).fFailedValid = true := by
  by_cases self : a = h
  · rw [self, entry_invalidBlockFound]
    simp [BlockEntry.setFailedValid]
  · rw [entry_invalidBlockFound_of_ne self]
    simp [self]

lemma Switching.invalid (switching : Switching old tree) (held : m ∈ tree.mapBlockIndex) (leads : tree.Leads (h :: path) m) :
    Switching old (tree.invalidBlockFound h) := by
  obtain ⟨listed, -, off, -⟩ := switching.formed.leads_cons held leads
  have narrowed := narrowed_invalidBlockFound tree h
  have core := narrowed.same.core
  constructor
  · exact switching.formed.invalidBlockFound h
  · exact switching.core.trans core
  · exact narrowed.same.unlinked.trans switching.unlinked
  · exact switching.levelled.congr core.shape narrowed.same.nValid core.nTx fun _ mem => mem
  · intro a mem
    have other : a ≠ h := fun self => off (self ▸ mem)
    rw [entry_invalidBlockFound_of_ne other]
    exact switching.active a mem
  · intro a known failed
    rw [core.shape.lineage]
    rcases failed_invalidBlockFound failed with rfl | failed
    · exact ⟨a, switching.formed.graded.self_mem listed, (fFailedValid_invalidBlockFound a).mpr (Or.inl rfl)⟩
    · obtain ⟨b, mem, first⟩ := switching.failed a known failed
      exact ⟨b, mem, (fFailedValid_invalidBlockFound b).mpr (Or.inr first)⟩
  · exact fun a failed => narrowed.failed a (switching.grows a failed)
  · exact fun c mem => switching.fewer c (narrowed.fewer c mem)
  · intro c mem good best
    have other : c ≠ h := by
      rintro rfl
      rw [entry_invalidBlockFound] at good
      simp [BlockEntry.failed, BlockEntry.setFailedValid] at good
    rw [entry_invalidBlockFound_of_ne other] at good
    rw [narrowed.belowTip] at best
    apply mem_filter.mpr ⟨switching.kept c mem good best, _⟩
    simpa using other

/-- The tip is at least as good as the old one, and no candidate is worse. -/
structure Landed (old tree : BlockTree) : Prop where
  switching : Switching old tree
  better : ∃ oldTip tip, old.tip = some oldTip ∧ tree.tip = some tip ∧ old.rank oldTip ≤ old.rank tip
  pruned : ∀ c ∈ tree.setBlockIndexCandidates, tree.belowTip c = false

lemma Landed.consistent (landed : Landed old tree) (sound : Consistent old) : Consistent tree := by
  obtain ⟨oldTip, tip, pre, after, better⟩ := landed.better
  exact landed.switching.consistent sound pre after better landed.pruned

lemma Landed.connectBlocks (calls pindexOldTip) (sound : Consistent old) (landed : Landed old tree)
    (held : m ∈ tree.mapBlockIndex) (leads : tree.Leads path m)
    (usable : ∀ a ∈ path, (tree.entry a).failed = false ∧ (old.entry a).nChainTx ≠ 0) :
    Landed old (connectBlocks calls pindexOldTip path tree).2 := by
  induction path generalizing tree with
  | nil => exact landed
  | cons h path ih =>
    obtain ⟨switching, pruned, tip, top, climbs⟩ := landed.switching.connect sound held leads (usable h (by simp)).1 (usable h (by simp)).2
    have conn : Landed old (tree.connectTip h).pruneBlockIndexCandidates := by
      obtain ⟨oldTip, tip', pre, after, better⟩ := landed.better
      cases top.symm.trans after
      exact ⟨switching, ⟨_, h, pre, rfl, better.trans climbs.le⟩, pruned⟩
    unfold connectBlocks
    split
    · dsimp only
      split
      · exact conn
      · apply ih conn held
        · exact (landed.switching.formed.connectTip held leads).2
        · intro a mem
          change ((tree.connectTip h).entry a).failed = false ∧ _
          rw [failed_connectTip]
          exact usable a (by simp [mem])
    · refine ⟨landed.switching.invalid held leads, landed.better, ?_⟩
      intro c mem
      have narrowed := narrowed_invalidBlockFound tree h
      rw [narrowed.belowTip]
      exact landed.pruned c (narrowed.fewer c mem)
    · exact landed
    · exact landed

lemma Switching.connectBlocks (calls) {oldTip} (sound : Consistent old) (switching : Switching old tree)
    (held : m ∈ tree.mapBlockIndex) (leads : tree.Leads path m) (pre : old.tip = some oldTip) (better : old.rank oldTip ≤ old.rank m)
    (usable : ∀ a ∈ path, (tree.entry a).failed = false ∧ (old.entry a).nChainTx ≠ 0)
    (conn : ∀ a ∈ path, calls.connects a = .connected) (some : path ≠ []) :
    Landed old (connectBlocks calls old.tip path tree).2 := by
  induction path generalizing tree with
  | nil => exact absurd rfl some
  | cons h path ih =>
    obtain ⟨switching', pruned, -⟩ := switching.connect sound held leads (usable h (by simp)).1 (usable h (by simp)).2
    have leads' : (tree.connectTip h).pruneBlockIndexCandidates.Leads path m := (switching.formed.connectTip held leads).2
    unfold connectBlocks
    rw [conn h (by simp)]
    dsimp only
    split
    · next more =>
      refine ⟨switching', ⟨_, h, pre, rfl, ?_⟩, pruned⟩
      rw [pre, Option.all_some, decide_eq_true_eq, switching'.core.nChainWork, switching'.core.nChainWork] at more
      exact (old.rank_lt_of_work more).le
    · cases path with
      | nil =>
        refine ⟨switching', ⟨_, m, pre, ?_, better⟩, pruned⟩
        obtain ⟨rest, line⟩ := switching'.formed.lineage_eq_cons (h := m) held
        have whole : (tree.connectTip h).pruneBlockIndexCandidates.chainActive = _ := leads'
        change (tree.connectTip h).pruneBlockIndexCandidates.chainActive.head? = _
        rw [whole, line]
        rfl
      | cons next path =>
        apply ih switching' held leads'
        · intro a mem
          change ((tree.connectTip h).entry a).failed = false ∧ _
          rw [failed_connectTip]
          exact usable a (mem_cons_of_mem _ mem)
        · exact fun a mem => conn a (mem_cons_of_mem _ mem)
        · exact cons_ne_nil _ _

def TipCalls.Reaches (calls : TipCalls) (tree : BlockTree) (m : UInt256) : Prop :=
  (∃ tip, tree.tip = some tip ∧ tip ∈ tree.lineage m) ∨
    (∀ a ∈ tree.chainActive, a ∉ tree.lineage m → calls.disconnects a = true) ∧
      ∀ a ∈ tree.lineage m, a ∉ tree.chainActive → calls.connects a = .connected

lemma WellFormed.mem_lineage_fork (wf : WellFormed tree) {fork m a} (held : m ∈ tree.mapBlockIndex)
    (found : tree.findFork m = some fork) (active : a ∈ tree.chainActive) (mem : a ∈ tree.lineage m) : a ∈ tree.lineage fork := by
  obtain ⟨fork', found', -, -, split⟩ := wf.exists_fork held
  cases found.symm.trans found'
  rw [split] at mem
  exact (mem_append.mp mem).resolve_left fun off => (wf.mem_offChain held off).2.2 active

lemma WellFormed.fork_of_extends (wf : WellFormed tree) {tip fork m} (held : m ∈ tree.mapBlockIndex) (top : tree.tip = some tip)
    (ahead : tip ∈ tree.lineage m) (found : tree.findFork m = some fork) : fork = tip := by
  obtain ⟨fork', found', shared, listed, -⟩ := wf.exists_fork held
  cases found.symm.trans found'
  have below := wf.mem_lineage_fork held found (mem_of_head? top) ahead
  obtain ⟨tip', known, top', chain⟩ := wf.exists_tip
  cases top.symm.trans top'
  rw [chain] at shared
  exact wf.graded.antisymm listed known shared below

section
variable {calls : TipCalls} {m : UInt256} (sound : Consistent tree) (candidate : m ∈ tree.setBlockIndexCandidates)
include sound

lemma switching_of_disconnected {rest} (formed : WellFormed { tree with chainActive := rest })
    (shorter : ∀ a ∈ rest, a ∈ tree.chainActive) : Switching tree { tree with chainActive := rest } where
  formed := formed
  core := ⟨rfl, fun _ => rfl⟩
  unlinked := rfl
  levelled := sound.levelled.congr ⟨rfl, fun _ => rfl, fun _ => rfl⟩ (fun _ => rfl) (fun _ => rfl) shorter
  active a mem := sound.selected.active a (shorter a mem)
  failed := sound.selected.failed
  grows _ failed := failed
  fewer _ mem := mem
  kept _ mem _ _ := mem

include candidate

lemma disconnectTo_of_reaches (reaches : calls.Reaches tree m) {fork} (found : tree.findFork m = some fork) :
    (disconnectTo calls (some fork) tree.chainActive.length tree).1 = true := by
  have held := sound.formed.candidates m candidate
  obtain ⟨fork', found', shared, listed, -⟩ := sound.formed.exists_fork held
  cases found.symm.trans found'
  obtain ⟨above, rest, split, apart, all, run, -, stops⟩ := sound.formed.disconnectTo_spec _ _ shared (Nat.le_refl _)
  rw [← Bool.not_eq_false]
  intro stopped
  obtain ⟨a, head, other, bad⟩ := stops stopped
  obtain ⟨tip, known, top, chain⟩ := sound.formed.exists_tip
  obtain ⟨more, line⟩ : ∃ more, rest = a :: more := by
    cases rest with
    | nil => cases head
    | cons b more =>
      cases head
      exact ⟨_, rfl⟩
  have active : a ∈ tree.chainActive := by
    rw [split, line]
    simp
  have within := chain ▸ active
  have knownA := sound.active_mem active
  -- the fork is on the line of every block above it
  have ahead : fork ∈ tree.lineage a := by
    have whole : above ++ a :: more = tree.lineage tip := by
      rw [← line, ← split]
      exact chain
    have own : a :: more = tree.lineage a := sound.formed.graded.eq_lineage_of_append known whole
    rw [← own, ← line]
    rw [split] at shared
    exact (mem_append.mp shared).resolve_left apart
  rcases reaches with ⟨tip', top', extending⟩ | ⟨disc, -⟩
  · cases top.symm.trans top'
    cases sound.formed.fork_of_extends held top extending found
    exact other (sound.formed.graded.antisymm knownA known within ahead)
  · have off : a ∉ tree.lineage m := by
      intro mem
      have below := sound.formed.mem_lineage_fork held found active mem
      exact other (sound.formed.graded.antisymm knownA listed below ahead)
    rw [disc a active off] at bad
    cases bad

lemma Consistent.activateBestChainStep (best : ∀ c ∈ tree.setBlockIndexCandidates, tree.rank c ≤ tree.rank m)
    (usable : ∀ a ∈ tree.offChain m, tree.usable a = true) (apart : tree.tip ≠ some m) (reaches : calls.Reaches tree m) :
    Consistent (tree.activateBestChainStep calls m).2 := by
  have held := sound.formed.candidates m candidate
  obtain ⟨fork, found, shared, listed, split⟩ := sound.formed.exists_fork held
  obtain ⟨tip, known, top, chain⟩ := sound.formed.exists_tip
  have done := disconnectTo_of_reaches sound candidate reaches found
  have formed := sound.formed.disconnectTo calls (some fork) tree.chainActive.length
  have leads := sound.formed.leads_of_disconnected calls held
  rw [found] at leads
  obtain ⟨above, rest, cut, out, -, run, stops, -⟩ := sound.formed.disconnectTo_spec _ _ shared (Nat.le_refl _)
  have pair : disconnectTo calls (some fork) tree.chainActive.length tree = (true, { tree with chainActive := rest }) :=
    Prod.ext done run
  rw [pair] at formed leads
  have usable' : ∀ a ∈ (tree.offChain m).reverse, (tree.entry a).failed = false ∧ (tree.entry a).nChainTx ≠ 0 := by
    intro a mem
    rw [mem_reverse] at mem
    have sane := usable a mem
    rw [BlockTree.usable, Bool.and_eq_true, Bool.not_eq_true'] at sane
    have line := (sound.formed.mem_offChain held mem).1
    exact ⟨sane.1, sound.linked_of_mem held (sound.selected.linked m candidate) line⟩
  have switching := switching_of_disconnected sound formed fun a mem => by
    rw [cut]
    exact mem_append_right _ mem
  have better := best _ (sound.tip_candidate top)
  unfold BlockTree.activateBestChainStep
  rw [found, pair]
  rcases reaches with ⟨tip', top', extending⟩ | ⟨-, conn⟩
  · -- nothing was disconnected
    cases top.symm.trans top'
    cases sound.formed.fork_of_extends held top extending found
    have landed : Landed tree { tree with chainActive := rest } := by
      refine ⟨switching, ⟨_, _, top, stops done, le_refl _⟩, ?_⟩
      intro c mem
      have after : tip { tree with chainActive := rest } = some fork := stops done
      exact (not_belowTip_iff after c).mpr ((not_belowTip_iff top c).mp (sound.selected.best c mem))
    exact (landed.connectBlocks _ _ sound held (leads rfl) usable').consistent sound
  · have branch : (tree.offChain m).reverse ≠ [] := by
      intro empty
      rw [reverse_eq_nil_iff] at empty
      rw [empty, nil_append] at split
      -- a candidate that is active is the tip
      have active : m ∈ tree.lineage tip := by
        rw [← chain]
        have mem : m ∈ tree.lineage fork := split ▸ sound.formed.graded.self_mem held
        rw [chain] at shared ⊢
        exact sound.formed.graded.mem_trans known shared mem
      rcases sound.work_of_mem known active with self | less
      · exact apart (self ▸ top)
      · exact absurd (tree.rank_lt_of_work less) (not_lt.mpr better)
    have conn' : ∀ a ∈ (tree.offChain m).reverse, calls.connects a = .connected := by
      intro a mem
      rw [mem_reverse] at mem
      obtain ⟨line, -, off⟩ := sound.formed.mem_offChain held mem
      exact conn a line off
    exact (switching.connectBlocks _ sound held (leads rfl) top better usable' conn' branch).consistent sound
end

lemma Consistent.activateBestChain {calls} (sound : Consistent tree)
    (reaches : ∀ c ∈ tree.setBlockIndexCandidates, (∀ a ∈ tree.offChain c, tree.usable a = true) → calls.Reaches tree c) :
    Consistent (tree.activateBestChain calls).2 := by
  obtain ⟨m, tree', found, sound', narrowed, candidate, best, usable⟩ := sound.findMostWorkChain (Nat.lt_succ_self _)
  have shape := narrowed.same.core.shape
  unfold BlockTree.activateBestChain
  rw [found]
  dsimp only
  split
  · exact sound'
  · next apart =>
    apply sound'.activateBestChainStep candidate best usable apart
    -- what the search left usable was usable before it
    have pre : calls.Reaches tree m := by
      apply reaches m (narrowed.fewer m candidate)
      intro a mem
      have mem' : a ∈ tree'.offChain m := by simpa [offChain, shape.lineage, narrowed.chain] using mem
      have now := usable a mem'
      rw [BlockTree.usable, Bool.and_eq_true, narrowed.same.core.fHaveData] at now
      rw [BlockTree.usable, now.2, Bool.and_true, Bool.not_eq_true', ← Bool.not_eq_true]
      intro failed
      rw [narrowed.failed a failed] at now
      cases now.1
    simpa only [TipCalls.Reaches, tip, narrowed.chain, shape.lineage] using pre

end Peony
