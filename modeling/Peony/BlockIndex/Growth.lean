import Peony.BlockIndex.Invariant

namespace Peony
open BlockTree List
variable {tree : BlockTree} {h : UInt256}

section
variable {header : HeaderCall} (sound : Consistent tree) (fresh : header.hash ∉ tree.mapBlockIndex)
  (parent : header.hashPrevBlock ∈ tree.mapBlockIndex)

lemma entry_fresh (parent : header.hashPrevBlock ∈ tree.mapBlockIndex) : (tree.addToBlockIndex header).entry header.hash =
    { pprev := some header.hashPrevBlock, nHeight := (tree.entry header.hashPrevBlock).nHeight + 1,
      nChainWork := (tree.entry header.hashPrevBlock).nChainWork + header.nProof, nTx := 0, nChainTx := 0, nSequenceId := 0,
      nValid := BLOCK_VALID_TREE, fHaveData := false, fFailedValid := false, fFailedChild := false } := by
  simp [addToBlockIndex, parent]

include sound fresh parent

lemma counted_addToBlockIndex (work : 0 < header.nProof) : Counted [] (tree.addToBlockIndex header) := by
  have old := fun a => WellFormed.entry_addToBlockIndex fresh (a := a)
  have up : ∀ a p, a ∈ tree.mapBlockIndex → (tree.entry a).pprev = some p → p ∈ tree.mapBlockIndex :=
    fun a p held up => (sound.formed.graded.up held up).1
  constructor
  · intro a p held line
    rcases mem_cons.mp held with rfl | held
    · rw [entry_fresh parent] at line ⊢
      cases line
      rw [old _ parent]
      exact Nat.lt_add_of_pos_right work
    · rw [old a held] at line ⊢
      rw [old p (up a p held line)]
      exact sound.counted.work a p held line
  · intro a held
    rcases mem_cons.mp held with rfl | held
    · simp [entry_fresh parent]
    · rw [old a held]
      exact sound.counted.data a held
  · intro a held out
    rcases mem_cons.mp held with rfl | held
    · simp [entry_fresh parent]
    · rw [old a held, sound.counted.linked a held out]
      refine and_congr_right fun _ => forall₂_congr fun p line => ?_
      rw [old p (up a p held line)]
  · exact fun a queued => absurd queued not_mem_nil
  · exact nodup_nil
  · intro a held
    rcases mem_cons.mp held with rfl | held
    · simp [entry_fresh parent]
    · rw [old a held]
      exact sound.counted.sequence a held
  · intro p a waits
    rw [old a (sound.formed.unlinked _ waits)]
    exact sound.counted.waits p a waits
  · intro a p held
    rcases mem_cons.mp held with rfl | held
    · simp [entry_fresh parent]
    · rw [old a held]
      exact sound.counted.waiting a p held
  · exact sound.counted.waitsOnce

lemma levelled_addToBlockIndex : Levelled (tree.addToBlockIndex header) := by
  have old := fun a => WellFormed.entry_addToBlockIndex fresh (a := a)
  constructor
  · intro a held
    rcases mem_cons.mp held with rfl | held
    · rw [entry_fresh parent]
    · rw [old a held]
      exact sound.levelled.valid a held
  · intro a held
    rcases mem_cons.mp held with rfl | held
    · simp [entry_fresh parent, BLOCK_VALID_TREE, BLOCK_VALID_TRANSACTIONS]
    · rw [old a held]
      exact sound.levelled.transactions a held
  · intro a p held line n chain run
    rcases mem_cons.mp held with rfl | held
    · rw [entry_fresh parent] at run
      have low : BLOCK_VALID_CHAIN ≤ BLOCK_VALID_TREE := chain.trans run
      exact absurd low (by decide)
    · rw [old a held] at line run
      rw [old p (sound.formed.graded.up held line).1]
      exact sound.levelled.inherited a p held line n chain run
  · intro a mem
    rw [old a (sound.active_mem mem)]
    exact sound.levelled.active a mem

lemma selected_addToBlockIndex : Selected (tree.addToBlockIndex header) := by
  have old := fun a => WellFormed.entry_addToBlockIndex fresh (a := a)
  have rank : ∀ a ∈ tree.mapBlockIndex, (tree.addToBlockIndex header).rank a = tree.rank a := by
    intro a held
    rw [rank, old a held, rank]
  have below : ∀ a ∈ tree.mapBlockIndex, (tree.addToBlockIndex header).belowTip a = tree.belowTip a := by
    intro a held
    obtain ⟨tip, top, head, -⟩ := sound.formed.exists_tip
    have head' : (tree.addToBlockIndex header).tip = some tip := head
    rw [Bool.eq_iff_iff, belowTip_iff head', belowTip_iff head, rank a held, rank _ top]
  constructor
  · intro a mem
    rw [old a (sound.active_mem mem)]
    exact sound.selected.active a mem
  · intro a held failed
    rcases mem_cons.mp held with rfl | held
    · simp [entry_fresh parent, BlockEntry.failed] at failed
    · rw [old a held] at failed
      obtain ⟨b, mem, invalid⟩ := sound.selected.failed a held failed
      refine ⟨b, ?_, ?_⟩
      · rw [sound.formed.lineage_addToBlockIndex fresh held]
        exact mem
      · rw [old b (sound.formed.graded.known_of_mem held mem)]
        exact invalid
  · intro c mem
    rw [old c (sound.formed.candidates c mem)]
    exact sound.selected.linked c mem
  · intro c mem
    rw [below c (sound.formed.candidates c mem)]
    exact sound.selected.best c mem
  · intro a held link unfailed best
    rcases mem_cons.mp held with rfl | held
    · simp [entry_fresh parent] at link
    · rw [old a held] at link unfailed
      rw [below a held] at best
      exact sound.selected.all a held link unfailed best
end

lemma Consistent.acceptBlockHeader (sound : Consistent tree) (nMaxReorgDepth : Int) {header} (work : 0 < header.nProof) :
    Consistent (tree.acceptBlockHeader nMaxReorgDepth header).2 := by
  unfold BlockTree.acceptBlockHeader
  split_ifs with listed _ parent
  · exact sound
  · exact sound
  · exact sound
  · exact sound
  · exact ⟨sound.formed.addToBlockIndex listed parent, counted_addToBlockIndex sound listed parent work,
      levelled_addToBlockIndex sound listed parent, selected_addToBlockIndex sound listed parent⟩
  · exact sound

section
variable (nTx : Nat) (sound : Consistent tree) (held : h ∈ tree.mapBlockIndex) (missing : (tree.entry h).fHaveData = false)
lemma entry_storeData_of_ne {a} (other : a ≠ h) : (tree.storeData h nTx).entry a = tree.entry a :=
  entry_modify_of_ne other _

include sound held missing

omit nTx in
lemma not_linked_of_missing : (tree.entry h).nChainTx = 0 := by
  by_contra link
  rw [sound.data_of_linked held link] at missing
  cases missing

omit nTx in
lemma not_active_of_missing {a} (mem : a ∈ tree.chainActive) : a ≠ h := by
  rintro rfl
  exact (sound.selected.active a mem).2 (not_linked_of_missing sound held missing)

omit nTx in
lemma low_of_missing : ¬ BLOCK_VALID_TRANSACTIONS ≤ (tree.entry h).nValid := by
  rw [sound.levelled.transactions h held, ← sound.counted.data h held, missing]
  simp

variable (unfailed : (tree.entry h).failed = false)
include unfailed

lemma entry_storeData : (tree.storeData h nTx).entry h =
    { tree.entry h with nTx, fHaveData := true, nValid := BLOCK_VALID_TRANSACTIONS } := by
  have low := low_of_missing sound held missing
  have unlinked := not_linked_of_missing sound held missing
  have flags : { tree.entry h with nTx, nChainTx := 0, fHaveData := true }.failed = (tree.entry h).failed := rfl
  rw [storeData, entry_modify_self, BlockEntry.raiseValidity, flags, unfailed, if_neg (by simp),
    if_pos (Nat.lt_of_not_le low), ← unlinked]

lemma levelled_storeData (some : nTx ≠ 0) : Levelled (tree.storeData h nTx) := by
  have own := entry_storeData nTx sound held missing unfailed
  constructor
  · intro a listed
    by_cases self : a = h
    · rw [self, own]
      exact Nat.le_succ _
    · rw [entry_storeData_of_ne _ self]
      exact sound.levelled.valid a listed
  · intro a listed
    by_cases self : a = h
    · grind
    · rw [entry_storeData_of_ne _ self]
      exact sound.levelled.transactions a listed
  · intro a p listed line n chain run
    by_cases self : a = h
    · rw [self, own] at run
      have high : BLOCK_VALID_CHAIN ≤ BLOCK_VALID_TRANSACTIONS := chain.trans run
      exact absurd high (by decide)
    · rw [entry_storeData_of_ne _ self] at line run
      have above := sound.levelled.inherited a p listed line n chain run
      by_cases self' : p = h
      · rw [self'] at above
        rw [self', own]
        rcases above with top | reached'
        · exact .inl top
        · exact absurd (Nat.le_trans (by decide) (chain.trans reached')) (low_of_missing sound held missing)
      · rw [entry_storeData_of_ne _ self']
        exact above
  · intro a mem
    rw [entry_storeData_of_ne _ (not_active_of_missing sound held missing mem)]
    exact sound.levelled.active a mem

lemma selected_storeData : Selected (tree.storeData h nTx) := by
  have own := entry_storeData nTx sound held missing unfailed
  apply sound.selected.congr (sameShape_storeData _ h _) rfl rfl <;> intro a <;> by_cases self : a = h
  · rw [self, own]
    rfl
  · rw [entry_storeData_of_ne _ self]
  · rw [self, own]
  · rw [entry_storeData_of_ne _ self]
  · rw [self, own]
  · rw [entry_storeData_of_ne _ self]
  · rw [rank, self, own]
    rfl
  · rw [rank, entry_storeData_of_ne _ self]
    rfl

lemma kept_storeData (a) : ((tree.storeData h nTx).entry a).nChainTx = (tree.entry a).nChainTx ∧
      ((tree.storeData h nTx).entry a).nChainWork = (tree.entry a).nChainWork ∧
      ((tree.storeData h nTx).entry a).nSequenceId = (tree.entry a).nSequenceId := by
  by_cases self : a = h
  · simp [self, entry_storeData _ sound held missing unfailed]
  · simp [entry_storeData_of_ne _ self]

lemma counted_storeData (full : nTx ≠ 0) {queue unlinked} (single : queue.Nodup) (once : unlinked.Nodup) (only : ∀ a ∈ queue, a = h)
    (ready : h ∈ queue → ∀ p, (tree.entry h).pprev = some p → (tree.entry p).nChainTx ≠ 0)
    (waits : h ∉ queue → ∃ p, (tree.entry h).pprev = some p ∧ (tree.entry p).nChainTx = 0)
    (pairs : ∀ p a, (p, a) ∈ unlinked ↔ (p, a) ∈ tree.mapBlocksUnlinked ∨ (a = h ∧ h ∉ queue ∧ (tree.entry h).pprev = some p)) :
    Counted queue { tree.storeData h nTx with mapBlocksUnlinked := unlinked } := by
  have own := entry_storeData nTx sound held missing unfailed
  have old : ∀ a, a ≠ h → (tree.storeData h nTx).entry a = tree.entry a := fun a other => entry_storeData_of_ne _ other
  have unlinked := not_linked_of_missing sound held missing
  have shape := sameShape_storeData tree h nTx
  have link : ∀ a, ((tree.storeData h nTx).entry a).nChainTx = (tree.entry a).nChainTx :=
    fun a => (kept_storeData _ sound held missing unfailed a).1
  have aside : ∀ a, a ≠ h → a ∉ queue := fun a other mem => other (only a mem)
  constructor
  · intro a p listed line
    rw [(kept_storeData _ sound held missing unfailed p).2.1, (kept_storeData _ sound held missing unfailed a).2.1]
    exact sound.counted.work a p listed ((shape.pprev a).symm.trans line)
  · intro a listed
    by_cases self : a = h
    · rw [self, own]
      simpa using full
    · simpa [old a self] using sound.counted.data a listed
  · intro a listed out
    by_cases self : a = h
    · rw [self] at out ⊢
      obtain ⟨p, line, below⟩ := waits out
      refine iff_of_false (fun above => above ((link h).trans unlinked)) ?_
      exact fun complete => complete.2 p ((shape.pprev h).trans line) ((link p).trans below)
    · simp only [link]
      rw [old a self]
      exact sound.counted.linked a listed not_mem_nil
  · intro a mem
    have self := only a mem
    rw [self] at mem ⊢
    refine ⟨held, (link h).trans unlinked, ?_, ?_⟩
    · exact congrArg _ own
    · intro p line below
      exact ready mem p ((shape.pprev h).symm.trans line) ((link p).symm.trans below)
  · exact single
  · intro a listed low
    rw [(kept_storeData _ sound held missing unfailed a).2.2]
    exact sound.counted.sequence a listed ((link a).symm.trans low)
  · intro p a mem
    rcases (pairs p a).mp mem with waited | ⟨rfl, out, line⟩
    · obtain ⟨line, data, low, -⟩ := sound.counted.waits p a waited
      have other : a ≠ h := by
        rintro rfl
        rw [data] at missing
        cases missing
      refine ⟨(shape.pprev a).trans line, ?_, (link a).trans low, aside a other⟩
      rw [← data]
      exact congrArg _ (old a other)
    · exact ⟨(shape.pprev a).trans line, congrArg _ own, (link a).trans unlinked, out⟩
  · intro a p listed line data low out
    apply (pairs p a).mpr
    by_cases self : a = h
    · subst self
      exact .inr ⟨rfl, out, (shape.pprev a).symm.trans line⟩
    · apply Or.inl
      apply sound.counted.waiting a p listed ((shape.pprev a).symm.trans line) _ ((link a).symm.trans low) not_mem_nil
      exact (congrArg _ (old a self)).symm.trans data
  · exact once
end

lemma mem_waitingFor {a} : a ∈ tree.waitingFor h ↔ (h, a) ∈ tree.mapBlocksUnlinked := by simp [waitingFor]

section
variable {queue : List UInt256} (linking : Linking (h :: queue) tree) {a : UInt256}
lemma entry_countBlock_of_ne (other : a ≠ h) : (tree.countBlock h).entry a = tree.entry a :=
  Function.update_of_ne other _ _

lemma entry_countBlock : (tree.countBlock h).entry h = { tree.entry h with
    nChainTx := ((tree.entry h).pprev.elim 0 fun p => (tree.entry p).nChainTx) + (tree.entry h).nTx
    nSequenceId := tree.nBlockSequenceId } := Function.update_self _ _ _

lemma kept_countBlock (a) : ((tree.countBlock h).entry a).nChainWork = (tree.entry a).nChainWork ∧
    ((tree.countBlock h).entry a).nTx = (tree.entry a).nTx ∧ ((tree.countBlock h).entry a).fHaveData = (tree.entry a).fHaveData := by
  by_cases self : a = h
  · simp [self, entry_countBlock]
  · simp [entry_countBlock_of_ne self]

include linking

lemma linked_countBlock : ((tree.countBlock h).entry h).nChainTx ≠ 0 := by
  obtain ⟨held, -, data, -⟩ := linking.counted.queued h (by simp)
  have full := (linking.counted.data h held).mp data
  rw [entry_countBlock]
  change _ + (tree.entry h).nTx ≠ 0
  omega

lemma linked_countBlock_of {p} (above : (tree.entry p).nChainTx ≠ 0) : ((tree.countBlock h).entry p).nChainTx ≠ 0 := by
  by_cases self : p = h
  · rw [self]
    exact linked_countBlock linking
  · rw [entry_countBlock_of_ne self]
    exact above

lemma linked_countBlock_iff (listed : a ∈ tree.mapBlockIndex) (out : a ∉ queue ++ tree.waitingFor h) :
    ((tree.countBlock h).entry a).nChainTx ≠ 0 ↔ ((tree.countBlock h).entry a).fHaveData = true ∧
      ∀ p, ((tree.countBlock h).entry a).pprev = some p → ((tree.countBlock h).entry p).nChainTx ≠ 0 := by
  have cnt := linking.counted
  obtain ⟨held, unlinked, data, parents⟩ := cnt.queued h (by simp)
  simp only [mem_append, not_or, mem_waitingFor] at out
  rw [(sameShape_countBlock _ h).pprev, (kept_countBlock a).2.2]
  by_cases self : a = h
  · rw [self]
    exact iff_of_true (linked_countBlock linking) ⟨data, fun p line => linked_countBlock_of linking (parents p line)⟩
  · have pre := cnt.linked a listed (by simp [self, out.1])
    rw [entry_countBlock_of_ne self, pre]
    refine and_congr_right fun full => ⟨fun above p line => linked_countBlock_of linking (above p line), ?_⟩
    intro above p line low
    -- only the parent that has just been linked could differ, and then `a` waited for it
    by_cases parent : p = h
    · apply out.2
      rw [parent] at line
      have unlinkedA : (tree.entry a).nChainTx = 0 := by
        by_contra linkedA
        exact (pre.mp linkedA).2 h line unlinked
      exact cnt.waiting a h listed line full unlinkedA (by simp [self, out.1])
    · have above' := above p line
      rw [entry_countBlock_of_ne parent] at above'
      exact above' low

lemma queued_countBlock (mem : a ∈ queue ++ tree.waitingFor h) :
    a ∈ tree.mapBlockIndex ∧ ((tree.countBlock h).entry a).nChainTx = 0 ∧ ((tree.countBlock h).entry a).fHaveData = true ∧
      ∀ p, ((tree.countBlock h).entry a).pprev = some p → ((tree.countBlock h).entry p).nChainTx ≠ 0 := by
  have cnt := linking.counted
  rcases mem_append.mp mem with queued | waiting
  · obtain ⟨listed, low, full, above⟩ := cnt.queued a (by simp [queued])
    have other : a ≠ h := by
      rintro rfl
      exact (nodup_cons.mp cnt.queuedOnce).1 queued
    rw [entry_countBlock_of_ne other]
    exact ⟨listed, low, full, fun p line => linked_countBlock_of linking (above p line)⟩
  · rw [mem_waitingFor] at waiting
    obtain ⟨line, full, low, out⟩ := cnt.waits h a waiting
    have other : a ≠ h := fun self => out (by simp [self])
    rw [entry_countBlock_of_ne other]
    refine ⟨linking.formed.unlinked _ waiting, low, full, ?_⟩
    intro p line'
    cases line.symm.trans line'
    exact linked_countBlock linking

lemma nodup_countBlock : (queue ++ tree.waitingFor h).Nodup := by
  have cnt := linking.counted
  apply List.Nodup.append (nodup_cons.mp cnt.queuedOnce).2
  · apply List.Nodup.map_on _ (cnt.waitsOnce.filter _)
    rintro ⟨p, a⟩ first ⟨q, b⟩ snd equal
    have own : p = h := by simpa using (mem_filter.mp first).2
    have own' : q = h := by simpa using (mem_filter.mp snd).2
    rw [own, own']
    exact congrArg _ equal
  · intro a mem waits
    rw [mem_waitingFor] at waits
    exact (cnt.waits h a waits).2.2.2 (by simp [mem])

lemma counted_countBlock : Counted (queue ++ tree.waitingFor h) (tree.countBlock h) := by
  have cnt := linking.counted
  have shape := sameShape_countBlock tree h
  have now := linked_countBlock linking
  constructor
  · intro a p listed line
    rw [(kept_countBlock a).1, (kept_countBlock p).1]
    exact cnt.work a p listed ((shape.pprev a).symm.trans line)
  · intro a listed
    rw [(kept_countBlock a).2.1, (kept_countBlock a).2.2]
    exact cnt.data a listed
  · exact fun a listed out => linked_countBlock_iff linking listed out
  · exact fun a mem => queued_countBlock linking mem
  · exact nodup_countBlock linking
  · intro a listed low
    by_cases self : a = h
    · rw [self] at low
      exact absurd low now
    · rw [entry_countBlock_of_ne self] at low ⊢
      exact cnt.sequence a listed low
  · intro p a mem
    obtain ⟨mem, apart⟩ := mem_filter.mp mem
    obtain ⟨line, full, low, out⟩ := cnt.waits p a mem
    have other : a ≠ h := fun self => out (by simp [self])
    rw [entry_countBlock_of_ne other]
    refine ⟨line, full, low, ?_⟩
    simp only [mem_append, not_or, mem_waitingFor]
    refine ⟨fun queued => out (by simp [queued]), fun waits => ?_⟩
    have parent : p = h := Option.some.inj (line.symm.trans (cnt.waits h a waits).1)
    simp [parent] at apart
  · intro a p listed line full low out
    simp only [mem_append, not_or, mem_waitingFor] at out
    rw [shape.pprev] at line
    rw [(kept_countBlock a).2.2] at full
    have other : a ≠ h := by
      rintro rfl
      exact now low
    rw [entry_countBlock_of_ne other] at low
    have waits := cnt.waiting a p listed line full low (by simp [other, out.1])
    apply mem_filter.mpr ⟨waits, _⟩
    have parent : p ≠ h := by
      rintro rfl
      exact out.2 waits
    simpa using parent
  · exact cnt.waitsOnce.filter _

lemma levelled_countBlock : Levelled (tree.countBlock h) := by
  apply linking.levelled.congr (sameShape_countBlock _ h) _ _ (fun _ mem => mem) <;> intro a <;> by_cases self : a = h
  · rw [self, entry_countBlock]
  · rw [entry_countBlock_of_ne self]
  · rw [self, entry_countBlock]
  · rw [entry_countBlock_of_ne self]

lemma belowTip_countBlock (other : a ≠ h) : (tree.countBlock h).belowTip a = tree.belowTip a := by
  obtain ⟨tip, -, top, chain⟩ := linking.formed.exists_tip
  have apart : tip ≠ h := by
    rintro rfl
    exact (linking.selected.active _ (Linking.tip_active top)).2 (linking.counted.queued _ (by simp)).2.1
  have top' : (tree.countBlock h).tip = some tip := top
  have rank : ∀ b, b ≠ h → (tree.countBlock h).rank b = tree.rank b := by
    intro b other
    rw [rank, entry_countBlock_of_ne other, rank]
  rw [Bool.eq_iff_iff, belowTip_iff top', belowTip_iff top, rank a other, rank _ apart]

omit linking in
lemma mem_linkBlock {a} : a ∈ (tree.linkBlock h).setBlockIndexCandidates ↔
    a ∈ tree.setBlockIndexCandidates ∨ (a = h ∧ (tree.countBlock h).belowTip h = false) := by
  have same : (tree.countBlock h).setBlockIndexCandidates = tree.setBlockIndexCandidates := rfl
  unfold linkBlock
  split
  · next below =>
    rw [same, below]
    simp
  · next best =>
    rw [Bool.not_eq_true] at best
    rw [best, insertCandidate, same]
    simp [or_comm]

omit linking in
lemma linkBlock_eq {tree : BlockTree} (h) : ∃ candidates, tree.linkBlock h =
    { tree.countBlock h with setBlockIndexCandidates := candidates } := by
  unfold linkBlock
  split
  · exact ⟨_, rfl⟩
  · exact ⟨_, rfl⟩

lemma selected_linkBlock : Selected (tree.linkBlock h) := by
  have sel := linking.selected
  obtain ⟨held, unlinked, -, -⟩ := linking.counted.queued h (by simp)
  have now := linked_countBlock linking
  have shape := sameShape_countBlock tree h
  have old : ∀ a, a ≠ h → (tree.countBlock h).entry a = tree.entry a := fun a other => entry_countBlock_of_ne other
  have flags : ∀ a, ((tree.countBlock h).entry a).failed = (tree.entry a).failed ∧
      ((tree.countBlock h).entry a).fFailedValid = (tree.entry a).fFailedValid := by
    intro a
    by_cases self : a = h
    · rw [self, entry_countBlock]
      exact ⟨rfl, rfl⟩
    · simp [old a self]
  have apart : ∀ a, (tree.entry a).nChainTx ≠ 0 → a ≠ h := by
    rintro a above rfl
    exact above unlinked
  have cand : ∀ a, a ∈ (tree.linkBlock h).setBlockIndexCandidates → a ≠ h → a ∈ tree.setBlockIndexCandidates := by
    intro a mem other
    exact (mem_linkBlock.mp mem).resolve_right fun self => other self.1
  have choose : ∀ a, a ∈ (tree.linkBlock h).setBlockIndexCandidates ↔ _ := fun a => mem_linkBlock
  obtain ⟨candidates, line⟩ := linkBlock_eq h
  rw [line] at choose cand ⊢
  constructor
  · intro a mem
    obtain ⟨unfailed, above⟩ := sel.active a mem
    rw [old a (apart a above)]
    exact ⟨unfailed, above⟩
  · intro a listed failed
    obtain ⟨b, mem, invalid⟩ := sel.failed a listed ((flags a).1.symm.trans failed)
    refine ⟨b, ?_, (flags b).2.trans invalid⟩
    rw [← shape.lineage] at mem
    exact mem
  · intro a mem
    by_cases self : a = h
    · rw [self]
      exact now
    · simpa [old a self] using sel.linked a (cand a mem self)
  · intro a mem
    by_cases self : a = h
    · rw [self] at mem ⊢
      rcases (choose h).mp mem with mem | ⟨-, best⟩
      · exact absurd unlinked (sel.linked h mem)
      · exact best
    · change (tree.countBlock h).belowTip a = false
      rw [belowTip_countBlock linking self]
      exact sel.best a (cand a mem self)
  · intro a listed above unfailed best
    apply (choose a).mpr
    by_cases self : a = h
    · rw [self] at best ⊢
      exact .inr ⟨rfl, best⟩
    · apply Or.inl
      change (tree.countBlock h).belowTip a = false at best
      rw [old a self] at above unfailed
      rw [belowTip_countBlock linking self] at best
      exact sel.all a listed above unfailed best

lemma linking_linkBlock : Linking (queue ++ tree.waitingFor h) (tree.linkBlock h) := by
  have held := (linking.counted.queued h (by simp)).1
  have cnt := counted_countBlock linking
  have levelled := levelled_countBlock linking
  refine ⟨linking.formed.linkBlock held, ?_, ?_, selected_linkBlock linking⟩
  · obtain ⟨candidates, line⟩ := linkBlock_eq h
    rw [line]
    exact cnt.of_sameCore ⟨rfl, fun _ => rfl⟩ rfl
  · obtain ⟨candidates, line⟩ := linkBlock_eq h
    rw [line]
    exact levelled.congr ⟨rfl, fun _ => rfl, fun _ => rfl⟩ (fun _ => rfl) (fun _ => rfl) fun _ mem => mem
end

lemma consistent_linkQueue {fuel : Nat} {queue} (linking : Linking queue tree)
    (enough : queue.length + tree.mapBlocksUnlinked.length ≤ fuel) : Consistent (linkQueue fuel queue tree) := by
  induction fuel generalizing queue tree with
  | zero =>
    have empty : queue = [] := eq_nil_of_length_eq_zero (by omega)
    rw [empty] at linking
    exact linking
  | succ fuel ih =>
    cases queue with
    | nil => exact linking
    | cons h queue =>
      apply ih (linking_linkBlock linking)
      have fewer : (tree.linkBlock h).mapBlocksUnlinked.length + (tree.waitingFor h).length = tree.mapBlocksUnlinked.length := by
        obtain ⟨candidates, line⟩ := linkBlock_eq h
        rw [line, waitingFor, length_map]
        change (tree.mapBlocksUnlinked.filter fun pair => decide _).length + _ = _
        have split : tree.mapBlocksUnlinked.length = _ := length_eq_length_filter_add fun pair => decide (pair.1 = h)
        simp only [decide_not] at split ⊢
        omega
      simp only [length_cons, length_append] at enough ⊢
      omega

lemma Consistent.receivedBlockTransactions (sound : Consistent tree) {nTx} (held : h ∈ tree.mapBlockIndex)
    (missing : (tree.entry h).fHaveData = false) (unfailed : (tree.entry h).failed = false) (full : nTx ≠ 0)
    (parent : ∀ p, (tree.entry h).pprev = some p → (tree.entry p).nChainTx ≠ 0 ∨ (tree.entry p).failed = false) :
    Consistent (tree.receivedBlockTransactions h nTx) := by
  have wf := sound.formed.storeData h nTx
  have levelled := levelled_storeData _ sound held missing unfailed full
  have sel := selected_storeData nTx sound held missing unfailed
  have shape := sameShape_storeData tree h nTx
  -- if the parent is linked, or there is none, the queue starts with the block
  have start : (∀ p, (tree.entry h).pprev = some p → (tree.entry p).nChainTx ≠ 0) → Linking [h] (tree.storeData h nTx) := by
    intro ready
    refine ⟨wf, ?_, levelled, sel⟩
    apply counted_storeData _ sound held missing unfailed full (nodup_singleton h) sound.counted.waitsOnce
    · simp
    · exact fun _ => ready
    · exact fun out => absurd (mem_singleton_self h) out
    · simp
  have enough : [h].length + (tree.storeData h nTx).mapBlocksUnlinked.length ≤ (tree.storeData h nTx).mapBlocksUnlinked.length + 1 := by
    rw [length_singleton, Nat.add_comm]
  unfold BlockTree.receivedBlockTransactions
  dsimp only
  split
  · next top =>
    apply consistent_linkQueue (start _) enough
    intro p line
    cases top.symm.trans ((shape.pprev h).trans line)
  · next p line =>
    have up : (tree.entry h).pprev = some p := (shape.pprev h).symm.trans line
    have other : p ≠ h := by
      rintro rfl
      have above := (sound.formed.graded.up held up).2
      omega
    have same : (tree.storeData h nTx).entry p = tree.entry p := entry_storeData_of_ne _ other
    rw [same]
    split
    · next link =>
      apply consistent_linkQueue (start _) enough
      intro q line'
      cases up.symm.trans line'
      exact link
    · next low =>
      rw [not_not] at low
      have valid : (tree.entry p).isValid BLOCK_VALID_TREE = true := by
        have tree := sound.levelled.valid p (sound.formed.graded.up held up).1
        have sane := (parent p up).resolve_left fun link => link low
        simp [BlockEntry.isValid, sane, tree]
      rw [if_pos valid]
      have outside : (p, h) ∉ tree.mapBlocksUnlinked := by
        intro waits
        rw [(sound.counted.waits p h waits).2.1] at missing
        cases missing
      refine ⟨?_, ?_, ?_, ?_⟩
      · have whole := sound.formed.receivedBlockTransactions held nTx
        simpa only [BlockTree.receivedBlockTransactions, line, same, low, ne_eq, not_true_eq_false, if_false, valid, if_true] using whole
      · apply counted_storeData _ sound held missing unfailed full nodup_nil
        · exact nodup_cons.mpr ⟨outside, sound.counted.waitsOnce⟩
        · simp
        · exact fun mem => absurd mem not_mem_nil
        · exact fun _ => ⟨p, up, low⟩
        · intro q a
          simp only [mem_cons, Prod.mk.injEq, not_mem_nil, not_false_eq_true, true_and, up, Option.some.injEq]
          constructor
          · rintro (⟨rfl, rfl⟩ | mem)
            · exact .inr ⟨rfl, rfl⟩
            · exact .inl mem
          · rintro (mem | ⟨rfl, rfl⟩)
            · exact .inr mem
            · exact .inl ⟨rfl, rfl⟩
      · exact levelled.congr ⟨rfl, fun _ => rfl, fun _ => rfl⟩ (fun _ => rfl) (fun _ => rfl) fun _ mem => mem
      · exact sel.congr ⟨rfl, fun _ => rfl, fun _ => rfl⟩ rfl rfl (fun _ => rfl) (fun _ => rfl) (fun _ => rfl) fun _ => rfl

end Peony
