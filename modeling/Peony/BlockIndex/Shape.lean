import Mathlib.Data.List.TakeWhile
import Mathlib.Tactic.SplitIfs
import Peony.BlockIndex.Tree

/-! What every call keeps, whatever it is given and however it ends: the parent pointers form one tree, the active chain is a
line of it, and the two sets list entries of the index. -/

namespace Peony
open BlockEntry OrderDual

namespace BlockTree
variable (tree : BlockTree)

def rank (h : UInt256) : Nat ×ₗ (Natᵒᵈ ×ₗ Natᵒᵈ) :=
  toLex ((tree.entry h).nChainWork, toLex (toDual (tree.entry h).nSequenceId, toDual h.toNat))

lemma workComparator_iff (a b) : tree.workComparator a b = true ↔ tree.rank a < tree.rank b := by
  simp only [workComparator, rank, Prod.Lex.toLex_lt_toLex, toDual_lt_toDual, toDual_inj, BitVec.lt_def, gt_iff_lt]
  split_ifs <;> simp <;> omega

lemma rank_injective {a b} (same : tree.rank a = tree.rank b) : a = b := by
  have addresses : a.toNat = b.toNat := congrArg (fun rank => ofDual (ofLex (ofLex rank).2).2) same
  exact BitVec.eq_of_toNat_eq addresses

lemma rank_lt_of_work {a b} (less : (tree.entry a).nChainWork < (tree.entry b).nChainWork) : tree.rank a < tree.rank b :=
  Prod.Lex.toLex_lt_toLex.mpr (Or.inl less)

section
variable {tree : BlockTree} {tip : UInt256} (top : tree.tip = some tip) (h : UInt256)
include top

lemma belowTip_iff : tree.belowTip h = true ↔ tree.rank h < tree.rank tip := by rw [belowTip, top, Option.any_some, workComparator_iff]
lemma not_belowTip_iff : tree.belowTip h = false ↔ tree.rank tip ≤ tree.rank h := by rw [← Bool.not_eq_true, belowTip_iff top, not_lt]
end

lemma bestCandidate_eq : tree.bestCandidate = Newest.newest tree.rank none tree.setBlockIndexCandidates := by
  unfold bestCandidate Newest.newest
  congr 1
  funext best c
  cases best with
  | none => rfl
  | some b => simp only [Newest.keep, workComparator_iff]

lemma bestCandidate_spec {h} (found : tree.bestCandidate = some h) :
    h ∈ tree.setBlockIndexCandidates ∧ ∀ c ∈ tree.setBlockIndexCandidates, tree.rank c ≤ tree.rank h := by
  rw [bestCandidate_eq] at found
  rcases Newest.newest_spec tree.rank _ with ⟨-, empty⟩ | ⟨kept, held, latest⟩
  · cases found.symm.trans empty
  · cases found.symm.trans held
    exact latest

lemma bestCandidate_none (found : tree.bestCandidate = none) : tree.setBlockIndexCandidates = [] := by
  rw [bestCandidate_eq] at found
  rcases Newest.newest_spec tree.rank _ with ⟨empty, -⟩ | ⟨kept, held, -⟩
  · exact empty
  · cases found.symm.trans held

end BlockTree

structure SameShape (tree tree' : BlockTree) : Prop where
  known : tree'.mapBlockIndex = tree.mapBlockIndex
  pprev : ∀ h, (tree'.entry h).pprev = (tree.entry h).pprev
  nHeight : ∀ h, (tree'.entry h).nHeight = (tree.entry h).nHeight

structure SameCore (tree tree' : BlockTree) : Prop where
  known : tree'.mapBlockIndex = tree.mapBlockIndex
  core : ∀ h, (tree'.entry h).core = (tree.entry h).core

namespace SameShape
variable {tree tree' : BlockTree}
lemma lineage (same : SameShape tree tree') (h) : tree'.lineage h = tree.lineage h := by
  unfold BlockTree.lineage
  rw [funext same.pprev, funext same.nHeight]

end SameShape

namespace SameCore
variable {tree tree' tree'' : BlockTree} (same : SameCore tree tree')
lemma refl (tree) : SameCore tree tree := ⟨rfl, fun _ => rfl⟩

lemma trans (first : SameCore tree tree') (snd : SameCore tree' tree'') : SameCore tree tree'' where
  known := snd.known.trans first.known
  core h := (snd.core h).trans (first.core h)

include same

section
variable (h : UInt256)
include h

lemma pprev : (tree'.entry h).pprev = (tree.entry h).pprev := (core_eq_iff.mp (same.core h)).1
lemma nHeight : (tree'.entry h).nHeight = (tree.entry h).nHeight := (core_eq_iff.mp (same.core h)).2.1

lemma nChainWork : (tree'.entry h).nChainWork = (tree.entry h).nChainWork :=
  (core_eq_iff.mp (same.core h)).2.2.1

lemma nTx : (tree'.entry h).nTx = (tree.entry h).nTx := (core_eq_iff.mp (same.core h)).2.2.2.1

lemma nChainTx : (tree'.entry h).nChainTx = (tree.entry h).nChainTx :=
  (core_eq_iff.mp (same.core h)).2.2.2.2.1

lemma nSequenceId : (tree'.entry h).nSequenceId = (tree.entry h).nSequenceId :=
  (core_eq_iff.mp (same.core h)).2.2.2.2.2.1

lemma fHaveData : (tree'.entry h).fHaveData = (tree.entry h).fHaveData :=
  (core_eq_iff.mp (same.core h)).2.2.2.2.2.2
end

lemma shape : SameShape tree tree' := ⟨same.known, same.pprev, same.nHeight⟩
lemma rank (h) : tree'.rank h = tree.rank h := by simp [BlockTree.rank, same.nChainWork, same.nSequenceId]

end SameCore

namespace BlockTree
variable {tree : BlockTree} {h : UInt256} {change : BlockEntry → BlockEntry}
lemma sameShape_modify (pprev : ∀ pindex, (change pindex).pprev = pindex.pprev)
    (nHeight : ∀ pindex, (change pindex).nHeight = pindex.nHeight) : SameShape tree (tree.modify h change) := by
  refine ⟨rfl, ?_, ?_⟩ <;> intro a <;> by_cases own : a = h <;> simp [modify, own, pprev, nHeight]

section
variable (tree : BlockTree) (h : UInt256)
lemma sameShape_storeData (nTx : Nat) : SameShape tree (tree.storeData h nTx) := by
  apply sameShape_modify
  · exact fun _ => (core_eq_iff.mp (core_raiseValidity _ _)).1
  · exact fun _ => (core_eq_iff.mp (core_raiseValidity _ _)).2.1

lemma sameShape_countBlock : SameShape tree (tree.countBlock h) := by
  refine ⟨rfl, ?_, ?_⟩ <;> intro a <;> by_cases own : a = h <;> simp [countBlock, modify, own]
end

lemma sameCore_modify (core : ∀ pindex, (change pindex).core = pindex.core) : SameCore tree (tree.modify h change) := by
  refine ⟨rfl, ?_⟩
  intro a
  by_cases own : a = h <;> simp [modify, own, core]

lemma sameCore_change {hs} (core : ∀ pindex, (change pindex).core = pindex.core) :
    SameCore tree (tree.change hs change) := by
  refine ⟨rfl, ?_⟩
  intro a
  by_cases listed : a ∈ hs <;> simp [BlockTree.change, listed, core]

lemma entry_modify_self (tree : BlockTree) (h) (change) :
    (tree.modify h change).entry h = change (tree.entry h) := Function.update_self h _ _

lemma entry_modify_of_ne {a} (other : a ≠ h) (change : BlockEntry → BlockEntry) :
    (tree.modify h change).entry a = tree.entry a := Function.update_of_ne other _ _

end BlockTree

def BlockTree.Leads (tree : BlockTree) (path : List UInt256) (m : UInt256) : Prop := path.reverse ++ tree.chainActive = tree.lineage m

structure WellFormed (tree : BlockTree) : Prop where
  graded : Lineage.Graded (· ∈ tree.mapBlockIndex) (fun h => (tree.entry h).pprev) (fun h => (tree.entry h).nHeight)
  root : ∀ a b, a ∈ tree.mapBlockIndex → b ∈ tree.mapBlockIndex → (tree.entry a).pprev = none → (tree.entry b).pprev = none → a = b
  chain : ∃ tip ∈ tree.mapBlockIndex, tree.chainActive = tree.lineage tip
  candidates : ∀ c ∈ tree.setBlockIndexCandidates, c ∈ tree.mapBlockIndex
  unlinked : ∀ pair ∈ tree.mapBlocksUnlinked, pair.2 ∈ tree.mapBlockIndex

namespace WellFormed
open BlockTree List
variable {tree tree' : BlockTree} {h : UInt256}
section
variable (formed : WellFormed tree)
include formed

lemma lineage_eq_cons (held : h ∈ tree.mapBlockIndex) : ∃ rest, tree.lineage h = h :: rest := by
  cases up : (tree.entry h).pprev with
  | none => exact ⟨[], formed.graded.lineage_root held up⟩
  | some p => exact ⟨_, formed.graded.lineage_up held up⟩

lemma exists_tip : ∃ tip ∈ tree.mapBlockIndex, tree.tip = some tip ∧ tree.chainActive = tree.lineage tip := by
  obtain ⟨tip, held, chain⟩ := formed.chain
  obtain ⟨rest, line⟩ := formed.lineage_eq_cons held
  refine ⟨_, held, ?_, chain⟩
  rw [BlockTree.tip, chain, line]
  rfl

lemma of_sameShape (same : SameShape tree tree') (chain : ∃ tip ∈ tree.mapBlockIndex, tree'.chainActive = tree.lineage tip)
    (candidates : ∀ c ∈ tree'.setBlockIndexCandidates, c ∈ tree.mapBlockIndex)
    (unlinked : ∀ pair ∈ tree'.mapBlocksUnlinked, pair.2 ∈ tree.mapBlockIndex) : WellFormed tree' where
  graded := by
    rw [same.known, funext same.pprev, funext same.nHeight]
    exact formed.graded
  root a b := by
    rw [same.known, same.pprev, same.pprev]
    exact formed.root a b
  chain := by
    rw [same.known]
    obtain ⟨tip, held, line⟩ := chain
    exact ⟨_, held, by rw [line, same.lineage]⟩
  candidates := by
    rw [same.known]
    exact candidates
  unlinked := by
    rw [same.known]
    exact unlinked

lemma of_fewer (same : SameShape tree tree') (chain : tree'.chainActive = tree.chainActive)
    (candidates : ∀ c ∈ tree'.setBlockIndexCandidates, c ∈ tree.setBlockIndexCandidates)
    (unlinked : tree'.mapBlocksUnlinked = tree.mapBlocksUnlinked) : WellFormed tree' := by
  apply formed.of_sameShape same
  · rw [chain]
    exact formed.chain
  · exact fun c mem => formed.candidates c (candidates c mem)
  · rw [unlinked]
    exact formed.unlinked

lemma setChain (held : h ∈ tree.mapBlockIndex) : WellFormed { tree with chainActive := tree.lineage h } :=
  formed.of_sameShape ⟨rfl, fun _ => rfl, fun _ => rfl⟩ ⟨h, held, rfl⟩ formed.candidates formed.unlinked
end

lemma entry_addToBlockIndex {header} (fresh : header.hash ∉ tree.mapBlockIndex) {a}
    (held : a ∈ tree.mapBlockIndex) : (tree.addToBlockIndex header).entry a = tree.entry a := by
  have other : a ≠ header.hash := fun own => fresh (own ▸ held)
  exact Function.update_of_ne other _ _

section
variable (formed : WellFormed tree)
include formed

section
variable {header : HeaderCall} (fresh : header.hash ∉ tree.mapBlockIndex)
include fresh

lemma lineage_addToBlockIndex {a}
    (held : a ∈ tree.mapBlockIndex) : (tree.addToBlockIndex header).lineage a = tree.lineage a := by
  apply formed.graded.lineage_congr _ _ held <;> intro b held <;> rw [entry_addToBlockIndex fresh held]

lemma addToBlockIndex (parent : header.hashPrevBlock ∈ tree.mapBlockIndex) : WellFormed (tree.addToBlockIndex header) := by
  have old : ∀ a ∈ tree.mapBlockIndex, (tree.addToBlockIndex header).entry a = tree.entry a :=
    fun a held => entry_addToBlockIndex fresh held
  have new : ((tree.addToBlockIndex header).entry header.hash).pprev = some header.hashPrevBlock ∧
      ((tree.addToBlockIndex header).entry header.hash).nHeight = (tree.entry header.hashPrevBlock).nHeight + 1 := by
    simp [BlockTree.addToBlockIndex, parent]
  refine ⟨⟨?_, ?_⟩, ?_, ?_, ?_, ?_⟩
  · intro a p held up
    rcases mem_cons.mp held with rfl | held
    · cases new.1.symm.trans up
      rw [new.2, old _ parent]
      exact ⟨mem_cons_of_mem _ parent, rfl⟩
    · rw [old a held] at up ⊢
      obtain ⟨next, above⟩ := formed.graded.up held up
      rw [old p next]
      exact ⟨mem_cons_of_mem _ next, above⟩
  · intro a held top
    rcases mem_cons.mp held with rfl | held
    · cases new.1.symm.trans top
    · rw [old a held] at top ⊢
      exact formed.graded.root held top
  · intro a b heldA heldB topA topB
    rcases mem_cons.mp heldA with rfl | heldA
    · cases new.1.symm.trans topA
    · rcases mem_cons.mp heldB with rfl | heldB
      · cases new.1.symm.trans topB
      · rw [old a heldA] at topA
        rw [old b heldB] at topB
        exact formed.root a b heldA heldB topA topB
  · obtain ⟨tip, held, chain⟩ := formed.chain
    refine ⟨_, mem_cons_of_mem _ held, ?_⟩
    rw [formed.lineage_addToBlockIndex fresh held]
    exact chain
  · exact fun c mem => mem_cons_of_mem _ (formed.candidates c mem)
  · exact fun pair mem => mem_cons_of_mem _ (formed.unlinked _ mem)
end

lemma acceptBlockHeader (nMaxReorgDepth : Int) (header) : WellFormed (tree.acceptBlockHeader nMaxReorgDepth header).2 := by
  unfold BlockTree.acceptBlockHeader
  split_ifs with listed _ parent
  · exact formed
  · exact formed
  · exact formed
  · exact formed
  · exact formed.addToBlockIndex listed parent
  · exact formed

lemma storeData (h) (nTx : Nat) : WellFormed (tree.storeData h nTx) :=
  formed.of_fewer (sameShape_storeData _ h _) rfl (fun _ mem => mem) rfl

lemma insertCandidate (held : h ∈ tree.mapBlockIndex) : WellFormed (tree.insertCandidate h) := by
  apply formed.of_sameShape
  · exact ⟨rfl, fun _ => rfl, fun _ => rfl⟩
  · exact formed.chain
  · intro c mem
    rcases mem_insert_iff.mp mem with rfl | mem
    · exact held
    · exact formed.candidates c mem
  · exact formed.unlinked

lemma eraseCandidates (hs) : WellFormed (tree.eraseCandidates hs) :=
  formed.of_fewer ⟨rfl, fun _ => rfl, fun _ => rfl⟩ rfl (fun _ mem => mem_of_mem_filter mem) rfl

lemma change (hs) {change}
    (core : ∀ pindex, (change pindex).core = pindex.core) : WellFormed (tree.change hs change) :=
  formed.of_fewer (sameCore_change core).shape rfl (fun _ mem => mem) rfl

lemma countBlock (h) : WellFormed (tree.countBlock h) := by
  apply formed.of_sameShape
  · exact sameShape_countBlock _ h
  · exact formed.chain
  · exact formed.candidates
  · exact fun pair mem => formed.unlinked _ (mem_of_mem_filter mem)

lemma linkBlock (held : h ∈ tree.mapBlockIndex) : WellFormed (tree.linkBlock h) := by
  have ready := formed.countBlock h
  unfold BlockTree.linkBlock
  split
  · exact ready
  · exact ready.insertCandidate held
end

lemma mapBlockIndex_linkBlock (tree : BlockTree) (h) : (tree.linkBlock h).mapBlockIndex = tree.mapBlockIndex := by
  unfold BlockTree.linkBlock
  split <;> rfl

lemma linkQueue (fuel : Nat) (queue) (formed : WellFormed tree) (held : ∀ h ∈ queue, h ∈ tree.mapBlockIndex) :
    WellFormed (linkQueue fuel queue tree) := by
  induction fuel generalizing queue tree with
  | zero => exact formed
  | succ fuel ih =>
    cases queue with
    | nil => exact formed
    | cons h queue =>
      apply ih _ (formed.linkBlock (held h (by simp)))
      intro a queued
      rw [mapBlockIndex_linkBlock]
      rcases mem_append.mp queued with queued | waiting
      · exact held a (by simp [queued])
      · obtain ⟨pair, listed, rfl⟩ := mem_map.mp waiting
        exact formed.unlinked _ (mem_of_mem_filter listed)

lemma receivedBlockTransactions (formed : WellFormed tree) (held : h ∈ tree.mapBlockIndex) (nTx : Nat) :
    WellFormed (tree.receivedBlockTransactions h nTx) := by
  have stored := formed.storeData h nTx
  have start : ∀ a ∈ [h], a ∈ (tree.storeData h nTx).mapBlockIndex := by
    intro a listed
    rw [mem_singleton.mp listed]
    exact held
  unfold BlockTree.receivedBlockTransactions
  simp only
  split
  · exact stored.linkQueue _ _ start
  · split
    · exact stored.linkQueue _ _ start
    · split
      · apply stored.of_sameShape
        · exact ⟨rfl, fun _ => rfl, fun _ => rfl⟩
        · exact stored.chain
        · exact stored.candidates
        · exact forall_mem_cons.mpr ⟨held, stored.unlinked⟩
      · exact stored

section
variable (formed : WellFormed tree)
include formed

lemma mem_offChain (held : h ∈ tree.mapBlockIndex) {a} (mem : a ∈ tree.offChain h) :
    a ∈ tree.lineage h ∧ a ∈ tree.mapBlockIndex ∧ a ∉ tree.chainActive := by
  have line : a ∈ tree.lineage h := (takeWhile_sublist _).subset mem
  have off := mem_takeWhile_imp mem
  exact ⟨line, formed.graded.known_of_mem held line, by simpa using off⟩

lemma dropBranch (pindexTest) {above} (held : ∀ h ∈ above, h ∈ tree.mapBlockIndex) :
    WellFormed (tree.dropBranch pindexTest above) := by
  apply eraseCandidates
  split
  · exact formed.change _ fun _ => rfl
  · apply formed.of_sameShape
    · exact ⟨rfl, fun _ => rfl, fun _ => rfl⟩
    · exact formed.chain
    · exact formed.candidates
    · intro pair listed
      rcases mem_append.mp listed with added | listed
      · obtain ⟨h, mem, made⟩ := mem_filterMap.mp added
        obtain ⟨p, -, rfl⟩ := Option.map_eq_some_iff.mp made
        exact held h mem
      · exact formed.unlinked _ listed

lemma dropBest (best : tree.bestCandidate = some h) (pindexTest) :
    WellFormed (tree.dropBranch pindexTest ((tree.offChain h).takeWhile tree.usable)) := by
  apply formed.dropBranch
  intro a mem
  have held := formed.candidates h (tree.bestCandidate_spec best).1
  exact (formed.mem_offChain held ((takeWhile_sublist _).subset mem)).2.1
end

lemma findMostWorkChain (fuel : Nat) (formed : WellFormed tree) : WellFormed (findMostWorkChain fuel tree).2 := by
  induction fuel generalizing tree with
  | zero => exact formed
  | succ fuel ih =>
    unfold findMostWorkChain
    split
    · exact formed
    · next best =>
      split
      · exact formed
      · exact ih (formed.dropBest best _)

lemma findMostWorkChain_mem (fuel : Nat) (tree) {pindexMostWork}
    (found : (BlockTree.findMostWorkChain fuel tree).1 = some pindexMostWork) :
    pindexMostWork ∈ (BlockTree.findMostWorkChain fuel tree).2.setBlockIndexCandidates := by
  induction fuel generalizing tree with
  | zero => cases found
  | succ fuel ih =>
    cases best : tree.bestCandidate with
    | none =>
      simp only [BlockTree.findMostWorkChain, best] at found
      cases found
    | some pindexNew =>
      cases bad : (tree.offChain pindexNew).dropWhile tree.usable with
      | nil =>
        simp only [BlockTree.findMostWorkChain, best, bad] at found ⊢
        cases found
        exact (tree.bestCandidate_spec best).1
      | cons pindexTest _ =>
        simp only [BlockTree.findMostWorkChain, best, bad] at found ⊢
        exact ih _ found

lemma disconnectTip (formed : WellFormed tree) {calls} (done : tree.disconnectTip calls = some tree') :
    ∃ tip p, tree.tip = some tip ∧ calls.disconnects tip = true ∧ (tree.entry tip).pprev = some p ∧ p ∈ tree.mapBlockIndex ∧
      tree.chainActive = tip :: tree.lineage p ∧ tree' = { tree with chainActive := tree.lineage p } := by
  obtain ⟨tip, held, top, chain⟩ := formed.exists_tip
  cases up : (tree.entry _).pprev with
  | none =>
    have line : tree.lineage tip = [tip] := formed.graded.lineage_root held up
    rw [line] at chain
    simp [BlockTree.disconnectTip, chain, up] at done
  | some p =>
    have line : tree.lineage tip = tip :: tree.lineage p := formed.graded.lineage_up held up
    rw [line] at chain
    simp only [BlockTree.disconnectTip, chain, up, Option.isSome_some, Bool.and_true] at done
    split at done
    · next may =>
      cases done
      exact ⟨_, p, top, may, up, (formed.graded.up held up).1, chain, rfl⟩
    · cases done

section
variable (calls : TipCalls) (fork : Option UInt256) (fuel : Nat)
lemma disconnectTo (formed : WellFormed tree) : WellFormed (disconnectTo calls fork fuel tree).2 := by
  induction fuel generalizing tree with
  | zero => exact formed
  | succ fuel ih =>
    unfold disconnectTo
    split
    · exact formed
    · split
      · exact formed
      · next done =>
        obtain ⟨_, p, -, -, -, held, -, rfl⟩ := formed.disconnectTip done
        exact ih (formed.setChain held)

lemma mapBlockIndex_disconnectTo (tree) :
    (BlockTree.disconnectTo calls fork fuel tree).2.mapBlockIndex = tree.mapBlockIndex := by
  induction fuel generalizing tree with
  | zero => rfl
  | succ fuel ih =>
    unfold BlockTree.disconnectTo
    split
    · rfl
    · split
      · rfl
      · next done =>
        rw [ih]
        unfold BlockTree.disconnectTip at done
        split at done
        · cases done
        · split at done <;> cases done
          rfl
end

lemma disconnectTo_spec (calls) {fork} (fuel : Nat) (formed : WellFormed tree) (shared : fork ∈ tree.chainActive)
    (enough : tree.chainActive.length ≤ fuel) :
    ∃ above rest, tree.chainActive = above ++ rest ∧ fork ∉ above ∧ (∀ a ∈ above, calls.disconnects a = true) ∧
      (BlockTree.disconnectTo calls (some fork) fuel tree).2 = { tree with chainActive := rest } ∧
      ((BlockTree.disconnectTo calls (some fork) fuel tree).1 = true → rest.head? = some fork) ∧
      ((BlockTree.disconnectTo calls (some fork) fuel tree).1 = false → ∃ a, rest.head? = some a ∧ a ≠ fork ∧
        calls.disconnects a = false) := by
  induction fuel generalizing tree with
  | zero =>
    rw [eq_nil_of_length_eq_zero (Nat.le_zero.mp enough)] at shared
    cases shared
  | succ fuel ih =>
    obtain ⟨tip, held, top, chain⟩ := formed.exists_tip
    by_cases own : tip = fork
    · refine ⟨[], _, rfl, not_mem_nil, by simp, ?_⟩
      simp only [BlockTree.disconnectTo, top, own, or_true, if_true, true_and]
      refine ⟨fun _ => ?_, by simp⟩
      rw [← own]
      exact top
    · cases done : tree.disconnectTip calls with
      | none =>
        refine ⟨[], _, rfl, not_mem_nil, by simp, ?_⟩
        simp only [BlockTree.disconnectTo, top, reduceCtorEq, Option.some.injEq, own, or_self, if_false, done,
          false_imp_iff, true_and]
        refine fun _ => ⟨_, top, own, ?_⟩
        -- the genesis block is on both lines, so it is no block above the fork
        cases up : (tree.entry _).pprev with
        | none =>
          have line : tree.lineage tip = [tip] := formed.graded.lineage_root held up
          rw [chain, line, mem_singleton] at shared
          exact absurd shared.symm own
        | some p =>
          have line : tree.lineage tip = tip :: tree.lineage p := formed.graded.lineage_up held up
          simpa [BlockTree.disconnectTip, chain, line, up] using done
      | some tree' =>
        obtain ⟨tip', p, top', may, -, next, chain', rfl⟩ := formed.disconnectTip done
        cases top.symm.trans top'
        rw [chain'] at shared enough
        have below : fork ∈ tree.lineage p := (mem_cons.mp shared).resolve_left fun same => own same.symm
        obtain ⟨above, rest, split, apart, all, run, stops⟩ := ih (formed.setChain next) below (by simpa using enough)
        refine ⟨tip :: above, rest, ?_, ?_, ?_, ?_⟩
        · rw [chain', cons_append, ← split]
        · simpa using ⟨fun same => own same.symm, apart⟩
        · exact forall_mem_cons.mpr ⟨may, all⟩
        · simp only [BlockTree.disconnectTo, top, reduceCtorEq, Option.some.injEq, own, or_self, if_false, done]
          exact ⟨run, stops⟩

section
variable (formed : WellFormed tree) (held : h ∈ tree.mapBlockIndex)
include formed held

lemma exists_fork : ∃ fork, tree.findFork h = some fork ∧ fork ∈ tree.chainActive ∧ fork ∈ tree.mapBlockIndex ∧
      tree.lineage h = tree.offChain h ++ tree.lineage fork := by
  obtain ⟨tip, top, chain⟩ := formed.chain
  obtain ⟨fork, found, shared, split⟩ := formed.graded.exists_fork formed.root top held
  refine ⟨_, ?_, ?_, formed.graded.known_of_mem top shared, ?_⟩
  · rw [findFork, chain]
    exact found
  · rw [chain]
    exact shared
  · rw [offChain, chain]
    exact split

lemma stopsAt {pindexTest rest} (bad : (tree.offChain h).dropWhile tree.usable = pindexTest :: rest) :
    (pindexTest ∈ tree.lineage h ∧ pindexTest ∈ tree.mapBlockIndex ∧ pindexTest ∉ tree.chainActive) ∧ tree.usable pindexTest = false ∧
      (∀ a ∈ (tree.offChain h).takeWhile tree.usable, a ∈ tree.mapBlockIndex ∧ a ∉ tree.chainActive ∧ pindexTest ∈ tree.lineage a) ∧
      h ∈ pindexTest :: (tree.offChain h).takeWhile tree.usable := by
  have split : (tree.offChain h).takeWhile tree.usable ++ pindexTest :: rest = tree.offChain h := by
    rw [← bad, takeWhile_append_dropWhile]
  obtain ⟨after, line⟩ : ∃ after, (tree.offChain h).takeWhile _ ++ pindexTest :: (rest ++ after) = tree.lineage h := by
    obtain ⟨fork, -, -, -, whole⟩ := formed.exists_fork held
    refine ⟨tree.lineage fork, ?_⟩
    rw [whole, ← cons_append, ← append_assoc, split]
  refine ⟨?_, ?_, ?_, ?_⟩
  · apply formed.mem_offChain held
    rw [← split]
    simp
  · have head := head?_dropWhile_not tree.usable (tree.offChain h)
    rw [bad] at head
    simpa using head
  · intro a mem
    have ins : a ∈ tree.offChain h := by
      rw [← split]
      exact mem_append_left _ mem
    have off := formed.mem_offChain held ins
    exact ⟨off.2.1, off.2.2, formed.graded.mem_of_before held line mem⟩
  · -- the branch begins with the candidate itself
    obtain ⟨others, own⟩ := formed.lineage_eq_cons held
    rw [own] at line
    cases run : (tree.offChain h).takeWhile _ with
    | nil =>
      rw [run] at line
      rw [(List.cons.inj line).1]
      simp
    | cons a run' =>
      rw [run] at line
      rw [(List.cons.inj line).1]
      simp
end

lemma candidates_dropBranch (tree : BlockTree) (pindexTest) (above) :
    (tree.dropBranch pindexTest above).setBlockIndexCandidates =
      tree.setBlockIndexCandidates.filter fun c => decide (c ∉ pindexTest :: above) := by
  unfold BlockTree.dropBranch
  split <;> rfl

section
variable (formed : WellFormed tree)
include formed

lemma length_dropBest {pindexTest rest} (best : tree.bestCandidate = some h)
    (bad : (tree.offChain h).dropWhile tree.usable = pindexTest :: rest) :
    (tree.dropBranch pindexTest ((tree.offChain h).takeWhile tree.usable)).setBlockIndexCandidates.length <
      tree.setBlockIndexCandidates.length := by
  have cand := (tree.bestCandidate_spec best).1
  have first := (formed.stopsAt (formed.candidates h cand) bad).2.2.2
  rw [candidates_dropBranch]
  apply length_filter_lt_length_iff_exists.mpr
  refine ⟨h, cand, ?_⟩
  rw [decide_eq_true_eq, not_not]
  exact first

section
variable {path : List UInt256} {m : UInt256} (held : m ∈ tree.mapBlockIndex) (leads : tree.Leads (h :: path) m)
include held leads

lemma leads_cons : h ∈ tree.mapBlockIndex ∧ h ∈ tree.lineage m ∧ h ∉ tree.chainActive ∧ h :: tree.chainActive = tree.lineage h ∧
      ∃ tip, tree.tip = some tip ∧ (tree.entry h).pprev = some tip := by
  have split : path.reverse ++ h :: tree.chainActive = tree.lineage m := by
    rw [← leads]
    simp
  have line : h :: tree.chainActive = tree.lineage h := formed.graded.eq_lineage_of_append held split
  have mem : h ∈ tree.lineage m := by
    rw [← split]
    simp
  have listed : h ∈ tree.mapBlockIndex := formed.graded.known_of_mem held mem
  obtain ⟨tip, top, head, chain⟩ := formed.exists_tip
  obtain ⟨rest, own⟩ := formed.lineage_eq_cons top
  have up : (tree.entry h).pprev = some tip := by
    cases up : (tree.entry h).pprev with
    | none =>
      have alone : tree.lineage h = [h] := formed.graded.lineage_root listed up
      rw [alone, chain, own] at line
      cases line
    | some p =>
      have above : tree.lineage h = h :: tree.lineage p := formed.graded.lineage_up listed up
      obtain ⟨rest', own'⟩ := formed.lineage_eq_cons (formed.graded.up listed up).1
      rw [above, chain, own, own'] at line
      exact congrArg _ (List.cons.inj (List.cons.inj line).2).1.symm
  refine ⟨listed, mem, ?_, line, _, head, up⟩
  rw [chain]
  intro ins
  have above := (formed.graded.up listed up).2
  rcases formed.graded.height_of_mem top ins with self | below
  · rw [self] at above
    omega
  · omega

lemma connectTip : WellFormed (tree.connectTip h) ∧ (tree.connectTip h).Leads path m := by
  have shape : SameShape tree (tree.connectTip h) := by
    have same := (sameCore_modify fun pindex => core_raiseValidity _ BLOCK_VALID_SCRIPTS : SameCore _ (tree.modify h _))
    exact ⟨rfl, same.pprev, same.nHeight⟩
  obtain ⟨listed, -, -, line, -⟩ := formed.leads_cons held leads
  constructor
  · apply formed.of_sameShape shape
    · exact ⟨h, listed, line⟩
    · exact formed.candidates
    · exact formed.unlinked
  · rw [Leads, shape.lineage, ← leads]
    change path.reverse ++ h :: tree.chainActive = _
    simp
end

lemma pruneBlockIndexCandidates : WellFormed tree.pruneBlockIndexCandidates :=
  formed.of_fewer ⟨rfl, fun _ => rfl, fun _ => rfl⟩ rfl (fun _ mem => mem_of_mem_filter mem) rfl

lemma invalidBlockFound (h) : WellFormed (tree.invalidBlockFound h) := by
  apply eraseCandidates
  apply formed.of_fewer (sameCore_modify _).shape rfl (fun _ mem => mem) rfl
  exact fun _ => rfl
end

lemma connectBlocks (calls pindexOldTip) {m} (path) (formed : WellFormed tree)
    (held : m ∈ tree.mapBlockIndex) (leads : tree.Leads path m) :
    WellFormed (connectBlocks calls pindexOldTip path tree).2 := by
  induction path generalizing tree with
  | nil => exact formed
  | cons h path ih =>
    unfold connectBlocks
    obtain ⟨conn, leads'⟩ := formed.connectTip held leads
    split
    · dsimp only
      split
      · exact conn.pruneBlockIndexCandidates
      · exact ih conn.pruneBlockIndexCandidates held leads'
    · exact formed.invalidBlockFound h
    · exact formed
    · exact formed

section
variable (formed : WellFormed tree) (calls : TipCalls)
include formed calls

section
variable {m : UInt256} (held : m ∈ tree.mapBlockIndex)
include held

lemma leads_of_disconnected (done : (BlockTree.disconnectTo calls (tree.findFork m) tree.chainActive.length tree).1 = true) :
    (BlockTree.disconnectTo calls (tree.findFork m) tree.chainActive.length tree).2.Leads (tree.offChain m).reverse m := by
  obtain ⟨fork, found, shared, -, split⟩ := formed.exists_fork held
  have wf' := formed.disconnectTo calls (tree.findFork m) tree.chainActive.length
  rw [found] at done wf' ⊢
  obtain ⟨above, rest, -, -, -, run, stops, -⟩ := formed.disconnectTo_spec _ _ shared (Nat.le_refl _)
  obtain ⟨tip, -, top, chain⟩ := wf'.exists_tip
  rw [run] at top chain ⊢
  cases top.symm.trans (stops done)
  change (tree.offChain m).reverse.reverse ++ rest = tree.lineage m
  rw [reverse_reverse, split]
  exact congrArg _ chain

lemma activateBestChainStep : WellFormed (tree.activateBestChainStep calls m).2 := by
  have wf' := formed.disconnectTo calls (tree.findFork m) tree.chainActive.length
  have leads := formed.leads_of_disconnected calls held
  unfold BlockTree.activateBestChainStep
  split
  · grind
  · next run =>
    have known := mapBlockIndex_disconnectTo calls (tree.findFork m) tree.chainActive.length tree
    rw [run] at wf' leads known
    apply wf'.connectBlocks _ _ _ _ (leads rfl)
    rw [known]
    exact held
end

lemma activateBestChain : WellFormed (tree.activateBestChain calls).2 := by
  have wf' := formed.findMostWorkChain (tree.setBlockIndexCandidates.length + 1)
  unfold BlockTree.activateBestChain
  split
  · grind
  · next m _ found =>
    have listed := findMostWorkChain_mem _ _ (congrArg _ found)
    rw [found] at wf' listed
    split
    · exact wf'
    · exact wf'.activateBestChainStep _ (wf'.candidates m listed)
end

lemma readdCandidates (formed : WellFormed tree) : WellFormed tree.readdCandidates := by
  apply formed.of_sameShape
  · exact ⟨rfl, fun _ => rfl, fun _ => rfl⟩
  · exact formed.chain
  · intro c mem
    rcases mem_append.mp mem with mem | added
    · exact formed.candidates c mem
    · exact mem_of_mem_filter added
  · exact formed.unlinked

lemma reconsiderBlock (formed : WellFormed tree) (h) : WellFormed (tree.reconsiderBlock h) := by
  have cleared : WellFormed (tree.change (tree.reconsidered h) clearFailed) := formed.change _ fun _ => rfl
  apply WellFormed.change
  · apply cleared.of_sameShape
    · exact ⟨rfl, fun _ => rfl, fun _ => rfl⟩
    · exact cleared.chain
    · intro c mem
      rcases mem_append.mp mem with added | mem
      · exact mem_of_mem_filter (mem_of_mem_filter added)
      · exact formed.candidates c mem
    · exact cleared.unlinked
  · exact fun _ => rfl

end WellFormed

end Peony
