import Mathlib.Logic.Relation

namespace Peony
open List

def MAX_BLOCKFILE_SIZE : UInt32 := 0x8000000

structure CBlockFileInfo where
  nSize : UInt32
  nUndoSize : UInt32

structure CDiskBlockPos where
  nFile : Nat
  nPos : UInt32

structure BlockFiles where
  vinfoBlockFile : List CBlockFileInfo
  nLastBlockFile : Nat

namespace BlockFiles

def info (files : BlockFiles) (nFile : Nat) : CBlockFileInfo := files.vinfoBlockFile.getD nFile ⟨0, 0⟩

/-- The vector is resized to hold the file. -/
def setInfo (files : BlockFiles) (nFile : Nat) (info : CBlockFileInfo) : BlockFiles :=
  let resized := files.vinfoBlockFile ++ replicate (nFile + 1 - files.vinfoBlockFile.length) ⟨0, 0⟩
  { files with vinfoBlockFile := resized.set nFile info }

/-- The loop of `FindBlockPos` over the files from `nFile` on; behind the last one it makes empty files, and a size that does not
fit one keeps it running. -/
def leaveFull (nAddSize : UInt32) : List CBlockFileInfo → (nFile : Nat) → Option Nat
  | [], nFile => if nAddSize ≥ MAX_BLOCKFILE_SIZE then none else some nFile
  | info :: rest, nFile => if info.nSize + nAddSize ≥ MAX_BLOCKFILE_SIZE then leaveFull nAddSize rest (nFile + 1) else some nFile

/-- `fKnown` if a position is given. The check of the disk space comes after these updates and takes none of them back. -/
def findBlockPos (files : BlockFiles) (known : Option CDiskBlockPos) (nAddSize : UInt32) : Option (BlockFiles × CDiskBlockPos) :=
  match known with
  | some pos =>
    let info := files.info pos.nFile
    some ({ files with nLastBlockFile := pos.nFile }.setInfo pos.nFile
      { info with nSize := if pos.nPos + nAddSize < info.nSize then info.nSize else pos.nPos + nAddSize }, pos)
  | none => do
    let nFile ← leaveFull nAddSize (files.vinfoBlockFile.drop files.nLastBlockFile) files.nLastBlockFile
    let info := files.info nFile
    some ({ files with nLastBlockFile := nFile }.setInfo nFile { info with nSize := info.nSize + nAddSize }, ⟨nFile, info.nSize⟩)

def findUndoPos (files : BlockFiles) (nFile : Nat) (nAddSize : UInt32) : BlockFiles × CDiskBlockPos :=
  let info := files.info nFile
  (files.setInfo nFile { info with nUndoSize := info.nUndoSize + nAddSize }, ⟨nFile, info.nUndoSize⟩)

/-- How much of a block or undo file counts as used. -/
def used (files : BlockFiles) (undo : Bool) (nFile : Nat) : Nat :=
  if undo then (files.info nFile).nUndoSize.toNat else (files.info nFile).nSize.toNat

lemma info_setInfo (files : BlockFiles) (nFile other) (info) :
    (files.setInfo nFile info).info other = if other = nFile then info else files.info other := by
  unfold setInfo BlockFiles.info
  simp only [getD_eq_getElem?_getD, getElem?_set, length_append, length_replicate, eq_comm (a := nFile)]
  split
  · rw [if_pos (by omega)]
    rfl
  · rw [getElem?_append]
    split
    · rfl
    · next short =>
      rw [getElem?_eq_none (Nat.le_of_not_lt short), getElem?_replicate]
      split <;> rfl

lemma used_setInfo (files : BlockFiles) (nFile) (info) (undo other) : (files.setInfo nFile info).used undo other =
    if other = nFile then (if undo then info.nUndoSize.toNat else info.nSize.toNat) else files.used undo other := by
  unfold used
  rw [info_setInfo]
  by_cases own : other = nFile
  · rw [if_pos own, if_pos own]
  · rw [if_neg own, if_neg own]

lemma used_le_setInfo (files : BlockFiles) {nFile info} (size : (files.info nFile).nSize.toNat ≤ info.nSize.toNat)
    (undoSize : (files.info nFile).nUndoSize.toNat ≤ info.nUndoSize.toNat) (undo other) :
    files.used undo other ≤ (files.setInfo nFile info).used undo other := by
  rw [used_setInfo]
  split
  · next own =>
    subst own
    cases undo
    · exact size
    · exact undoSize
  · exact Nat.le_refl _

lemma findBlockPos_terminates (files : BlockFiles) (known) {nAddSize} (small : nAddSize < MAX_BLOCKFILE_SIZE) :
    ∃ res, files.findBlockPos known nAddSize = some res := by
  have stops : ∀ infos nFile, ∃ stop, leaveFull nAddSize infos nFile = some stop := by
    intro infos
    induction infos with
    | nil => exact fun nFile => ⟨nFile, if_neg (UInt32.not_le.mpr small)⟩
    | cons info rest ih =>
      intro nFile
      rw [leaveFull]
      split
      · exact ih _
      · exact ⟨_, rfl⟩
  cases known with
  | some pos => exact ⟨_, rfl⟩
  | none =>
    obtain ⟨stop, found⟩ := stops (files.vinfoBlockFile.drop files.nLastBlockFile) files.nLastBlockFile
    exact ⟨_, by rw [findBlockPos, found]; rfl⟩

end BlockFiles

/-- A part of a block or undo file; `fresh` if it was allocated and not registered at a known position. -/
structure FileRange where
  undo : Bool
  fresh : Bool
  nFile : Nat
  nPos : UInt32
  nAddSize : UInt32
  deriving DecidableEq

namespace FileRange

def last (range : FileRange) : Nat := range.nPos.toNat + range.nAddSize.toNat

def Covers (range : FileRange) (undo : Bool) (nFile offset : Nat) : Prop :=
  range.undo = undo ∧ range.nFile = nFile ∧ range.nPos.toNat ≤ offset ∧ offset < range.last

end FileRange

/-- The files after some calls, and the ranges these returned, the newest first. -/
structure FileState where
  files : BlockFiles
  ranges : List FileRange

inductive FileStep : FileState → FileState → Prop
  | block {files files' ranges pos} (known : Option CDiskBlockPos) (nAddSize : UInt32) (small : nAddSize < MAX_BLOCKFILE_SIZE)
      (found : files.findBlockPos known nAddSize = some (files', pos)) :
      FileStep ⟨files, ranges⟩ ⟨files', ⟨false, known.isNone, pos.nFile, pos.nPos, nAddSize⟩ :: ranges⟩
  | undo {files ranges} (nFile : Nat) (nAddSize : UInt32) (small : nAddSize < MAX_BLOCKFILE_SIZE)
      (present : nFile < files.vinfoBlockFile.length) :
      FileStep ⟨files, ranges⟩ ⟨(files.findUndoPos nFile nAddSize).1,
        ⟨true, true, nFile, (files.findUndoPos nFile nAddSize).2.nPos, nAddSize⟩ :: ranges⟩

/-- The sizes bound all ranges, and what was allocated meets nothing that was there before. -/
structure FileState.Sound (state : FileState) : Prop where
  bounded : ∀ range ∈ state.ranges, range.last ≤ state.files.used range.undo range.nFile
  apart : state.ranges.Pairwise fun new old => new.fresh = true → ∀ undo nFile offset, new.Covers undo nFile offset →
    ¬old.Covers undo nFile offset

lemma FileState.Sound.push {state : FileState} {files range} (sound : state.Sound)
    (grows : ∀ undo nFile, state.files.used undo nFile ≤ files.used undo nFile) (ins : range.last ≤ files.used range.undo range.nFile)
    (behind : range.fresh = true → state.files.used range.undo range.nFile ≤ range.nPos.toNat) :
    Sound ⟨files, range :: state.ranges⟩ := by
  constructor
  · refine forall_mem_cons.mpr ⟨ins, ?_⟩
    intro old mem
    exact Nat.le_trans (sound.bounded old mem) (grows _ _)
  · refine pairwise_cons.mpr ⟨?_, sound.apart⟩
    rintro old mem fresh undo nFile offset ⟨rfl, rfl, low, -⟩ ⟨kind, file, -, high⟩
    have bound := sound.bounded old mem
    have start := behind fresh
    rw [kind, file] at bound
    omega

open BlockFiles in
lemma FileStep.sound {state next : FileState} (step : FileStep state next) (sound : state.Sound)
    (fits : ∀ range ∈ next.ranges, range.last < UInt32.size) : next.Sound := by
  cases step with
  | @block files _ ranges _ known nAddSize small found =>
    have fit := fits _ mem_cons_self
    cases known with
    | some known =>
      obtain ⟨rfl, rfl⟩ := Prod.mk.inj (Option.some.inj found)
      have sum : (known.nPos + nAddSize).toNat = known.nPos.toNat + nAddSize.toNat := Nat.mod_eq_of_lt fit
      refine sound.push (used_le_setInfo _ ?_ (Nat.le_refl _)) ?_ Bool.noConfusion
      · show _ ≤ (ite _ _ _ : UInt32).toNat
        split
        · exact Nat.le_refl _
        · next low => exact Nat.le_of_not_lt low
      · rw [used_setInfo, if_pos rfl]
        show _ ≤ (ite _ _ _ : UInt32).toNat
        split
        · next low => exact Nat.le_trans (Nat.le_of_eq sum.symm) (Nat.le_of_lt low)
        · exact Nat.le_of_eq sum.symm
    | none =>
      obtain ⟨nFile, stops, found⟩ := Option.bind_eq_some_iff.mp found
      obtain ⟨rfl, rfl⟩ := Prod.mk.inj (Option.some.inj found)
      have sum : ((files.info nFile).nSize + nAddSize).toNat = _ := Nat.mod_eq_of_lt fit
      refine sound.push (used_le_setInfo _ ?_ (Nat.le_refl _)) ?_ fun _ => Nat.le_refl _
      · exact Nat.le_trans (Nat.le_add_right _ _) (Nat.le_of_eq sum.symm)
      · rw [used_setInfo, if_pos rfl]
        exact Nat.le_of_eq sum.symm
  | @undo files ranges nFile nAddSize small present =>
    have fit := fits _ mem_cons_self
    have sum : ((files.info nFile).nUndoSize + nAddSize).toNat = _ := Nat.mod_eq_of_lt fit
    refine sound.push (used_le_setInfo _ (Nat.le_refl _) ?_) ?_ fun _ => Nat.le_refl _
    · exact Nat.le_trans (Nat.le_add_right _ _) (Nat.le_of_eq sum.symm)
    · rw [findUndoPos, used_setInfo, if_pos rfl]
      exact Nat.le_of_eq sum.symm

open Relation FileState

theorem blockFiles_sound_iff {state : FileState} (run : ReflTransGen FileStep ⟨⟨[], 0⟩, []⟩ state) :
    (∀ known nAddSize, nAddSize < MAX_BLOCKFILE_SIZE → ∃ result, state.files.findBlockPos known nAddSize = some result) ∧
    (state.Sound ↔ ∀ range ∈ state.ranges, range.last < UInt32.size) := by
  refine ⟨fun known _ small => state.files.findBlockPos_terminates known small, ?_, ?_⟩
  · intro sound range member
    apply Nat.lt_of_le_of_lt (sound.bounded range member)
    unfold BlockFiles.used
    split <;> exact UInt32.toNat_lt _
  · induction run with
    | refl => exact fun _ => ⟨by simp, .nil⟩
    | tail earlier step ih =>
      intro fits
      refine step.sound (ih ?_) fits
      cases step <;> exact (forall_mem_cons.mp fits).2

/-- One block of 100 bytes, then `calls` undo records of the largest size for its file. -/
def FileState.undone : (calls : Nat) → FileState
  | 0 => ⟨⟨[⟨100, 0⟩], 0⟩, [⟨false, true, 0, 0, 100⟩]⟩
  | calls + 1 =>
    let (files, pos) := (undone calls).files.findUndoPos 0 0x7ffffff
    ⟨files, ⟨true, true, 0, pos.nPos, 0x7ffffff⟩ :: (undone calls).ranges⟩

lemma undone_reached (calls : Nat) :
    ReflTransGen FileStep ⟨⟨[], 0⟩, []⟩ (undone calls) ∧ 0 < (undone calls).files.vinfoBlockFile.length := by
  induction calls with
  | zero => exact ⟨.single (@FileStep.block _ _ _ ⟨0, 0⟩ none 100 (by decide) rfl), by decide⟩
  | succ calls ih =>
    obtain ⟨run, present⟩ := ih
    refine ⟨run.tail (.undo 0 0x7ffffff (by decide) present), ?_⟩
    simp only [undone, BlockFiles.findUndoPos, BlockFiles.setInfo, length_set, length_append]
    omega

theorem undone_once_sound : (∀ range ∈ (undone 1).ranges, range.last < UInt32.size) ∧ (undone 1).Sound :=
  have fits : ∀ range ∈ (undone 1).ranges, range.last < UInt32.size := by decide
  ⟨fits, (blockFiles_sound_iff (undone_reached 1).1).2.mpr fits⟩

/-- `nUndoSize` has no limit like the one on `nSize`: after 33 records it has wrapped around. -/
theorem undo_ranges_overlap : ∃ state, ReflTransGen FileStep ⟨⟨[], 0⟩, []⟩ state ∧ ∃ new ∈ state.ranges.head?, new.fresh = true ∧
    ∃ old ∈ state.ranges.tail, ∃ offset, new.Covers true 0 offset ∧ old.Covers true 0 offset := by
  refine ⟨undone 34, (undone_reached 34).1, ⟨true, true, 0, 0x7ffffdf, 0x7ffffff⟩, by decide +kernel, rfl,
    ⟨true, true, 0, 0, 0x7ffffff⟩, by decide +kernel, 0x7ffffdf, ⟨rfl, rfl, ?_, ?_⟩, rfl, rfl, ?_, ?_⟩ <;> decide

end Peony
