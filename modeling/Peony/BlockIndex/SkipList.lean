import Peony.Library.Lineage
import Mathlib.Logic.Function.Basic

/-! The skip pointers of the block index: `BuildSkip`, the walk of `GetAncestor`, and `LastCommonAncestor`. -/

namespace Peony

/-- The pointers of a `CBlockIndex`. A height is an `int` that does not overflow. -/
structure BlockLinks (α : Type) where
  (pprev pskip : Option α)
  nHeight : Nat

def invertLowestOne (n : Nat) : Nat := n &&& (n - 1)

def getSkipHeight (height : Nat) : Nat :=
  if height < 2 then 0
  else if height &&& 1 ≠ 0 then invertLowestOne (invertLowestOne (height - 1)) + 1
  else invertLowestOne height

lemma invertLowestOne_le (n) : invertLowestOne n ≤ n - 1 := Nat.and_le_right
lemma getSkipHeight_lt {height} (above : 0 < height) : getSkipHeight height < height := by
  have even := invertLowestOne_le height
  have once := invertLowestOne_le (height - 1)
  have twice := invertLowestOne_le (invertLowestOne (height - 1))
  unfold getSkipHeight
  grind

namespace BlockLinks
open Function
variable {α : Type} (mem : α → BlockLinks α)
/-- The loop of `GetAncestor`. The outer `none`, here and below, is a null pointer that was followed. -/
def ancestorWalk (height heightWalk : Nat) (pindexWalk : Option α) : Option (Option α) :=
  if height < heightWalk then
    pindexWalk.bind fun p =>
      let heightSkip := getSkipHeight heightWalk
      let heightSkipPrev := getSkipHeight (heightWalk - 1)
      if heightSkip = height ∨ heightSkip > height ∧ ¬(heightSkipPrev < heightSkip - 2 ∧ heightSkipPrev ≥ height) then
        ancestorWalk height heightSkip (mem p).pskip
      else ancestorWalk height (heightWalk - 1) (mem p).pprev
  else some pindexWalk
termination_by heightWalk
decreasing_by
  · exact getSkipHeight_lt (by omega)
  · omega

def getAncestor (this : α) (height : Int) : Option (Option α) :=
  if height > (mem this).nHeight ∨ height < 0 then some none
  else ancestorWalk mem height.toNat (mem this).nHeight (some this)

/-- A block and its ancestors, by `pprev` alone. -/
abbrev line (a : α) : List α := Lineage.lineage (fun a => (mem a).pprev) (fun a => (mem a).nHeight) a

section
variable [DecidableEq α]
def buildSkip (this : α) : Option (α → BlockLinks α) :=
  match (mem this).pprev with
  | none => some mem
  | some pprev => do
    let pskip ← getAncestor mem pprev (getSkipHeight (mem this).nHeight)
    some (update mem this { mem this with pskip })

def addBlock (this : α) (pprev : Option α) : Option (α → BlockLinks α) :=
  buildSkip (update mem this ⟨pprev, none, pprev.elim 0 fun p => (mem p).nHeight + 1⟩) this

inductive Built : List α → (α → BlockLinks α) → Prop
  | genesis {mem mem' a} : addBlock mem a none = some mem' → Built [a] mem'
  | block {known mem mem' a p} : Built known mem → a ∉ known → p ∈ known → addBlock mem a (some p) = some mem' →
    Built (a :: known) mem'

/-- The loop of `LastCommonAncestor` and its assertion; a run out of fuel is the outer `none` too. -/
def commonWalk : Nat → Option α → Option α → Option (Option α)
  | 0, _, _ => none
  | n + 1, some pa, some pb => if pa = pb then some (some pa) else commonWalk n (mem pa).pprev (mem pb).pprev
  | _, pa, pb => if pa = pb then some pa else none

def lastCommonAncestor (pa pb : α) : Option (Option α) :=
  let walk := commonWalk mem ((mem pa).nHeight + 1)
  if (mem pa).nHeight > (mem pb).nHeight then (getAncestor mem pa (mem pb).nHeight).bind (walk · (some pb))
  else if (mem pb).nHeight > (mem pa).nHeight then (getAncestor mem pb (mem pa).nHeight).bind (walk (some pa))
  else walk (some pa) (some pb)
end

structure Sound (known : List α) : Prop where
  graded : Lineage.Graded (· ∈ known) (fun a => (mem a).pprev) (fun a => (mem a).nHeight)
  single : ∀ a ∈ known, ∀ b ∈ known, (mem a).pprev = none → (mem b).pprev = none → a = b
  skip : ∀ a ∈ known, ∀ p, (mem a).pprev = some p →
    ∃ s ∈ line mem p, (mem a).pskip = some s ∧ (mem s).nHeight = getSkipHeight (mem a).nHeight

def IsLastCommon (a b c : α) : Prop :=
  c ∈ line mem a ∧ c ∈ line mem b ∧ ∀ d ∈ line mem a, d ∈ line mem b → (mem d).nHeight ≤ (mem c).nHeight

namespace Sound
variable {mem} {known : List α} {a b p s pa pb : α} {n : Nat} (sound : Sound mem known)
include sound

lemma ancestorWalk_eq (start : a ∈ known) (member : b ∈ line mem a) :
    ancestorWalk mem (mem b).nHeight (mem a).nHeight (some a) = some (some b) := by
  have graded := sound.graded
  -- on the height: both branches move to an ancestor of `a` that still has `b` in its line
  induction level : (mem a).nHeight using Nat.strong_induction_on generalizing a with
  | _ n ih =>
    rw [ancestorWalk]
    rcases graded.height_of_mem start member with rfl | below
    · simp [level]
    · obtain ⟨p, up⟩ := Option.ne_none_iff_exists'.mp (mt (graded.parent_eq_none_iff start).mp (by omega))
      obtain ⟨next, above⟩ := graded.up start up
      have upper : b ∈ line mem p := by grind [graded.mem_iff start (b := b)]
      obtain ⟨s, skipped, pskip, reach⟩ := sound.skip a start p up
      have shorter := getSkipHeight_lt (Nat.zero_lt_of_lt below)
      rw [level] at below reach shorter
      simp only [below, if_true, Option.bind_some, pskip, up]
      split
      · exact ih _ shorter (graded.known_of_mem next skipped) (graded.mem_of_le next skipped upper (by omega)) reach
      · exact ih _ (by omega) next upper (by omega)

lemma getAncestor_eq (start : a ∈ known) (member : b ∈ line mem a) : getAncestor mem a (mem b).nHeight = some (some b) := by
  have low := sound.graded.le_of_mem start member
  rw [getAncestor, if_neg (by omega)]
  exact sound.ancestorWalk_eq start member

lemma congr {mem'} (same : ∀ a ∈ known, mem' a = mem a) :
    Sound mem' known ∧ ∀ a ∈ known, ∀ b ∈ line mem a, b ∈ line mem' a := by
  have known_of_mem := fun a b => sound.graded.known_of_mem (a := a) (b := b)
  have lines := fun a => sound.graded.lineage_congr (a := a)
    (fun a start => congrArg pprev (same a start)) (fun a start => congrArg nHeight (same a start))
  obtain ⟨⟨up, root⟩, single, skip⟩ := sound
  refine ⟨⟨⟨?_, ?_⟩, ?_, ?_⟩, ?_⟩ <;> grind

lemma cons (next : p ∈ known) (member : s ∈ line mem p) (reach : (mem s).nHeight = getSkipHeight ((mem p).nHeight + 1))
    (links : mem a = ⟨some p, some s, (mem p).nHeight + 1⟩) : Sound mem (a :: known) := by
  obtain ⟨⟨up, root⟩, single, skip⟩ := sound
  refine ⟨⟨?_, ?_⟩, ?_, ?_⟩ <;> grind

variable [DecidableEq α]
lemma addBlock_some (fresh : a ∉ known) (next : p ∈ known) : ∃ mem', addBlock mem a (some p) = some mem' ∧
    Sound mem' (a :: known) := by
  have kept : ∀ links, ∀ b ∈ known, update mem a links b = mem b :=
    fun _ _ listed => update_of_ne (ne_of_mem_of_not_mem listed fresh) ..
  obtain ⟨s, member, reach⟩ := sound.graded.exists_of_le next (Nat.le_of_lt_succ (getSkipHeight_lt (Nat.succ_pos _)))
  obtain ⟨early, lines⟩ := sound.congr (kept ⟨some p, none, (mem p).nHeight + 1⟩)
  obtain ⟨late, lines'⟩ := sound.congr (kept ⟨some p, some s, (mem p).nHeight + 1⟩)
  have found := early.getAncestor_eq next (lines p next s member)
  have within := fun links => kept links s (sound.graded.known_of_mem next member)
  rw [within, reach] at found
  refine ⟨_, ?_, late.cons next (lines' p next s member) ?_ ?_⟩
  · simp [addBlock, buildSkip, found]
  · rw [within, kept _ p next, reach]
  · rw [kept _ p next, update_self]

lemma commonWalk_some (startA : a ∈ known) (startB : b ∈ known) (level : (mem a).nHeight = (mem b).nHeight)
    (fuel : (mem a).nHeight < n) : ∃ c, commonWalk mem n (some a) (some b) = some (some c) ∧ IsLastCommon mem a b c := by
  have graded := sound.graded
  induction n generalizing a b with
  | zero => omega
  | succ n ih =>
    have splitA := fun d => graded.mem_iff startA (b := d)
    have splitB := fun d => graded.mem_iff startB (b := d)
    have lowA := fun d => graded.height_of_mem startA (b := d)
    have lowB := fun d => graded.height_of_mem startB (b := d)
    by_cases same : a = b
    · exact ⟨a, by simp [commonWalk, same], by grind [IsLastCommon]⟩
    · have topA := graded.parent_eq_none_iff startA
      have topB := graded.parent_eq_none_iff startB
      by_cases zero : (mem a).nHeight = 0
      · exact absurd (sound.single a startA b startB (topA.mpr zero) (topB.mpr (level ▸ zero))) same
      obtain ⟨p, upA⟩ := Option.ne_none_iff_exists'.mp (mt topA.mp zero)
      obtain ⟨q, upB⟩ := Option.ne_none_iff_exists'.mp (mt topB.mp (level ▸ zero))
      obtain ⟨nextA, aboveA⟩ := graded.up startA upA
      obtain ⟨nextB, aboveB⟩ := graded.up startB upB
      obtain ⟨c, met, first, snd, last⟩ := ih nextA nextB (by omega) (by omega)
      refine ⟨c, by simp [commonWalk, same, upA, upB, met], ?_, ?_, ?_⟩ <;> grind

lemma commonWalk_line (startA : a ∈ known) (startB : b ∈ known) (inA : pa ∈ line mem a) (inB : pb ∈ line mem b)
    (levelA : (mem pa).nHeight = min (mem a).nHeight (mem b).nHeight) (levelB : (mem pb).nHeight = (mem pa).nHeight) :
    ∃ c, commonWalk mem ((mem a).nHeight + 1) (some pa) (some pb) = some (some c) ∧ IsLastCommon mem a b c := by
  have graded := sound.graded
  obtain ⟨c, met, first, snd, last⟩ :=
    sound.commonWalk_some (graded.known_of_mem startA inA) (graded.known_of_mem startB inB) levelB.symm (n := (mem a).nHeight + 1)
      (by omega)
  refine ⟨c, met, graded.mem_trans startA inA first, graded.mem_trans startB inB snd, fun d dA dB => ?_⟩
  have low := le_min (graded.le_of_mem startA dA) (graded.le_of_mem startB dB)
  exact last d (graded.mem_of_le startA inA dA (by omega)) (graded.mem_of_le startB inB dB (by omega))

omit sound in
lemma of_built (built : Built known mem) : Sound mem known := by
  induction built with
  | genesis added =>
    simp only [addBlock, buildSkip, update_self, Option.elim, Option.some.injEq] at added
    subst added
    refine ⟨⟨?_, ?_⟩, ?_, ?_⟩ <;> grind
  | block _ fresh next added ih =>
    obtain ⟨_, added', sound⟩ := ih.addBlock_some fresh next
    cases added.symm.trans added'
    exact sound

end Sound

variable [DecidableEq α] {mem}
theorem getAncestor_lastCommonAncestor {known : List α} (built : Built known mem) : (∀ a ∈ known, ∀ height : Int,
      if 0 ≤ height ∧ height ≤ (mem a).nHeight then
        ∃ b ∈ line mem a, (mem b).nHeight = height ∧ getAncestor mem a height = some (some b)
      else getAncestor mem a height = some none) ∧
    ∀ a ∈ known, ∀ b ∈ known, ∃ c, lastCommonAncestor mem a b = some (some c) ∧ IsLastCommon mem a b c := by
  have sound := Sound.of_built built
  have graded := sound.graded
  constructor
  · intro a start height
    split
    · obtain ⟨b, member, level⟩ := graded.exists_of_le start (n := height.toNat) (by omega)
      have level : ((mem b).nHeight : Int) = height := by omega
      exact ⟨b, member, level, level ▸ sound.getAncestor_eq start member⟩
    · rw [getAncestor, if_pos (by omega)]
  · intro a startA b startB
    have selfA := graded.self_mem startA
    have selfB := graded.self_mem startB
    unfold lastCommonAncestor
    split
    · obtain ⟨pa, member, level⟩ := graded.exists_of_le startA (n := (mem b).nHeight) (by omega)
      rw [← level, sound.getAncestor_eq startA member]
      exact sound.commonWalk_line startA startB member selfB (by omega) level.symm
    · split
      · obtain ⟨pb, member, level⟩ := graded.exists_of_le startB (n := (mem a).nHeight) (by omega)
        rw [← level, sound.getAncestor_eq startB member]
        exact level ▸ sound.commonWalk_line startA startB selfA member (by omega) level
      · exact sound.commonWalk_line startA startB selfA selfB (by omega) (by omega)

lemma exists_built (parent : Nat → Nat) (below : ∀ n, parent n ≤ n) (n : Nat) :
    ∃ mem : Nat → BlockLinks Nat, Built (List.range (n + 1)).reverse mem := by
  induction n with
  | zero => exact ⟨_, .genesis (show addBlock (fun _ => ⟨none, none, 0⟩) 0 none = _ from rfl)⟩
  | succ n ih =>
    obtain ⟨mem, built⟩ := ih
    have fresh : n + 1 ∉ (List.range (n + 1)).reverse := by simp
    have known : parent n ∈ (List.range (n + 1)).reverse := by simpa using Nat.lt_succ_of_le (below n)
    obtain ⟨mem', added, -⟩ := (Sound.of_built built).addBlock_some fresh known
    refine ⟨mem', ?_⟩
    rw [List.range_succ, List.reverse_append, List.reverse_singleton]
    exact built.block fresh known added

/-- Fifty blocks on the genesis block, and a branch of fifty more on the twentieth. -/
theorem forked_chain : ∃ mem : Nat → BlockLinks Nat, Built (List.range 101).reverse mem ∧
    ∃ c, lastCommonAncestor mem 100 50 = some (some c) ∧ IsLastCommon mem 100 50 c := by
  obtain ⟨mem, built⟩ := exists_built (fun n => if n = 50 then 20 else n) (by intro n; split <;> omega) 100
  exact ⟨mem, built, (getAncestor_lastCommonAncestor built).2 100 (by decide) 50 (by decide)⟩

end BlockLinks

end Peony
