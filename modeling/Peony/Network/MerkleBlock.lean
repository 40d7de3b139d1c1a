import Mathlib.Data.List.GetD
import Peony.Validation.MerkleBranch

/-! Partial Merkle trees: the matched transactions of a block with what proves that they are in it (merkleblock.cpp). -/

namespace Peony
open MerkleTree List List
open Nat (clog zero_mul)

/-- `fBad` is set by the extraction when the data does not fit the tree. -/
structure CPartialMerkleTree where
  nTransactions : Nat
  vBits : List Bool
  vHash : List UInt256
  fBad : Bool
  deriving DecidableEq

namespace CPartialMerkleTree
variable (hash : UInt256 → UInt256 → UInt256)
def calcTreeWidth (nTransactions height : Nat) : Nat := (nTransactions + 2 ^ height - 1) % 2 ^ 32 / 2 ^ height

/-- The first height with a single node; `1 << 31` has no meaning for an int. -/
def calcTreeHeight (nTransactions : Nat) : (fuel height : Nat) → Option Nat
  | 0, _ => none
  | fuel + 1, height => if calcTreeWidth nTransactions height > 1 then calcTreeHeight nTransactions fuel (height + 1) else some height

def calcHash (vTxid : List UInt256) : (height pos : Nat) → UInt256
  | 0, pos => leafOf vTxid pos
  | height + 1, pos =>
    let left := calcHash vTxid height (pos * 2)
    let right := if pos * 2 + 1 < calcTreeWidth vTxid.length height then calcHash vTxid height (pos * 2 + 1) else left
    hash left right

section
variable (vTxid : List UInt256) (vMatch : List Bool)
def parentOfMatch (height pos : Nat) : Bool :=
  (range' (pos * 2 ^ height) (2 ^ height)).any fun p => decide (p < vTxid.length) && vMatch.getD p false

def traverseAndBuild (vTxid : List UInt256) (vMatch : List Bool) : (height pos : Nat) → List Bool × List UInt256 →
    List Bool × List UInt256
  | 0, pos, (vBits, vHash) => (vBits ++ [parentOfMatch vTxid vMatch 0 pos], vHash ++ [calcHash hash vTxid 0 pos])
  | height + 1, pos, (vBits, vHash) =>
    let fParentOfMatch := parentOfMatch vTxid vMatch (height + 1) pos
    let vBits := vBits ++ [fParentOfMatch]
    if !fParentOfMatch then (vBits, vHash ++ [calcHash hash vTxid (height + 1) pos])
    else
      let built := traverseAndBuild vTxid vMatch height (pos * 2) (vBits, vHash)
      if pos * 2 + 1 < calcTreeWidth vTxid.length height then traverseAndBuild vTxid vMatch height (pos * 2 + 1) built else built

def ofTxids : Option CPartialMerkleTree := do
  let nHeight ← calcTreeHeight vTxid.length 31 0
  let (vBits, vHash) := traverseAndBuild hash vTxid vMatch nHeight 0 ([], [])
  return ⟨vTxid.length, vBits, vHash, false⟩
end

structure Extraction where
  fBad : Bool
  (nBitsUsed nHashUsed : Nat)
  vMatch : List UInt256

variable (tree : CPartialMerkleTree)
def takeHash (s : Extraction) (report : Bool) : UInt256 × Extraction :=
  if s.nHashUsed ≥ tree.vHash.length then (0, { s with fBad := true })
  else
    let h := tree.vHash.getD s.nHashUsed 0
    (h, { s with nHashUsed := s.nHashUsed + 1, vMatch := if report then s.vMatch ++ [h] else s.vMatch })

def traverseAndExtract : (height pos : Nat) → Extraction → UInt256 × Extraction
  | 0, _, s =>
    if s.nBitsUsed ≥ tree.vBits.length then (0, { s with fBad := true })
    else takeHash tree { s with nBitsUsed := s.nBitsUsed + 1 } (tree.vBits.getD s.nBitsUsed false)
  | height + 1, pos, s =>
    if s.nBitsUsed ≥ tree.vBits.length then (0, { s with fBad := true })
    else
      let fParentOfMatch := tree.vBits.getD s.nBitsUsed false
      let s := { s with nBitsUsed := s.nBitsUsed + 1 }
      if !fParentOfMatch then takeHash tree s false
      else
        let (left, s) := traverseAndExtract height (pos * 2) s
        if pos * 2 + 1 < calcTreeWidth tree.nTransactions height then
          let (right, s) := traverseAndExtract height (pos * 2 + 1) s
          (hash left right, s)
        else (hash left left, s)

/-- The root or 0, the matched ids, and the tree with its `fBad`. -/
def extractMatches : Option (UInt256 × List UInt256 × CPartialMerkleTree) :=
  if tree.nTransactions = 0 then some (0, [], tree)
  else if tree.nTransactions > MAX_BLOCK_SIZE_CURRENT / 60 then some (0, [], tree)
  else if tree.vHash.length > tree.nTransactions then some (0, [], tree)
  else if tree.vBits.length < tree.vHash.length then some (0, [], tree)
  else do
    let nHeight ← calcTreeHeight tree.nTransactions 31 0
    let (hashMerkleRoot, s) := traverseAndExtract hash tree nHeight 0 ⟨tree.fBad, 0, 0, []⟩
    let tree := { tree with fBad := s.fBad }
    if s.fBad then return (0, s.vMatch, tree)
    else if (s.nBitsUsed + 7) / 8 ≠ (tree.vBits.length + 7) / 8 then return (0, s.vMatch, tree)
    else if s.nHashUsed ≠ tree.vHash.length then return (0, s.vMatch, tree)
    else return (hashMerkleRoot, s.vMatch, tree)

def extractedPairs : (height pos : Nat) → Extraction → List (UInt256 × UInt256)
  | 0, _, _ => []
  | height + 1, pos, s =>
    if s.nBitsUsed ≥ tree.vBits.length then []
    else
      let fParentOfMatch := tree.vBits.getD s.nBitsUsed false
      let s := { s with nBitsUsed := s.nBitsUsed + 1 }
      if !fParentOfMatch then []
      else
        let (left, s') := traverseAndExtract hash tree height (pos * 2) s
        if pos * 2 + 1 < calcTreeWidth tree.nTransactions height then
          let (right, _) := traverseAndExtract hash tree height (pos * 2 + 1) s'
          extractedPairs height (pos * 2) s ++ extractedPairs height (pos * 2 + 1) s' ++ [(left, right)]
        else extractedPairs height (pos * 2) s ++ [(left, left)]

def extractionPairs : List (UInt256 × UInt256) :=
  match calcTreeHeight tree.nTransactions 31 0 with
  | none => []
  | some nHeight => extractedPairs hash tree nHeight 0 ⟨tree.fBad, 0, 0, []⟩

variable {hash : UInt256 → UInt256 → UInt256} {n height pos : Nat}
lemma lt_calcTreeWidth_iff (small : n < 2 ^ 31) (low : height ≤ 31) : pos < calcTreeWidth n height ↔ pos * 2 ^ height < n := by
  have power := Nat.two_pow_pos height
  have bound : 2 ^ height ≤ 2 ^ 31 := Nat.pow_le_pow_right (by decide) low
  rw [calcTreeWidth, Nat.lt_div_iff_mul_lt power]
  omega

lemma calcTreeHeight_eq {fuel level} (short : n ≤ 2 ^ 30) (enough : 31 ≤ fuel + level) (low : level ≤ clog 2 n) :
    calcTreeHeight n fuel level = some (clog 2 n) := by
  have top : clog 2 n ≤ 30 := (Nat.clog_le_iff_le_pow one_lt_two).mpr short
  induction fuel generalizing level with
  | zero => omega
  | succ fuel ih =>
    have wide : 1 < calcTreeWidth n level ↔ level < clog 2 n := by
      rw [lt_calcTreeWidth_iff (by omega) (by omega), Nat.one_mul, Nat.lt_clog_iff_pow_lt one_lt_two]
    unfold calcTreeHeight
    by_cases more : level < clog 2 n
    · grind
    · grind

lemma calcHash_eq {vTxid} (small : vTxid.length < 2 ^ 31) (low : height ≤ 31) (pos) :
    calcHash hash vTxid height pos = node hash (leafOf vTxid) vTxid.length height pos := by
  induction height generalizing pos with
  | zero => rfl
  | succ height ih =>
    have below : height ≤ 31 := by omega
    simp [calcHash, node, lt_calcTreeWidth_iff small below, ih below, Nat.mul_comm _ 2]

section
variable (hash : UInt256 → UInt256 → UInt256) (vTxid : List UInt256) (vMatch : List Bool)
abbrev built (height pos : Nat) : List Bool × List UInt256 := traverseAndBuild hash vTxid vMatch height pos ([], [])

def matched (height pos : Nat) : List UInt256 :=
  ((range' (pos * 2 ^ height) (2 ^ height)).filter fun p => decide (p < vTxid.length) && vMatch.getD p false).map (leafOf vTxid)

variable {hash vTxid vMatch} {height pos : Nat}
lemma traverseAndBuild_eq (height pos pre) : traverseAndBuild hash vTxid vMatch height pos pre =
      (pre.1 ++ (built hash vTxid vMatch height pos).1, pre.2 ++ (built hash vTxid vMatch height pos).2) := by
  induction height generalizing pos pre with
  | zero => rfl
  | succ height ih =>
    simp only [built, traverseAndBuild]
    split
    · rfl
    split
    · rw [ih, ih, ih, ih]
      simp
    · rw [ih, ih]
      simp

def whenThere {α : Type} (n height pos : Nat) (values : List α) : List α := if (pos * 2 + 1) * 2 ^ height < n then values else []

section
variable (small : vTxid.length < 2 ^ 31) (low : height < 31)
include small low

lemma built_succ (parent : parentOfMatch vTxid vMatch (height + 1) pos = true) : built hash vTxid vMatch (height + 1) pos =
      (true :: (built hash vTxid vMatch height (pos * 2)).1 ++
        whenThere vTxid.length height pos (built hash vTxid vMatch height (pos * 2 + 1)).1,
        (built hash vTxid vMatch height (pos * 2)).2 ++
          whenThere vTxid.length height pos (built hash vTxid vMatch height (pos * 2 + 1)).2) := by
  unfold whenThere
  conv_lhs => rw [built, traverseAndBuild]
  simp only [parent, Bool.not_true, Bool.false_eq_true, if_false, lt_calcTreeWidth_iff small low.le]
  split
  · rw [traverseAndBuild_eq, traverseAndBuild_eq]
    simp
  · rw [traverseAndBuild_eq]
    simp

lemma built_of_unmatched (other : parentOfMatch vTxid vMatch (height + 1) pos = false) :
    built hash vTxid vMatch (height + 1) pos = ([false], [node hash (leafOf vTxid) vTxid.length (height + 1) pos]) := by
  rw [built, traverseAndBuild]
  simp [other, calcHash_eq small low]
end

lemma matched_succ (height pos) :
    matched vTxid vMatch (height + 1) pos = matched vTxid vMatch height (pos * 2) ++ matched vTxid vMatch height (pos * 2 + 1) := by
  have halves : range' (pos * 2 ^ (height + 1)) (2 ^ (height + 1)) =
      range' (pos * 2 * 2 ^ height) (2 ^ height) ++ range' ((pos * 2 + 1) * 2 ^ height) (2 ^ height) := by
    rw [show (pos * 2 + 1) * 2 ^ height = pos * 2 * 2 ^ height + 2 ^ height by ring, range'_append_1]
    congr 1 <;> ring
  rw [matched, halves, filter_append, map_append]
  rfl

lemma matched_of_absent (absent : vTxid.length ≤ pos * 2 ^ height) : matched vTxid vMatch height pos = [] := by
  rw [matched, map_eq_nil_iff, filter_eq_nil_iff]
  intro p mem
  have low := (mem_range'_1.mp mem).1
  simp only [Bool.and_eq_true, decide_eq_true_eq]
  omega

lemma matched_of_unmatched (other : parentOfMatch vTxid vMatch height pos = false) : matched vTxid vMatch height pos = [] := by
  rw [matched, map_eq_nil_iff, filter_eq_nil_iff]
  exact any_eq_false.mp other

lemma matched_zero (pos) : matched vTxid vMatch 0 pos = if parentOfMatch vTxid vMatch 0 pos then [leafOf vTxid pos] else [] := by
  have single : range' (pos * 2 ^ 0) (2 ^ 0) = [pos] := by simp
  rw [matched, parentOfMatch, single, any_cons, any_nil, Bool.or_false, filter_cons]
  split <;> rfl

lemma length_built (small : vTxid.length < 2 ^ 31) (low : height ≤ 31) (there : pos * 2 ^ height < vTxid.length) :
    (built hash vTxid vMatch height pos).2.length ≤ (built hash vTxid vMatch height pos).1.length ∧
      pos * 2 ^ height + (built hash vTxid vMatch height pos).2.length ≤ vTxid.length ∧
      (built hash vTxid vMatch height pos).2.length ≤ 2 ^ height := by
  induction height generalizing pos with
  | zero =>
    exact ⟨le_rfl, there, le_rfl⟩
  | succ height ih =>
    have left_there : pos * 2 * 2 ^ height < vTxid.length := by grind
    cases parent : parentOfMatch _ _ _ _ with
    | false =>
      rw [built_of_unmatched small low parent]
      exact ⟨le_rfl, there, Nat.one_le_two_pow⟩
    | true =>
      obtain ⟨bits, ins, few⟩ := ih (by omega) left_there
      rw [built_succ small low parent, whenThere, whenThere, pow_succ]
      simp only [length_cons, length_append]
      split
      · next right_there =>
        obtain ⟨bits', ins', few'⟩ := ih (by omega) right_there
        have ends : (pos * 2 + 1) * 2 ^ height = pos * 2 * 2 ^ height + 2 ^ height := by ring
        have start : pos * (2 ^ height * 2) = pos * 2 * 2 ^ height := by ring
        omega
      · have start : pos * (2 ^ height * 2) = pos * 2 * 2 ^ height := by ring
        simp only [length_nil]
        omega
end
section
variable {hash : UInt256 → UInt256 → UInt256} {vTxid : List UInt256} {vMatch : List Bool} {tree : CPartialMerkleTree}
  {height pos : Nat}
lemma of_drop_eq_cons {α : Type} {l rest : List α} {k} {x : α} (next : l.drop k = x :: rest) (fallback : α) :
    k < l.length ∧ l.getD k fallback = x ∧ l.drop (k + 1) = rest := by
  have ins : k < l.length := by
    by_contra outside
    rw [drop_of_length_le (by omega)] at next
    cases next
  rw [drop_eq_getElem_cons ins] at next
  obtain ⟨value, tail⟩ := cons.inj next
  exact ⟨ins, (getD_eq_getElem _ _ _).trans value, tail⟩

lemma drop_add_length {α : Type} {l front rest : List α} {k} (next : l.drop k = front ++ rest) :
    l.drop (k + front.length) = rest := by
  rw [← drop_drop, next, drop_left]

lemma takeHash_eq {fBad : Bool} {nBitsUsed nHashUsed reported rest h}
    (stored : tree.vHash.drop nHashUsed = h :: rest) (report) :
    takeHash tree ⟨fBad, nBitsUsed, nHashUsed, reported⟩ report =
      (h, ⟨fBad, nBitsUsed, nHashUsed + 1, reported ++ if report then [h] else []⟩) := by
  obtain ⟨ins, value, -⟩ := of_drop_eq_cons stored 0
  rw [takeHash, if_neg (Nat.not_le.mpr ins), value]
  cases report <;> simp

lemma traverseAndExtract_built (small : vTxid.length < 2 ^ 31) (low : height ≤ 31) (size : tree.nTransactions = vTxid.length)
    {s : Extraction} {moreBits moreHashes}
    (bits : tree.vBits.drop s.nBitsUsed = (built hash vTxid vMatch height pos).1 ++ moreBits)
    (hashes : tree.vHash.drop s.nHashUsed = (built hash vTxid vMatch height pos).2 ++ moreHashes) :
    traverseAndExtract hash tree height pos s =
      (node hash (leafOf vTxid) vTxid.length height pos,
        ⟨s.fBad, s.nBitsUsed + (built hash vTxid vMatch height pos).1.length, s.nHashUsed + (built hash vTxid vMatch height pos).2.length,
          s.vMatch ++ matched vTxid vMatch height pos⟩) := by
  induction height generalizing pos s moreBits moreHashes with
  | zero =>
    obtain ⟨ins, bit, -⟩ := of_drop_eq_cons bits _
    rw [traverseAndExtract, if_neg (by omega), bit, takeHash_eq hashes, matched_zero]
    rfl
  | succ height ih =>
    have below : height ≤ 31 := by omega
    cases parent : parentOfMatch _ _ _ _ with
    | false =>
      rw [built_of_unmatched small low parent] at bits hashes ⊢
      obtain ⟨ins, bit, -⟩ := of_drop_eq_cons bits false
      rw [traverseAndExtract, if_neg (by omega)]
      simp only [bit, Bool.not_false, if_true]
      rw [takeHash_eq hashes, matched_of_unmatched parent]
      rfl
    | true =>
      rw [built_succ small low parent] at bits hashes ⊢
      simp only [cons_append, append_assoc] at bits hashes
      obtain ⟨ins, bit, bits⟩ := of_drop_eq_cons bits false
      have left := @ih _ below { s with nBitsUsed := s.nBitsUsed + 1 } _ _ bits hashes
      rw [traverseAndExtract, if_neg (by omega)]
      simp only [bit, Bool.not_true, Bool.false_eq_true, if_false, left, size, lt_calcTreeWidth_iff small below, matched_succ]
      have bits' := drop_add_length bits
      have hashes' := drop_add_length hashes
      unfold whenThere at bits' hashes' ⊢
      rw [node_succ]
      split
      · next there =>
        rw [if_pos there] at bits' hashes'
        have right_node := @ih _ below ⟨s.fBad, _,
          _, s.vMatch ++ matched vTxid vMatch height (pos * 2)⟩ _ _ bits' hashes'
        rw [right_node, right_of_lt (by rwa [Nat.mul_comm 2]), Nat.mul_comm]
        simp only [length_cons, length_append, append_assoc]
        congr 2 <;> omega
      · next absent =>
        rw [right_of_le (by rw [Nat.mul_comm 2]; omega), Nat.mul_comm 2,
          matched_of_absent (by omega : _ ≤ (pos * 2 + 1) * 2 ^ height)]
        simp only [length_cons, append_nil]
        congr 2
        omega

lemma takeHash_vMatch {s report} : (takeHash tree s report).2.vMatch = s.vMatch ∨
      report = true ∧ (takeHash tree s report).2.vMatch = s.vMatch ++ [(takeHash tree s report).1] := by grind [takeHash]

/-- A traversal that returns the hash of its node reports transactions of `vTxid` only. -/
lemma traverseAndExtract_sound (small : vTxid.length < 2 ^ 31) (size : tree.nTransactions = vTxid.length) {s}
    (low : height ≤ clog 2 vTxid.length) (there : pos * 2 ^ height < vTxid.length)
    (inj : NoCollision hash (extractedPairs hash tree height pos s) (merklePairs hash vTxid))
    (same : (traverseAndExtract hash tree height pos s).1 = node hash (leafOf vTxid) vTxid.length height pos) :
    ∃ reported, (traverseAndExtract hash tree height pos s).2.vMatch = s.vMatch ++ reported ∧ ∀ id ∈ reported, id ∈ vTxid := by
  have nothing : ∀ {s t : Extraction}, t.vMatch = s.vMatch → ∃ reported, t.vMatch = s.vMatch ++ reported ∧
      ∀ id ∈ reported, id ∈ vTxid := by
    intro s t kept
    exact ⟨[], by rw [kept, append_nil], by simp⟩
  have top : clog 2 vTxid.length ≤ 31 := (Nat.clog_le_iff_le_pow one_lt_two).mpr small.le
  induction height generalizing pos s with
  | zero =>
    unfold traverseAndExtract at same ⊢
    split at same
    · next exhausted =>
      rw [if_pos exhausted]
      exact nothing rfl
    · next more =>
      rw [if_neg more]
      rcases takeHash_vMatch with kept | ⟨-, reported⟩
      · exact nothing kept
      · rw [reported, same]
        refine ⟨[leafOf _ _], rfl, ?_⟩
        rw [pow_zero, Nat.mul_one] at there
        rw [leafOf_eq there]
        simp
  | succ height ih =>
    have below : height ≤ 31 := by omega
    have level : 2 ^ height < vTxid.length := (Nat.lt_clog_iff_pow_lt one_lt_two).mp low
    have left_there : pos * 2 * 2 ^ height < vTxid.length := by
      rw [pow_succ] at there
      linarith
    have known : (node hash (leafOf vTxid) vTxid.length height (2 * pos), right hash (leafOf vTxid) vTxid.length height pos) ∈
        merklePairs hash vTxid := mem_pairs level there
    unfold traverseAndExtract at same ⊢
    unfold extractedPairs at inj
    by_cases exhausted : s.nBitsUsed ≥ tree.vBits.length
    · rw [if_pos exhausted]
      exact nothing rfl
    rw [if_neg exhausted] at same inj ⊢
    cases bit : tree.vBits.getD _ _ with
    | false =>
      rcases takeHash_vMatch with kept | ⟨impossible, -⟩
      · exact nothing kept
      · cases impossible
    | true =>
      simp only [bit, Bool.not_true, Bool.false_eq_true, if_false, size, lt_calcTreeWidth_iff small below] at same inj ⊢
      split at same
      · next right_there =>
        rw [if_pos right_there] at inj ⊢
        have pair := inj _ (mem_append_right _ mem_cons_self) _ known same
        obtain ⟨left_same, right_same⟩ := Prod.mk.inj pair
        rw [right_of_lt (by rwa [Nat.mul_comm 2]), Nat.mul_comm 2] at right_same
        rw [Nat.mul_comm 2] at left_same
        obtain ⟨reported, appended, ins⟩ := ih (by omega) left_there
          (fun p mem => inj p (mem_append_left _ (mem_append_left _ mem))) left_same
        obtain ⟨reported', appended', ins'⟩ := ih (by omega) right_there
          (fun p mem => inj p (mem_append_left _ (mem_append_right _ mem))) right_same
        refine ⟨_, by rw [appended', appended, append_assoc], ?_⟩
        simp only [mem_append, or_imp, forall_and]
        exact ⟨ins, ins'⟩
      · next absent =>
        rw [if_neg absent] at inj ⊢
        have pair := inj _ (mem_append_right _ mem_cons_self) _ known same
        obtain ⟨left_same, -⟩ := Prod.mk.inj pair
        rw [Nat.mul_comm 2] at left_same
        exact ih (by omega) left_there (fun p mem => inj p (mem_append_left _ mem)) left_same
end
section
variable (vTxid : List UInt256) (vMatch : List Bool) (sized : vMatch.length = vTxid.length)
include vTxid vMatch sized

lemma zip_eq_map_range : vTxid.zip vMatch = (range vTxid.length).map fun p => (leafOf vTxid p, vMatch.getD p false) := by
  apply ext_getElem
  · simp [sized]
  · intro p ins ins'
    have first : p < vTxid.length := by simpa using ins'
    have snd : p < vMatch.length := by omega
    simp [leafOf, first, snd]

lemma matched_root :
    matched vTxid vMatch (clog 2 vTxid.length) 0 = ((vTxid.zip vMatch).filter fun entry => entry.2).map fun entry => entry.1 := by
  have wide : vTxid.length ≤ 2 ^ clog 2 vTxid.length := Nat.le_pow_clog one_lt_two _
  have inner : (range' (0 * 2 ^ clog 2 vTxid.length) (2 ^ clog 2 vTxid.length)).filter
      (fun p => decide (p < vTxid.length) && vMatch.getD p false) = (range vTxid.length).filter (vMatch.getD · false) := by
    obtain ⟨r, size⟩ := Nat.exists_eq_add_of_le wide
    rw [size, zero_mul, ← range'_append_1, filter_append, Nat.zero_add, ← range_eq_range']
    have beyond : (range' vTxid.length r).filter (fun p => decide (p < vTxid.length) && vMatch.getD p false) = [] := by
      rw [filter_eq_nil_iff]
      intro p mem
      have low := (mem_range'_1.mp mem).1
      simp only [Bool.and_eq_true, decide_eq_true_eq]
      omega
    rw [beyond, append_nil]
    apply filter_congr
    intro p mem
    rw [decide_eq_true (mem_range.mp mem), Bool.true_and]
  rw [zip_eq_map_range _ _ sized, filter_map, map_map, matched, inner]
  rfl
end

variable {hash : UInt256 → UInt256 → UInt256}
lemma extractMatches_ofTxids {vTxid vMatch} (ne : vTxid ≠ [])
    (limit : vTxid.length ≤ MAX_BLOCK_SIZE_CURRENT / 60) (sized : vMatch.length = vTxid.length) :
    ∃ tree, ofTxids hash vTxid vMatch = some tree ∧ tree.extractMatches hash =
      some (root hash (leafOf vTxid) vTxid.length, ((vTxid.zip vMatch).filter fun entry => entry.2).map fun entry => entry.1, tree) := by
  have pos : 0 < vTxid.length := length_pos_iff.mpr ne
  have short : vTxid.length ≤ 2 ^ 15 + 2 ^ 10 := limit.trans (by decide)
  have tall : calcTreeHeight vTxid.length 31 0 = some (clog 2 vTxid.length) := calcTreeHeight_eq (by omega) (by omega) (Nat.zero_le _)
  have top : clog 2 vTxid.length ≤ 31 := (Nat.clog_le_iff_le_pow one_lt_two).mpr (by omega)
  have there : 0 * 2 ^ clog 2 vTxid.length < vTxid.length := by rwa [zero_mul]
  have few : (built hash vTxid vMatch (clog 2 vTxid.length) 0).2.length ≤ (built hash vTxid vMatch (clog 2 vTxid.length) 0).1.length ∧ _ :=
    length_built (by omega) top there
  obtain ⟨bits, ins, -⟩ := few
  rw [zero_mul, Nat.zero_add] at ins
  refine ⟨⟨vTxid.length, (built hash vTxid vMatch (clog 2 vTxid.length) 0).1, (built hash vTxid vMatch (clog 2 vTxid.length) 0).2, false⟩,
    ?_, ?_⟩
  · rw [ofTxids, tall]
    rfl
  · have extracted : traverseAndExtract hash ⟨vTxid.length, (built hash vTxid vMatch (clog 2 vTxid.length) 0).1,
        (built hash vTxid vMatch (clog 2 vTxid.length) 0).2, false⟩ (clog 2 vTxid.length) 0 ⟨false, 0, 0, []⟩ = _ :=
      traverseAndExtract_built (by omega) top rfl (append_nil _).symm (append_nil _).symm
    unfold extractMatches
    rw [if_neg pos.ne', if_neg limit.not_gt, if_neg ins.not_gt, if_neg bits.not_gt, tall]
    simp only [Option.bind_eq_bind, Option.bind_some]
    rw [extracted]
    simp [matched_root _ _ sized, root]

lemma of_extractMatches {tree tree' top ids}
    (done : tree.extractMatches hash = some (top, ids, tree')) (nz : top ≠ 0) :
    ∃ nHeight, calcTreeHeight tree.nTransactions 31 0 = some nHeight ∧ 0 < tree.nTransactions ∧
      tree.nTransactions ≤ MAX_BLOCK_SIZE_CURRENT / 60 ∧
      (traverseAndExtract hash tree nHeight 0 ⟨tree.fBad, 0, 0, []⟩).1 = top ∧
      (traverseAndExtract hash tree nHeight 0 ⟨tree.fBad, 0, 0, []⟩).2.vMatch = ids := by
  have failed : ∀ {ids' : List UInt256} {tree'' : CPartialMerkleTree}, some ((0 : UInt256), ids', tree'') ≠ some (top, ids, tree') := by
    intro ids' tree'' same
    exact nz (Prod.mk.inj (Option.some.inj same)).1.symm
  unfold extractMatches at done
  iterate 4
    split at done
    · exact absurd done failed
  cases tall : calcTreeHeight _ 31 0 with
  | none =>
    rw [tall] at done
    cases done
  | some nHeight =>
    rw [tall] at done
    simp only [Option.bind_eq_bind, Option.bind_some] at done
    split at done
    · exact absurd done failed
    split at done
    · exact absurd done failed
    split at done
    · exact absurd done failed
    · obtain ⟨value, rest⟩ := Prod.mk.inj (Option.some.inj done)
      exact ⟨_, rfl, by omega, by omega, value, (Prod.mk.inj rest).1⟩

end CPartialMerkleTree

theorem merkle_proofs_agree (hash : UInt256 → UInt256 → UInt256) (leaves : List UInt256) (nonempty : leaves ≠ [])
    (short : leaves.length < 2 ^ 31) :
    ∃ root mutated, computeMerkleRoot hash leaves = some (root, mutated) ∧
      (∀ i < leaves.length, ∃ branch, computeMerkleBranch hash leaves i = some branch ∧
        computeMerkleRootFromBranch hash (leafOf leaves i) branch i = root) ∧
      (leaves.length ≤ MAX_BLOCK_SIZE_CURRENT / 60 → ∀ vMatch, vMatch.length = leaves.length →
        ∃ tree, CPartialMerkleTree.ofTxids hash leaves vMatch = some tree ∧ tree.extractMatches hash =
          some (root, ((leaves.zip vMatch).filter fun entry => entry.2).map fun entry => entry.1, tree)) ∧
      ∀ tree : CPartialMerkleTree, tree.nTransactions = leaves.length → root ≠ 0 →
        NoCollision hash (tree.extractionPairs hash) (merklePairs hash leaves) →
        ∀ ids tree', tree.extractMatches hash = some (root, ids, tree') → ∀ id ∈ ids, id ∈ leaves := by
  obtain ⟨mutated, computed, -⟩ := computeMerkleRoot_spec _ nonempty short.le
  refine ⟨_, _, computed, ?_, ?_, ?_⟩
  · intro i inside
    exact computeMerkleRootFromBranch_eq short.le inside
  · intro limit vMatch sized
    exact CPartialMerkleTree.extractMatches_ofTxids nonempty limit sized
  · intro tree size nonzero injective ids tree' done
    obtain ⟨nHeight, tall, positive, limit, same, reported⟩ := CPartialMerkleTree.of_extractMatches done nonzero
    have few : leaves.length ≤ 2 ^ 30 := by
      rw [← size]
      exact limit.trans (by decide)
    have height : nHeight = clog 2 leaves.length := by
      rw [size, CPartialMerkleTree.calcTreeHeight_eq few (by omega) (Nat.zero_le _)] at tall
      exact (Option.some.inj tall).symm
    rw [CPartialMerkleTree.extractionPairs, tall] at injective
    subst height
    obtain ⟨found, appended, inside⟩ := CPartialMerkleTree.traverseAndExtract_sound short size le_rfl (by omega) injective same
    rw [← reported, appended]
    exact inside

def sampleTree : CPartialMerkleTree := ⟨3, [true, true, false, true, false], [1, 2, 67], false⟩

theorem merkle_proofs_of_three :
    (∃ branch, computeMerkleBranch sampleHash [1, 2, 3] 2 = some branch ∧ computeMerkleRootFromBranch sampleHash 3 branch 2 = 627) ∧
      sampleTree.extractMatches sampleHash = some (627, [2], sampleTree) ∧ ∀ id ∈ [2], id ∈ ([1, 2, 3] : List UInt256) := by
  have computed : computeMerkleRoot sampleHash [1, 2, 3] = some (627, false) := by decide +kernel
  have extracted : sampleTree.extractMatches sampleHash = some (627, [2], sampleTree) := by decide +kernel
  obtain ⟨root, mutated, computed', branches, -, sound⟩ := merkle_proofs_agree sampleHash [1, 2, 3] (by simp) (by decide)
  obtain rfl : (627 : UInt256) = root := (Prod.mk.inj (Option.some.inj (computed.symm.trans computed'))).1
  exact ⟨branches 2 (by decide), extracted, sound sampleTree rfl (by decide) (by decide +kernel) _ _ extracted⟩

/-- Two bytes of flags for one transaction, of which one bit is read. -/
def paddedTree : CPartialMerkleTree := ⟨1, true :: replicate 15 false, [7], false⟩

/-- A failed extraction returns the root of the list `[0]`, and has reported an id. -/
theorem failed_extraction_reports : computeMerkleRoot sampleHash [0] = some (0, false) ∧
    paddedTree.extractMatches sampleHash = some (0, [7], paddedTree) := by decide +kernel

end Peony
