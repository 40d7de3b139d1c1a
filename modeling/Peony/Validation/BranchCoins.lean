import Peony.Coins.Flush
import Peony.Validation.AcceptBlock
import Peony.Validation.ConnectBlock

namespace Peony
open CCoinsView List FlatMap Except

def applyBlocks (host : Host) (coins : FlatMap) (blocks : Branch) : FlatMap :=
  blocks.foldl (fun coins entry => coins.applyTxs host entry.1.nHeight entry.2.vtx) coins

def branchCoins (host : Host) (branch : Branch) : FlatMap := applyBlocks host (fun _ => none) branch.tail

section
variable {host : Host} {outpoint : COutPoint}
variable {coins : FlatMap}
lemma applyTx_unspent {nHeight tx} (kept : outpoint ∉ tx.prevouts) :
    (coins.applyTx host nHeight tx outpoint).isSome = true ↔
      (coins outpoint).isSome = true ∨ (createdCoin host tx nHeight outpoint).isSome = true := by
  simp only [applyTx, create, spendAll, if_neg kept]
  cases createdCoin _ tx _ _ <;> simp

lemma applyTxs_unspent {nHeight vtx} (kept : ∀ tx ∈ vtx, outpoint ∉ tx.prevouts) :
    (coins.applyTxs host nHeight vtx outpoint).isSome = true ↔
      (coins outpoint).isSome = true ∨ ∃ tx ∈ vtx, (createdCoin host tx nHeight outpoint).isSome = true := by
  induction vtx generalizing coins with
  | nil => simp [applyTxs]
  | cons tx vtx ih =>
    have rest := @ih (coins.applyTx host nHeight tx) (forall_mem_cons.mp kept).2
    rw [applyTx_unspent (kept tx (by simp))] at rest
    simp only [mem_cons, exists_eq_or_imp, ← or_assoc]
    exact rest

lemma applyBlocks_unspent {blocks} (kept : ∀ entry ∈ blocks, ∀ tx ∈ entry.2.vtx, outpoint ∉ tx.prevouts) :
    (applyBlocks host coins blocks outpoint).isSome = true ↔ (coins outpoint).isSome = true ∨
      ∃ entry ∈ blocks, ∃ tx ∈ entry.2.vtx, (createdCoin host tx entry.1.nHeight outpoint).isSome = true := by
  induction blocks generalizing coins with
  | nil => simp [applyBlocks]
  | cons entry blocks ih =>
    have rest := @ih (coins.applyTxs host entry.1.nHeight entry.2.vtx) (forall_mem_cons.mp kept).2
    rw [applyTxs_unspent (kept _ (by simp))] at rest
    simp only [mem_cons, exists_eq_or_imp, ← or_assoc]
    exact rest

lemma not_mem_prevouts {inputs tx} (clean : spendsAny inputs tx = false) {txin}
    (mem : txin ∈ inputs) : txin.prevout ∉ tx.prevouts := by
  intro spent
  unfold CTransaction.prevouts at spent
  split at spent
  · cases spent
  · obtain ⟨other, ins, same⟩ := mem_map.mp spent
    have hit : spendsAny inputs tx = true := by
      simp only [spendsAny, any_eq_true, beq_iff_eq]
      exact ⟨_, ins, _, mem, same.symm⟩
    rw [clean] at hit
    cases hit
end

structure StoredChain (host : Host) (node : NodeState) (active : Branch) (tip : CBlockIndex) : Prop where
  isBranch : IsBranch host active tip
  vChain : node.chainActive.vChain = active.map Prod.fst
  holds : HoldsBranch node active
  wellFormed : node.pcoinsTip.WellFormed
  coins : node.pcoinsTip.visible = branchCoins host active

section
variable {host : Host} {node : NodeState} {active branch : Branch} {tip pindexPrev : CBlockIndex} {entry : CBlockIndex × CBlock}
lemma HoldsBranch.entry_eq (left : HoldsBranch node branch) (right : HoldsBranch node active)
    {own} (mem : entry ∈ branch) (ins : own ∈ active)
    (same : entry.1.hash = own.1.hash) : entry = own := by
  have index := (left.indexed _ mem).symm.trans (same ▸ right.indexed _ ins)
  have block := (left.stored _ mem).symm.trans (same ▸ right.stored _ ins)
  exact Prod.ext (Option.some.inj index) (Option.some.inj block)

lemma parent_exists {i} (found : branch[i + 1]? = some entry) : ∃ parent, branch[i]? = some parent := by
  have ins := (List.getElem?_eq_some_iff.mp found).1
  exact ⟨_, List.getElem?_eq_getElem (by omega)⟩

lemma IsBranch.agree_below (left : IsBranch host branch pindexPrev) (right : IsBranch host active tip)
    (leftHolds : HoldsBranch node branch) (rightHolds : HoldsBranch node active) {i j : Nat}
    {own} (found : branch[i]? = some entry) (held : active[i]? = some own)
    (same : entry.1.hash = own.1.hash) (le : j ≤ i) : branch[j]? = active[j]? := by
  induction i generalizing entry own with
  | zero =>
    obtain rfl : j = 0 := by omega
    rw [found, held, leftHolds.entry_eq rightHolds (mem_of_getElem? found) (mem_of_getElem? held) same]
  | succ i ih =>
    obtain rfl := leftHolds.entry_eq rightHolds (mem_of_getElem? found) (mem_of_getElem? held) same
    rcases Nat.lt_or_ge i j with above | below
    · obtain rfl : j = i + 1 := by omega
      rw [found, held]
    · -- One block index has one parent hash, so the two parents carry the same hash again.
      obtain ⟨parent, parentAt⟩ := parent_exists found
      obtain ⟨parent', parentAt'⟩ := parent_exists held
      have link := left.linked i _ _ parentAt found
      rw [right.linked i _ _ parentAt' held] at link
      exact ih parentAt parentAt' (Option.some.inj link).symm below

section
variable (stored : StoredChain host node active tip) (isBranch : IsBranch host branch pindexPrev)
include stored isBranch

lemma StoredChain.contains_iff {i : Nat} (found : branch[i]? = some entry) :
    node.chainActive.contains entry.1 = true ↔ ∃ own, active[i]? = some own ∧ own.1.hash = entry.1.hash := by
  rw [CChain.contains, CChain.index, isBranch.heights i _ found, stored.vChain, getElem?_map]
  cases active[i]? with
  | none => simp
  | some own => simp

lemma StoredChain.contains_below
    (holds : HoldsBranch node branch) {i j : Nat} {other} (found : branch[i]? = some entry)
    (below : branch[j]? = some other) (le : j ≤ i) (ins : node.chainActive.contains entry.1 = true) :
    node.chainActive.contains other.1 = true := by
  obtain ⟨own, held, same⟩ := (stored.contains_iff isBranch found).mp ins
  have agree := isBranch.agree_below stored.isBranch holds stored.holds found held same.symm le
  exact (stored.contains_iff isBranch below).mpr ⟨_, agree ▸ below, rfl⟩
end

lemma readBlockFromDisk_of_branch (isBranch : IsBranch host branch pindexPrev) (holds : HoldsBranch node branch)
    (mem : entry ∈ branch) : node.readBlockFromDisk host entry.1 = some entry.2 := by
  rw [NodeState.readBlockFromDisk, holds.stored _ mem, Option.filter_some, isBranch.hashes _ mem, beq_self_eq_true]
  rfl

section
variable (stored : StoredChain host node active tip) (isBranch : IsBranch host branch pindexPrev) (holds : HoldsBranch node branch)
include stored isBranch holds

lemma StoredChain.no_side_below {i j : Nat} {other} (found : branch[i]? = some entry)
    (ins : node.chainActive.contains entry.1 = true) (le : j ≤ i) (below : branch[j]? = some other) :
    node.chainActive.contains other.1 ≠ false := by simp [stored.contains_below isBranch holds found below le ins]

lemma walkFork_spec {nMaxReorgDepth : Int} {inputs i readBlock} (found : branch[i]? = some entry)
    (walks : walkFork host node nMaxReorgDepth inputs (i + 1) readBlock entry.2 entry.1 = .ok ()) :
    (∃ (j : Nat) (other : CBlockIndex × CBlock), branch[j]? = some other ∧ node.chainActive.contains other.1 = true) ∧
      ∀ (j : Nat) (other : CBlockIndex × CBlock), j ≤ i → branch[j]? = some other → node.chainActive.contains other.1 = false →
        ∀ tx ∈ other.2.vtx, spendsAny inputs tx = false := by
  induction i generalizing readBlock entry with
  | zero =>
    rw [walkFork] at walks
    split at walks
    · rename_i ins
      exact ⟨⟨0, _, found, ins⟩, fun j other le at_j outside =>
        absurd outside (stored.no_side_below isBranch holds found ins le at_j)⟩
    · -- The walk has come to the genesis block without meeting the active chain: every way on is an error.
      obtain ⟨-, walks⟩ := require_bind_eq_ok.mp walks
      obtain ⟨-, walks⟩ := require_bind_eq_ok.mp walks
      split at walks
      · cases walks
      · split at walks <;> cases walks
  | succ i ih =>
    rw [walkFork] at walks
    split at walks
    · rename_i ins
      exact ⟨⟨_, _, found, ins⟩, fun j other le at_j outside =>
        absurd outside (stored.no_side_below isBranch holds found ins le at_j)⟩
    · obtain ⟨-, walks⟩ := require_bind_eq_ok.mp walks
      obtain ⟨clean, walks⟩ := require_bind_eq_ok.mp walks
      obtain ⟨parent, parentAt⟩ := parent_exists found
      have mem := mem_of_getElem? parentAt
      rw [isBranch.linked i _ _ parentAt found, Option.bind_some, holds.indexed _ mem] at walks
      simp only [readBlockFromDisk_of_branch isBranch holds mem] at walks
      obtain ⟨run, rest⟩ := ih parentAt walks
      refine ⟨run, fun j other le at_j outside => ?_⟩
      rcases Nat.of_le_succ le with below | rfl
      · exact rest j _ below at_j outside
      · cases found.symm.trans at_j
        intro tx ins
        simp only [Bool.not_eq_eq_eq_not, Bool.not_true, any_eq_false, Bool.not_eq_true] at clean
        exact clean tx ins
end
section
variable (node : NodeState) (branch : Branch)
def commonPart : Branch :=
  branch.takeWhile fun entry => node.chainActive.contains entry.1

def sidePart : Branch :=
  branch.dropWhile fun entry => node.chainActive.contains entry.1
end

lemma StoredChain.sidePart_outside (stored : StoredChain host node active tip)
    (isBranch : IsBranch host branch pindexPrev) (holds : HoldsBranch node branch) :
    ∀ entry ∈ sidePart node branch, node.chainActive.contains entry.1 = false := by
  have ordered : branch.Pairwise fun first snd =>
      node.chainActive.contains snd.1 = true → node.chainActive.contains first.1 = true := by
    rw [pairwise_iff_getElem]
    intro j i _ _ lt ins
    exact stored.contains_below isBranch holds (getElem?_eq_getElem _) (getElem?_eq_getElem _) lt.le ins
  unfold sidePart
  clear isBranch holds stored
  induction branch with
  | nil => simp
  | cons entry branch ih =>
    obtain ⟨first, rest⟩ := pairwise_cons.mp ordered
    intro other mem
    cases ins : node.chainActive.contains entry.1 with
    | true =>
      rw [dropWhile_cons, if_pos ins] at mem
      exact ih rest _ mem
    | false =>
      rw [dropWhile_cons, if_neg (by simp [ins])] at mem
      rcases mem_cons.mp mem with rfl | mem
      · exact ins
      · by_contra held
        rw [first _ mem (by simpa using held)] at ins
        cases ins

lemma commonPart_append {node} (branch : Branch) : commonPart node branch ++ sidePart node branch = branch :=
  List.takeWhile_append_dropWhile

lemma IsBranch.last (isBranch : IsBranch host branch pindexPrev) :
    ∃ block, branch[pindexPrev.nHeight]? = some (pindexPrev, block) ∧ branch.length = pindexPrev.nHeight + 1 := by
  obtain ⟨⟨last, block⟩, found, rfl⟩ := Option.map_eq_some_iff.mp isBranch.tip
  rw [List.getLast?_eq_getElem?] at found
  have height := isBranch.heights _ _ found
  have ins := (List.getElem?_eq_some_iff.mp found).1
  rw [height]
  exact ⟨_, found, by omega⟩

section
variable (stored : StoredChain host node active tip)
include stored

lemma StoredChain.tip_eq : node.chainActive.tip = some tip := by
  rw [CChain.tip, stored.vChain, getLast?_map]
  exact stored.isBranch.tip

lemma StoredChain.branch_eq (isBranch : IsBranch host branch pindexPrev)
    (holds : HoldsBranch node branch) (same : tip.hash = pindexPrev.hash) : branch = active := by
  obtain ⟨block, found, length⟩ := isBranch.last
  obtain ⟨own, held, ownLength⟩ := stored.isBranch.last
  have entries := holds.entry_eq stored.holds (mem_of_getElem? found) (mem_of_getElem? held) same.symm
  obtain ⟨rfl, rfl⟩ := Prod.mk.inj entries
  apply ext_getElem? fun j => ?_
  rcases Nat.lt_or_ge pindexPrev.nHeight j with above | below
  · grind
  · exact isBranch.agree_below stored.isBranch holds stored.holds found held rfl below

lemma StoredChain.unspent_iff {outpoint} :
    ((newCache node.pcoinsTip).accessCoin outpoint).1.isSpent = false ↔ (branchCoins host active outpoint).isSome = true := by
  have wellFormed := (newCache_valid stored.wellFormed).wellFormed
  rw [accessCoin_fst wellFormed, newCache_visible, ← stored.coins]
  cases shown : node.pcoinsTip.visible _ with
  | none => simp
  | some coin => simp [visible_unspent stored.wellFormed shown]
end

variable {context : AcceptContext} {block : CBlock}
def AtSplitOrLater (host : Host) (node : NodeState) (branch : Branch) (outpoint : COutPoint) : Prop :=
  (branchCoins host (commonPart node branch) outpoint).isSome = true ∨
    ∃ entry ∈ sidePart node branch, ∃ tx ∈ entry.2.vtx, (createdCoin host tx entry.1.nHeight outpoint).isSome = true

lemma unspent_of_fork (stored : StoredChain host node active tip) (isBranch : IsBranch host branch pindexPrev)
    (holds : HoldsBranch node branch) {bl} (read : node.readBlockFromDisk host pindexPrev = some bl)
    (walks : walkFork host node context.nMaxReorgDepth (stakeInputs block) (pindexPrev.nHeight + 1) 0 bl pindexPrev = .ok ())
    {txin} (mem : txin ∈ stakeInputs block) :
    (branchCoins host branch txin.prevout).isSome = true ↔ AtSplitOrLater host node branch txin.prevout := by
  obtain ⟨last, found, length⟩ := isBranch.last
  rw [readBlockFromDisk_of_branch isBranch holds (mem_of_getElem? found)] at read
  cases read
  obtain ⟨⟨j, entry, at_j, ins⟩, clean⟩ := walkFork_spec stored isBranch holds found walks
  -- The walk ended on the active chain, so the branch shares at least its genesis block with it.
  have ne : commonPart node branch ≠ [] := by
    cases branch with
    | nil => simp at at_j
    | cons first rest =>
      have start := stored.contains_below isBranch holds at_j (j := 0) rfl (Nat.zero_le j) ins
      simp [commonPart, start]
  have kept : ∀ entry ∈ sidePart node branch, ∀ tx ∈ entry.2.vtx, txin.prevout ∉ tx.prevouts := by
    intro entry aside tx inBlock
    have outside := stored.sidePart_outside isBranch holds _ aside
    obtain ⟨i, bound, rfl⟩ := getElem_of_mem ((dropWhile_sublist _).mem aside)
    exact not_mem_prevouts (clean i _ (by omega) (getElem?_eq_getElem _) outside tx inBlock) mem
  conv => lhs; rw [← commonPart_append branch, branchCoins, tail_append_of_ne_nil ne, applyBlocks, foldl_append]
  exact applyBlocks_unspent kept
end

/-- The block extends the tip, or the coins exist at the split or after it. -/
theorem acceptBlock_stakes_branch_coins_iff {host : Host} {params : CChainParams} {context : AcceptContext}
    {node after : NodeState} {block : CBlock} {pindex pindexPrev tip : CBlockIndex} {active branch : Branch}
    (stored : StoredChain host node active tip) (isBranch : IsBranch host branch pindexPrev)
    (holds : HoldsBranch node branch) (parent : block.hashPrevBlock = pindexPrev.hash)
    (staked : block.isProofOfStake = true)
    (writes : acceptBlock host params context node block = .ok (.written after pindex)) :
    (∀ txin ∈ stakeInputs block, (branchCoins host branch txin.prevout).isSome = true) ↔
      tip.hash = pindexPrev.hash ∨ ∀ txin ∈ stakeInputs block, AtSplitOrLater host node branch txin.prevout := by
  obtain ⟨prev, found, -, checks⟩ := acceptBlock_staked staked writes
  obtain ⟨last, inBranch, -⟩ := isBranch.last
  obtain rfl : prev = pindexPrev := by
    have own := holds.indexed _ (mem_of_getElem? inBranch)
    rw [parent, own] at found
    exact (Option.some.inj found).symm
  obtain ⟨-, checks⟩ := require_bind_eq_ok.mp checks
  rw [isBlockFromFork, stored.tip_eq, Option.map_some] at checks
  by_cases onTip : tip.hash = prev.hash
  · -- No fork: the last loop of AcceptBlock has looked every input up in the coins of this very chain.
    simp only [onTip, bne_self_eq_false, Bool.false_eq_true, if_false, require_eq_ok, all_eq_true,
      Bool.not_eq_eq_eq_not, Bool.not_true] at checks
    refine ⟨fun _ => .inl onTip, fun _ txin member => ?_⟩
    rw [stored.branch_eq isBranch holds onTip]
    exact (stored.unspent_iff).mp (checks _ member)
  · -- A fork: that loop rejects nothing, and only the walk to the split speaks about the inputs.
    rw [if_pos (by simpa using onTip)] at checks
    split at checks
    · cases checks
    · rename_i bl read
      have each : ∀ txin ∈ stakeInputs block, (branchCoins host branch txin.prevout).isSome = true ↔
          AtSplitOrLater host node branch txin.prevout :=
        fun txin member => unspent_of_fork stored isBranch holds read checks member
      constructor
      · exact fun unspent => .inr fun txin member => (each _ member).mp (unspent _ member)
      · grind

def dataOut : CTxOut := ⟨0, [OP_RETURN]⟩

def sampleTxs : Nat → List CTransaction
  | 1 => [{ coinbaseTx 11 0 with vout := [⟨1000, []⟩, ⟨1000, []⟩] }]
  | 2 => [{ coinbaseTx 12 0 with vout := [dataOut] }, paymentTx 22 [⟨11, 0⟩] [dataOut]]
  | h => [{ coinbaseTx (10 + h) 0 with vout := [dataOut] }]

def sampleBranch (nBlocks : Nat) : Branch := (List.range nBlocks).map fun h => (indexAt h, blockAt h (sampleTxs h))

lemma sampleBranch_isBranch (h : Nat) : IsBranch labelHost (sampleBranch (h + 1)) (indexAt h) where
  tip := by simp [sampleBranch, range_succ]
  heights := by
    intro i entry found
    obtain ⟨j, inside, rfl⟩ := Option.map_eq_some_iff.mp (List.getElem?_map .. ▸ found)
    obtain ⟨_, rfl⟩ := List.getElem?_eq_some_iff.mp inside
    exact List.getElem_range _
  hashes := by
    intro entry mem
    obtain ⟨j, -, rfl⟩ := mem_map.mp mem
    rfl
  linked := by
    intro i parent child parentAt childAt
    obtain ⟨j, inside, rfl⟩ := Option.map_eq_some_iff.mp (List.getElem?_map .. ▸ parentAt)
    obtain ⟨k, above, rfl⟩ := Option.map_eq_some_iff.mp (List.getElem?_map .. ▸ childAt)
    obtain ⟨_, rfl⟩ := List.getElem?_eq_some_iff.mp inside
    obtain ⟨_, rfl⟩ := List.getElem?_eq_some_iff.mp above
    simp [indexAt]

def sampleForkNode : NodeState where
  mapBlockIndex := (sampleBranch 4).foldl (fun indexes entry => indexes.insert entry.1.hash entry.1) ∅
  chainActive := straightChain 4
  mempool := ∅
  fTxIndex := true
  txIndex := (sampleTxs 1).foldl (fun txs tx => txs.insert (labelHost.getHash tx) ((blockAt 1 []).toCBlockHeader, tx)) ∅
  blockFiles := (sampleBranch 4).foldl (fun blocks entry => blocks.insert entry.1.hash entry.2) ∅
  pcoinsTip := .db ⟨3, (∅ : CoinMap).insert ⟨11, 1⟩ ⟨true, false, ⟨1000, []⟩, 1⟩⟩

def forkStake (n : Nat) : CBlock :=
  { blockAt 3 [{ coinbaseTx 14 0 with vout := [⟨0, []⟩] }, paymentTx 24 [⟨11, n⟩] [⟨0, []⟩, ⟨1000, []⟩]] with
    nTime := 1721466406
    nBits := 0x03000001
    nNonce := 33 }

def sampleContext : AcceptContext where
  fInitialBlockDownload := false
  nSporkSize := MAX_BLOCK_SIZE_CURRENT
  nMaxReorgDepth := 100
  fAlreadyCheckedBlock := false
  getNextWorkRequired _ block := block.nBits
  checkBlockTime _ _ := .ok ()
  getBlockProof _ := 1
  computeStakeModifier _ _ := ([], false)
  reconsiders _ := false
  mapRejectedBlocks _ := false

def AcceptResult.isWritten : AcceptResult → Bool
  | .written _ _ => true
  | _ => false

lemma forkStake_written (n : Nat) (small : n < 2) : ∃ after pindex,
    acceptBlock labelHost mainParams sampleContext sampleForkNode (forkStake n) = .ok (.written after pindex) := by
  have runs : ∀ n < 2, (acceptBlock labelHost mainParams sampleContext sampleForkNode (forkStake n)).toOption.any
      AcceptResult.isWritten = true := by decide +kernel
  obtain ⟨res, acc, written⟩ := exists_ok_of_any (runs n small)
  cases res with
  | written after pindex => exact ⟨_, _, acc⟩
  | reconsidered => cases written
  | duplicate pindex => cases written

lemma sampleForkNode_holds (nBlocks : Nat) (le : nBlocks ≤ 4) : HoldsBranch sampleForkNode (sampleBranch nBlocks) := by
  have idx : ∀ h < 4, sampleForkNode.mapBlockIndex.lookup (indexAt h).hash = some (indexAt h) := by decide +kernel
  have stored : ∀ h < 4, sampleForkNode.blockFiles.lookup (indexAt h).hash = some (blockAt h (sampleTxs h)) := by decide +kernel
  constructor
  · intro entry mem
    obtain ⟨h, ins, rfl⟩ := mem_map.mp mem
    exact idx h (by have := mem_range.mp ins; omega)
  · intro entry mem
    obtain ⟨h, ins, rfl⟩ := mem_map.mp mem
    exact stored h (by have := mem_range.mp ins; omega)

lemma createdCoin_dataOut {host tx} (only : tx.vout = [dataOut]) (nHeight : Nat)
    (outpoint) : createdCoin host tx nHeight outpoint = none := by
  rw [createdCoin, only]
  split
  · cases outpoint.n <;> rfl
  · rfl

lemma branchCoins_sampleBranch (outpoint) : branchCoins labelHost (sampleBranch 4) outpoint =
    if outpoint = ⟨11, 1⟩ then some ⟨true, false, ⟨1000, []⟩, 1⟩ else none := by
  have steps : branchCoins labelHost (sampleBranch 4) outpoint =
      if outpoint = ⟨11, 0⟩ then none else createdCoin labelHost ⟨1, [⟨⟨0, 4294967295⟩, [0, 0], 4294967295⟩],
        [⟨1000, []⟩, ⟨1000, []⟩], 11⟩ 1 outpoint := by
    simp [branchCoins, applyBlocks, sampleBranch, range_succ, sampleTxs, applyTxs, applyTx,
      create, spendAll, createdCoin_dataOut, CTransaction.prevouts, CTransaction.isCoinBase, coinbaseTx,
      paymentTx, COutPoint.isNull, blockAt, indexAt]
  rw [steps]
  obtain ⟨hash, n⟩ := outpoint
  by_cases own : hash = 11
  · subst own
    rcases n with _ | _ | n
    · rfl
    · rfl
    · simp [createdCoin]
  · have other : ¬ hash = 11#256 := own
    simp [createdCoin, labelHost, other]

lemma sampleForkNode_stored : StoredChain labelHost sampleForkNode (sampleBranch 4) (indexAt 3) where
  isBranch := sampleBranch_isBranch 3
  vChain := rfl
  holds := sampleForkNode_holds 4 le_rfl
  wellFormed := by
    intro outpoint coin found
    by_cases own : outpoint = ⟨11, 1⟩
    · subst own
      cases found
      rfl
    · rw [AList.lookup_insert_ne own] at found
      cases found
  coins := by
    funext outpoint
    rw [branchCoins_sampleBranch]
    split
    · rename_i own
      subst own
      rfl
    · rename_i other
      exact AList.lookup_insert_ne other

lemma sampleBranch_common : commonPart sampleForkNode (sampleBranch 3) = sampleBranch 3 := by decide +kernel

theorem forkStake_own_coin : ∃ after pindex,
    acceptBlock labelHost mainParams sampleContext sampleForkNode (forkStake 1) = .ok (.written after pindex) ∧
    ∀ txin ∈ stakeInputs (forkStake 1), (branchCoins labelHost (sampleBranch 3) txin.prevout).isSome = true := by
  obtain ⟨after, pindex, writes⟩ := forkStake_written 1 (by decide)
  refine ⟨after, pindex, writes, ?_⟩
  refine (acceptBlock_stakes_branch_coins_iff sampleForkNode_stored (sampleBranch_isBranch 2)
    (sampleForkNode_holds 3 (by decide)) rfl rfl writes).mpr (.inr fun txin member => .inl ?_)
  cases mem_singleton.mp member
  rw [sampleBranch_common]
  decide +kernel

/-- A block on top of block 2 stakes the output that block 2 has spent, and is written. -/
theorem acceptBlock_writes_spent_stake : ∃ after pindex,
    acceptBlock labelHost mainParams sampleContext sampleForkNode (forkStake 0) = .ok (.written after pindex) ∧
    StoredChain labelHost sampleForkNode (sampleBranch 4) (indexAt 3) ∧
    IsBranch labelHost (sampleBranch 3) (indexAt 2) ∧ HoldsBranch sampleForkNode (sampleBranch 3) ∧
    (forkStake 0).hashPrevBlock = (indexAt 2).hash ∧ (forkStake 0).isProofOfStake = true ∧
    mainParams.checkpoints.nTimeLastCheckpoint < (forkStake 0).nTime ∧
    ∃ txin ∈ stakeInputs (forkStake 0), branchCoins labelHost (sampleBranch 3) txin.prevout = none := by
  obtain ⟨after, pindex, writes⟩ := forkStake_written 0 (by decide)
  refine ⟨after, pindex, writes, sampleForkNode_stored, sampleBranch_isBranch 2, sampleForkNode_holds 3 (by decide), rfl,
    rfl, by decide, ⟨⟨11, 0⟩, [], 4294967295⟩, mem_singleton.mpr rfl, ?_⟩
  decide +kernel

end Peony
