import Peony.Consensus.TxVerify

namespace Peony
open Consensus Except

def MAX_BLOCK_SIGOPS_LEGACY : Nat := 20000

variable (host : Host) (params : Params)
/-- A block object that passed once with both checks on is not checked again. -/
def checkBlockFlags (block : CBlock) (fChecked fCheckPOW fCheckMerkleRoot : Bool) : Except Failure Unit :=
  if fChecked then .ok ()
  else do
    let isPoS := block.isProofOfStake
    require (isPoS || !fCheckPOW || host.checkProofOfWork (host.getBlockHash block.toCBlockHeader) block.nBits)
      (.dos 50 "high-hash")
    require (!fCheckMerkleRoot || block.hashMerkleRoot == (host.blockMerkleRoot block.vtx).1) (.dos 100 "bad-txnmrklroot")
    require (!fCheckMerkleRoot || !(host.blockMerkleRoot block.vtx).2) (.dos 100 "bad-txns-duplicate")
    require (!block.vtx.isEmpty && decide (block.vtx.length ≤ MAX_BLOCK_SIZE_CURRENT) &&
      decide (host.getBlockSerializeSize block ≤ MAX_BLOCK_SIZE_CURRENT)) (.dos 100 "bad-blk-length")
    require (block.vtx.head?.any CTransaction.isCoinBase) (.dos 100 "bad-cb-missing")
    require (block.vtx.tail.all fun tx => !tx.isCoinBase) (.dos 100 "bad-cb-multiple")
    require (!isPoS || block.vtx.head?.any fun tx => tx.vout.length == 1 && tx.vout.all CTxOut.isEmpty)
      (.dos 100 "bad-cb-pos")
    require (!isPoS || (block.vtx[1]?).any CTransaction.isCoinStake) (.dos 100 "bad-cs-missing")
    require (!isPoS || (block.vtx.drop 2).all fun tx => !tx.isCoinStake) (.dos 100 "bad-cs-multiple")
    require (host.isBlockPayeeValid block) (.dos 0 "bad-cb-payee")
    block.vtx.forM fun tx => checkTransaction host params tx
    require (decide ((block.vtx.map host.getLegacySigOpCount).sum ≤ MAX_BLOCK_SIGOPS_LEGACY))
      (.dos 100 "bad-blk-sigops")

/-- The checks of a block seen for the first time. -/
def checkBlock (block : CBlock) : Except Failure Unit := checkBlockFlags host params block false true true

/-- `vout[n]`, which the source reads without a bounds check of its own. -/
def CTransaction.voutAt (tx : CTransaction) (n : Nat) : Except Failure CTxOut :=
  match tx.vout[n]? with
  | some out => .ok out
  | none => .error (.fault "vout[n]")

def scanBurnAddress (node : NodeState) (nHeight : Int) (banned : Failure) (txin : CTxIn) : Except Failure Unit :=
  match node.getTransaction host txin.prevout.hash with
  | none => .ok ()
  | some (txPrev, _) => do
    let out ← txPrev.voutAt txin.prevout.n
    require (!(host.extractDestination out.scriptPubKey).any fun addr =>
      (params.mBurnAddresses.lookup addr).any fun activation => decide (activation < nHeight)) banned

/-- `nSporkSize` is the block size spork; the height check of the coinbase is commented out in the source. -/
def contextualCheckBlock (node : NodeState) (fInitialBlockDownload : Bool) (nSporkSize : Nat)
    (block : CBlock) (pindexPrev : Option CBlockIndex) : Except Failure Unit := do
  let nHeight := pindexPrev.elim 0 fun pindex => pindex.nHeight + 1
  require (block.vtx.all fun tx => isFinalTx tx nHeight block.nTime) (.dos 10 "bad-txns-nonfinal")
  (if params.mBurnAddresses.entries.isEmpty then .ok () else block.vtx.forM fun tx =>
    if tx.isCoinBase then .ok () else
      tx.vin.forM (scanBurnAddress host params node nHeight (.dos 100 "bad-txns-banned")) : Except Failure Unit)
  require (nHeight == 0 || fInitialBlockDownload ||
    decide (host.getBlockSerializeSize block ≤ max 1000 (min nSporkSize MAX_BLOCK_SIZE_CURRENT))) (.invalid "bad-blk-length")

structure CheckedBlock (params : Params) (block : CBlock) : Prop where
  coinbase : ∃ tx vtx, block.vtx = tx :: vtx ∧ tx.isCoinBase = true ∧ ∀ other ∈ vtx, other.isCoinBase = false
  emptyCoinbase : block.isProofOfStake = true → ∀ tx ∈ block.vtx.head?, tx.valueOut = 0
  oneCoinstake : block.isProofOfStake = true → ∀ tx ∈ block.vtx.drop 2, tx.isCoinStake = false
  transactions : ∀ tx ∈ block.vtx, CheckedTransaction params tx

lemma checkBlock_spec {host params block}
    (passed : checkBlock host params block = .ok ()) : CheckedBlock params block := by
  simp only [checkBlock, checkBlockFlags, Bool.false_eq_true, if_false, unit_bind_eq_ok, require_eq_ok, forM_eq_ok] at passed
  obtain ⟨-, -, -, -, first, others, empty, -, single, -, transactions, -⟩ := passed
  have chk : ∀ tx ∈ block.vtx, CheckedTransaction params tx :=
    fun tx mem => checkTransaction_spec (transactions tx mem)
  refine ⟨?_, ?_, ?_, chk⟩
  · cases shape : block.vtx with
    | nil => simp [shape] at first
    | cons tx vtx =>
      simp only [shape, List.head?_cons, Option.any_some, List.tail_cons, List.all_eq_true, Bool.not_eq_eq_eq_not,
        Bool.not_true] at first others
      exact ⟨tx, _, rfl, first, others⟩
  · intro staked tx mem
    simp only [staked, Bool.not_true, Bool.false_or] at empty
    rw [Option.mem_def] at mem
    simp only [mem, Option.any_some, Bool.and_eq_true, beq_iff_eq, List.all_eq_true] at empty
    have zero : ∀ amt ∈ tx.vout.map (·.nValue), amt = 0 := by
      intro amt ins
      obtain ⟨out, inVout, rfl⟩ := List.mem_map.mp ins
      have blank := empty.2 _ inVout
      simp only [CTxOut.isEmpty, Bool.and_eq_true, beq_iff_eq] at blank
      exact blank.1
    exact List.sum_eq_zero zero
  · intro staked tx mem
    simp only [staked, Bool.not_true, Bool.false_or, List.all_eq_true, Bool.not_eq_eq_eq_not] at single
    exact single tx mem

end Peony
