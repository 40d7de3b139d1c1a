import Peony.Stake.Depth
import Peony.Validation.ConnectBlock

namespace Peony
open Consensus Except.Avoids Except

def Failure.IsFault : Failure → Prop
  | .fault _ => True
  | _ => False

/-- `checkCoins` stands for the checks of the found coins: standard scripts, signature operations, fees and signatures. -/
structure PoolContext where
  nBlockTime : Nat
  fRegTest : Bool
  isStandardTx : CTransaction → Except String Unit
  mapNextTx : COutPoint → Bool
  checkCoins : CTransaction → Except Failure Unit
  checkCoins_safe : ∀ tx, (checkCoins tx).Avoids Failure.IsFault

section
variable (host : Host) (params : Params) (node : NodeState) (context : PoolContext) (tx : CTransaction)
def NodeState.poolHaveCoin (outpoint : COutPoint) : Except Failure Bool :=
  match node.mempool.lookup outpoint.hash with
  | some pooled =>
    if outpoint.n < pooled.vout.length then do
      let out ← pooled.voutAt outpoint.n
      return !out.isNull
    else .ok false
  | none => .ok (!(node.pcoinsTip.accessCoin outpoint).1.isSpent)

def poolPrechecks : Except Failure Unit := do
  checkTransaction host params tx
  require (!tx.isCoinBase) (.dos 100 "coinbase")
  require (!tx.isCoinStake) (.dos 100 "coinstake")
  require (isFinalTx tx node.chainActive.vChain.length context.nBlockTime) (.dos 0 "non-final")
  (if context.fRegTest then .ok () else (context.isStandardTx tx).mapError (.dos 0) : Except Failure Unit)
  require (node.mempool.lookup (host.getHash tx)).isNone (.invalid "txn-already-in-mempool")

def poolInputChecks : Except Failure Unit := do
  require (tx.vin.all fun txin => !context.mapNextTx txin.prevout) (.invalid "txn-mempool-conflict")
  (List.range tx.vout.length).forM fun out => do
    let known ← node.poolHaveCoin ⟨host.getHash tx, out⟩
    require (!known) (.invalid "txn-already-known")
  tx.vin.forM fun txin => do
    let found ← node.poolHaveCoin txin.prevout
    require found (.error "missing inputs")
  context.checkCoins tx

def acceptToMemoryPoolWorker : Except Failure Unit := do
  poolPrechecks host params node context tx
  (if params.mBurnAddresses.entries.isEmpty then .ok () else
    tx.vin.forM (scanBurnAddress host params node node.chainActive.height (.dos 0 "bad-txns-invalid-outputs")) :
    Except Failure Unit)
  poolInputChecks host node context tx
end

def getOutput (host : Host) (node : NodeState) (hash : UInt256) (index : Nat) : Except Failure CTxOut :=
  match node.getTransaction host hash with
  | none => .error (.dos 100 "Output not found")
  | some (txPrev, _) => do
    require (decide (index ≤ txPrev.vout.length)) (.dos 100 "Output not found, invalid index")
    txPrev.voutAt index

variable (host : Host) (params : CChainParams) (node : NodeState) (block : CBlock) (pindexPrev : CBlockIndex)
def CPivStake.getValue (stake : CPivStake) : Except Failure Int := do
  let out ← stake.txFrom.voutAt stake.nPosition
  return out.nValue

/-- The kernel's constructor takes the value before `GetTxOutFrom` looks at the number of outputs. -/
def readStakeInput (stake : CPivStake) (stakeModifier : List UInt8) : Except Failure Unit := do
  require (stake.contextCheck params.consensus (pindexPrev.nHeight + 1) block.nTime)
    (.error "stake input failing contextual checks")
  let stakeValue ← stake.getValue
  let kernel : CStakeKernel := ⟨stakeModifier, stake.pindexFrom.nTime, stake.getUniqueness host, block.nTime, block.nBits,
    stakeValue⟩
  require (kernel.checkKernelHash host) (.error "kernel hash check fails")
  match stake.getTxOutFrom, block.vtx[1]? with
  | some stakePrevout, some tx =>
    require (host.verifyScript ((tx.vin.head?.map (·.scriptSig)).getD []) stakePrevout.scriptPubKey
      STANDARD_SCRIPT_VERIFY_FLAGS tx 0 stakePrevout.nValue) (.error "signature fails: ")
  | _, _ => .error (.error "unable to get stake prevout for coinstake")

def readProofOfStake : Except Failure Unit :=
  if block.nTime ≤ params.checkpoints.nTimeLastCheckpoint then .ok ()
  else match loadStakeInput host node block pindexPrev with
    | none => .error (.error "stake input initialization failed")
    | some stake => readStakeInput host params block pindexPrev stake
        (kernelModifier params.consensus node.chainActive.vChain pindexPrev stake.pindexFrom)

variable {host : Host} {params : Params} {node : NodeState} {context : PoolContext} {tx : CTransaction} {txin : CTxIn}
  {nHeight : Int} {level : Nat} {reason : String}

lemma voutAt_safe_iff {tx : CTransaction} {n} : (tx.voutAt n).Avoids Failure.IsFault ↔ n < tx.vout.length := by
  unfold CTransaction.voutAt
  cases found : tx.vout[n]? with
  | some out => exact ⟨fun _ => (List.getElem?_eq_some_iff.mp found).1, fun _ => .ok _⟩
  | none =>
    refine ⟨fun safe => absurd trivial (safe _ rfl), fun ins => ?_⟩
    rw [List.getElem?_eq_none_iff] at found
    omega

def PrevoutInBounds (host : Host) (node : NodeState) (txin : CTxIn) : Prop :=
  ∀ txPrev hashBlock, node.getTransaction host txin.prevout.hash = some (txPrev, hashBlock) →
    txin.prevout.n < txPrev.vout.length

lemma scanBurnAddress_safe_iff : (scanBurnAddress host params node nHeight (.dos level reason) txin).Avoids Failure.IsFault ↔
    PrevoutInBounds host node txin := by
  unfold scanBurnAddress PrevoutInBounds
  cases found : node.getTransaction _ _ with
  | none => exact ⟨fun _ _ _ none => (by cases none), fun _ => .ok ()⟩
  | some entry =>
    obtain ⟨txPrev, hashBlock⟩ := entry
    rw [until_iff fun out => require not_false, voutAt_safe_iff]
    refine ⟨fun ins other hash same => ?_, fun ins => ins _ _ rfl⟩
    cases same
    exact ins

/-- Every output the scan reads is there; a scan without burn addresses, or past a rejection, reads none. -/
def ScanInBounds (host : Host) (params : Params) (node : NodeState) (nHeight : Int) (banned : Failure) (inputs : List CTxIn) : Prop :=
  params.mBurnAddresses.entries.isEmpty = false → ∀ before txin after, inputs = before ++ txin :: after →
    (∀ earlier ∈ before, scanBurnAddress host params node nHeight banned earlier = .ok ()) → PrevoutInBounds host node txin

lemma scan_safe_iff (inputs) : (if params.mBurnAddresses.entries.isEmpty then .ok () else
      inputs.forM (scanBurnAddress host params node nHeight (.dos level reason)) : Except Failure Unit).Avoids Failure.IsFault ↔
      ScanInBounds host params node nHeight (.dos level reason) inputs := by
  unfold ScanInBounds
  cases params.mBurnAddresses.entries.isEmpty with
  | true => exact ⟨fun _ full => (by cases full), fun _ => .ok ()⟩
  | false =>
    simp only [Bool.false_eq_true, if_false, true_imp_iff, forM_iff, scanBurnAddress_safe_iff]

lemma checkOutputs_safe {vout} (nValueOut : Int) : (checkOutputs params tx nValueOut vout).Avoids Failure.IsFault := by
  induction vout generalizing nValueOut with
  | nil => exact .ok ()
  | cons out vout ih =>
    iterate 4 refine .bind (.require not_false) fun _ _ => ?_
    exact ih _

lemma checkTransaction_safe : (checkTransaction host params tx).Avoids Failure.IsFault := by
  iterate 3 refine .bind (.require not_false) fun _ _ => ?_
  refine .bind (checkOutputs_safe 0) fun _ _ => ?_
  refine .bind (.require not_false) fun _ _ => ?_
  split
  · exact .require not_false
  · exact .require not_false

lemma poolPrechecks_safe : (poolPrechecks host params node context tx).Avoids Failure.IsFault := by
  refine .bind checkTransaction_safe fun _ _ => ?_
  iterate 3 refine .bind (.require not_false) fun _ _ => ?_
  refine .bind ?_ fun _ _ => .require not_false
  split
  · exact .ok ()
  · cases context.isStandardTx tx with
    | ok _ => exact .ok ()
    | error reason => exact .error not_false

lemma poolHaveCoin_safe {op : COutPoint} : (node.poolHaveCoin op).Avoids Failure.IsFault := by
  unfold NodeState.poolHaveCoin
  split
  · split
    · rename_i ins
      exact .bind ((voutAt_safe_iff).mpr ins) fun out _ => .ok _
    · exact .ok _
  · exact .ok _

lemma poolInputChecks_safe : (poolInputChecks host node context tx).Avoids Failure.IsFault := by
  refine .bind (.require not_false) fun _ _ => ?_
  refine .bind (.forM _ fun out _ => .bind (poolHaveCoin_safe) fun _ _ => .require not_false) fun _ _ => ?_
  refine .bind (.forM _ fun out _ => .bind (poolHaveCoin_safe) fun _ _ => .require not_false) fun _ _ => ?_
  exact context.checkCoins_safe tx

lemma acceptToMemoryPoolWorker_safe_iff : (acceptToMemoryPoolWorker host params node context tx).Avoids Failure.IsFault ↔
      (poolPrechecks host params node context tx = .ok () →
        ScanInBounds host params node node.chainActive.height (.dos 0 "bad-txns-invalid-outputs") tx.vin) := by
  unfold acceptToMemoryPoolWorker
  rw [then_iff poolPrechecks_safe, until_iff fun _ => poolInputChecks_safe,
    scan_safe_iff]

def CBlock.scannedInputs (block : CBlock) : List CTxIn :=
  block.vtx.flatMap fun tx => if tx.isCoinBase then [] else tx.vin

lemma contextualCheckBlock_safe_iff {fInitialBlockDownload nSporkSize block pindexPrev} :
    (contextualCheckBlock host params node fInitialBlockDownload nSporkSize block pindexPrev).Avoids Failure.IsFault ↔
      ((∀ tx ∈ block.vtx, isFinalTx tx (pindexPrev.elim 0 fun pindex => pindex.nHeight + 1) block.nTime = true) →
        ScanInBounds host params node ((pindexPrev.elim 0 fun pindex => pindex.nHeight + 1 : Nat) : Int)
          (.dos 100 "bad-txns-banned") block.scannedInputs) := by
  have scan : ∀ nHeight, (block.vtx.forM fun tx => if tx.isCoinBase then (.ok () : Except Failure Unit) else
      tx.vin.forM (scanBurnAddress host params node nHeight (.dos 100 "bad-txns-banned"))) =
      block.scannedInputs.forM (scanBurnAddress host params node nHeight (.dos 100 "bad-txns-banned")) := by
    intro nHeight
    rw [CBlock.scannedInputs, forM_flatMap]
    congr 1
    funext tx
    split <;> rfl
  unfold contextualCheckBlock
  simp only [scan]
  rw [then_iff (.require not_false)]
  rw [require_eq_ok, List.all_eq_true, until_iff fun _ => require not_false, scan_safe_iff]

lemma getOutput_safe_iff {hash} {index : Nat} : (getOutput host node hash index).Avoids Failure.IsFault ↔
    ∀ txPrev hashBlock, node.getTransaction host hash = some (txPrev, hashBlock) → index ≠ txPrev.vout.length := by
  unfold getOutput
  cases node.getTransaction _ _ with
  | none => exact ⟨fun _ _ _ none => (by cases none), fun _ => .error not_false⟩
  | some entry =>
    obtain ⟨txPrev, hashBlock⟩ := entry
    rw [then_iff (.require not_false)]
    simp only [require_eq_ok, decide_eq_true_eq, voutAt_safe_iff, Option.some.injEq, Prod.mk.injEq]
    constructor
    · grind
    · intro other passed
      have notLast := other _ _ ⟨rfl, rfl⟩
      omega

variable {host : Host} {params : CChainParams} {node : NodeState} {block : CBlock} {pindexPrev : CBlockIndex}
  {stake : CPivStake} {stakeModifier : List UInt8}

lemma getValue_safe_iff (stake : CPivStake) : stake.getValue.Avoids Failure.IsFault ↔ stake.nPosition < stake.txFrom.vout.length := by
  unfold CPivStake.getValue
  rw [until_iff, voutAt_safe_iff]
  intro out
  exact .ok _

lemma readStakeInput_safe_iff : (readStakeInput host params block pindexPrev stake stakeModifier).Avoids Failure.IsFault ↔
      (stake.contextCheck params.consensus (pindexPrev.nHeight + 1) block.nTime = true →
        stake.nPosition < stake.txFrom.vout.length) := by
  unfold readStakeInput
  rw [then_iff (.require not_false), require_eq_ok, until_iff, getValue_safe_iff]
  intro stakeValue
  refine .bind (.require not_false) fun _ _ => ?_
  split
  · exact .require not_false
  · exact .error not_false

lemma readProofOfStake_safe_iff : (readProofOfStake host params node block pindexPrev).Avoids Failure.IsFault ↔
      ∀ stake, params.checkpoints.nTimeLastCheckpoint < block.nTime → loadStakeInput host node block pindexPrev = some stake →
        stake.contextCheck params.consensus (pindexPrev.nHeight + 1) block.nTime = true →
        stake.nPosition < stake.txFrom.vout.length := by
  unfold readProofOfStake
  by_cases early : block.nTime ≤ params.checkpoints.nTimeLastCheckpoint
  · rw [if_pos early]
    exact ⟨fun _ _ late => absurd late (by omega), fun _ => .ok ()⟩
  · rw [if_neg early]
    cases loadStakeInput _ _ _ _ with
    | none => exact ⟨fun _ _ _ none => (by cases none), fun _ => .error not_false⟩
    | some stake =>
      rw [readStakeInput_safe_iff]
      constructor
      · rintro ins _ - ⟨⟩
        exact ins
      · intro ins
        exact ins _ (by omega) rfl

/-- Where the staked output is there, the order of the reads does not matter. -/
lemma readProofOfStake_eq_checkProofOfStake
    (ins : ∀ stake, loadStakeInput host node block pindexPrev = some stake → stake.nPosition < stake.txFrom.vout.length) :
    readProofOfStake host params node block pindexPrev =
      (checkProofOfStake host params node block pindexPrev).mapError .error := by
  unfold readProofOfStake checkProofOfStake
  split
  · rfl
  · cases loaded : loadStakeInput _ _ _ _ with
    | none => rfl
    | some stake =>
      have bound := ins _ loaded
      obtain ⟨tx, coinstake⟩ : ∃ tx, block.vtx[1]? = some tx := by
        obtain ⟨txin, staked, -⟩ := Option.bind_eq_some_iff.mp loaded
        unfold stakeTxIn at staked
        split at staked
        · cases staked
        · split at staked
          · cases staked
          · split at staked
            · rename_i tx _ shape
              exact ⟨tx, by rw [shape]; rfl⟩
            · cases staked
      rcases List.getElem?_eq_some_iff.mpr ⟨bound, rfl⟩ with found
      have full : stake.txFrom.isNull = false := by
        cases shape : stake.txFrom.vout with
        | nil =>
          rw [shape] at bound
          exact absurd bound (Nat.not_lt_zero _)
        | cons out vout => simp [CTransaction.isNull, shape]
      simp only [readStakeInput, checkStakeInput, CPivStake.getValue, CTransaction.voutAt, CPivStake.getTxOutFrom, full, found,
        coinstake, Bool.false_eq_true, if_false, mapError_require_bind, mapError_require]
      rfl

def openPool : PoolContext where
  nBlockTime := 0
  fRegTest := false
  isStandardTx _ := .ok ()
  mapNextTx _ := false
  checkCoins _ := .ok ()
  checkCoins_safe _ := .ok ()

def pastTheEndTx : CTransaction := paymentTx 0 [⟨1, 5⟩] [⟨0, []⟩, ⟨100, [0x51]⟩]
def pastTheEndPayment : CTransaction := paymentTx 0 [⟨1, 5⟩] [⟨100, [0x51]⟩]

def pastTheEndBlock : CBlock :=
  { stakeBlock 200000 1721466406 with vtx := [coinbaseTx 0 0, pastTheEndTx] }

end Peony
