import Mathlib.Data.List.Induction
import Peony.Masternode.PaymentAgreement
import Peony.Rewards.MintEffect

namespace Peony
open Int64Arith Consensus PaymentView

def masternodeShare (nHeight : Nat) (nBlockValue : Int) : Int :=
  if 110000 < nHeight then (wrapInt64 (nBlockValue * 65)).tdiv 100
  else if 3000 < nHeight then (wrapInt64 (nBlockValue * 80)).tdiv 100
  else 0

/-- The block value once the reward hook ran, which may make the block's own mint the reward. -/
def valueAfter (params : Params) (ready : CRewards) (nHeight : Nat) (nMint : Int) : Int :=
  if params.networkUpgradeActive nHeight .dynamicRewards = true ∧ params.isDynamicRewardsEpochHeight nHeight = false ∧
      ready.mDynamicRewards.lookup (params.getDynamicRewardsEpochHeight nHeight) = none ∧ 0 < nMint then
    min (getBlockSubsidy nHeight) nMint
  else getBlockValue params ready.mDynamicRewards nHeight

variable {host : Host} {params : Params} {hook : CRewards.Hook} {pindex : CBlockIndex} {nMint : Int} {ready next : CRewards}
lemma getBlockValue_of_earlier {mDynamicRewards mDynamicRewards' nHeight}
    (same : ∀ k, k ≠ nHeight → mDynamicRewards'.lookup k = mDynamicRewards.lookup k) :
    getBlockValue params mDynamicRewards' nHeight = getBlockValue params mDynamicRewards nHeight := by
  rw [getBlockValue_eq_rewardLimit, getBlockValue_eq_rewardLimit]
  apply rewardLimit_congr
  intro h le _ other
  have below := epochHeight_lt other
  rw [same _ (by omega)]

lemma getBlockValue_after {nHeight} (height : pindex.nHeight = nHeight)
    (conn : ready.connectReady host params hook pindex nMint = .ok (next, true)) :
    getBlockValue params next.mDynamicRewards nHeight = valueAfter params ready nHeight nMint := by
  cases height
  cases active : params.networkUpgradeActive _ _ with
  | false =>
    rw [CRewards.connectReady, active] at conn
    cases conn
    rw [valueAfter, active, if_neg (by simp)]
  | true =>
    obtain ⟨amount, comp, lookup⟩ := CRewards.connectReady_lookup conn active
    cases epoch : params.isDynamicRewardsEpochHeight _ with
    | true =>
      rw [valueAfter, epoch, if_neg (by simp)]
      apply getBlockValue_of_earlier
      intro k other
      rw [lookup, if_neg]
      intro stored
      exact other (stored.1.trans (beq_iff_eq.mp epoch))
    | false =>
      rw [getBlockValue_eq_rewardLimit, rewardLimit_of_other active epoch, lookup]
      rw [CRewards.newSubsidy, epoch] at comp
      cases found : ready.mDynamicRewards.lookup _ with
      | none =>
        rw [found] at comp
        cases comp
        rw [valueAfter, active, epoch, getBlockValue_eq_rewardLimit, rewardLimit_of_other active epoch, found]
        by_cases minted : 0 < nMint
        · simp [minted, capped]
        · simp [minted]
      | some reward =>
        rw [found] at comp
        cases comp
        rw [valueAfter, found, if_neg (by simp), if_neg (by simp), getBlockValue_eq_rewardLimit, rewardLimit_of_other active epoch,
          found]

variable {block : CBlock} {tx : CTransaction} {amount : Int} {payee : CScript}
lemma findPayment_eq_find (amount vout) :
    findPayment amount vout = (vout.reverse.find? fun out => out.nValue == amount).map CTxOut.scriptPubKey := by
  induction vout using List.reverseRecOn with
  | nil => rfl
  | append_singleton vout out ih =>
    unfold findPayment at ih ⊢
    rw [List.foldl_append, ih]
    by_cases same : out.nValue = amount <;> simp [same]

variable {host : Host} {params : Params} {hook : MnHook} {pindex : CBlockIndex} {block : CBlock} {payee : CScript}
namespace CollateralMaps

def Records (before after : CollateralMaps) (pindex : CBlockIndex) (payee : CScript) : Prop :=
  after.mapPaidPayeesHeight.lookup pindex.nHeight = some payee ∧
    after.mapPaidPayeesBlocks.lookup payee = some ((before.mapPaidPayeesBlocks.lookup payee).getD [] ++ [pindex])

lemma connectReady_records_iff {nHeight} (height : pindex.nHeight = nHeight) (maps : CollateralMaps) :
    maps.Records (maps.connectReady host params hook pindex block) pindex payee ↔
      payee ≠ [] ∧ block.getPaidPayee (getMasternodePayment params hook.mDynamicRewards nHeight) = payee := by
  cases height
  have work := connectTxs_effect host params pindex.nHeight block.vtx (maps.prune pindex.nHeight)
  have blocks : _ = maps.mapPaidPayeesBlocks := work.paidBlocks
  unfold CollateralMaps.connectReady
  dsimp only
  generalize block.getPaidPayee _ = paidPayee
  unfold Records
  cases paidPayee with
  | nil =>
    rw [List.isEmpty_nil, if_pos rfl, blocks]
    constructor
    · intro recorded
      have longer := congrArg (fun blocks => (blocks.getD []).length) recorded.2
      simp at longer
    · simp
  | cons byte bytes =>
    simp only [List.isEmpty_cons, Bool.false_eq_true, if_false, registerPaidPayee, blocks, AList.lookup_insert, Option.some.injEq]
    constructor
    · intro recorded
      exact ⟨recorded.1 ▸ List.cons_ne_nil _ _, recorded.1⟩
    · intro own
      cases own.2
      exact ⟨rfl, AList.lookup_insert ..⟩

end CollateralMaps

structure HookedResult where
  result : ConnectResult
  rewards : CRewards
  maps : CollateralMaps

/-- `ConnectBlock` with its two hooks, `none` if the reward hook returned false. -/
def connectBlockHooked (host : Host) (params : CChainParams) (rewards : CRewards) (hook : CRewards.Hook) (maps : CollateralMaps)
    (mnHook : MnHook) (block : CBlock) (pindex pprev : CBlockIndex) (view : CCoinsView) : Except Failure (Option HookedResult) := do
  let result ← connectBlock host params rewards.mDynamicRewards block pindex pprev view
  let pindex := { pindex with nMoneySupply := result.nMoneySupply }
  match ← rewards.connectBlock host params.consensus hook pindex result.nMint with
  | (_, false) => return none
  | (rewards, true) => do
    let maps ← maps.connectBlock host params.consensus { mnHook with mDynamicRewards := rewards.mDynamicRewards } pindex block
    return some ⟨result, rewards, maps⟩

variable {host : Host} {params : CChainParams} {rewards : CRewards} {hook : CRewards.Hook} {maps : CollateralMaps} {mnHook : MnHook}
  {block : CBlock} {pindex pprev : CBlockIndex} {view : CCoinsView} {out : HookedResult}

lemma connectBlockHooked_calls
    (connected : connectBlockHooked host params rewards hook maps mnHook block pindex pprev view = .ok (some out)) :
    ∃ ready readyMaps,
      rewards.init host params.consensus hook.node hook.sqlite = .ok (ready, true) ∧
      ready.connectReady host params.consensus hook { pindex with nMoneySupply := out.result.nMoneySupply } out.result.nMint =
        .ok (out.rewards, true) ∧
      maps.ready host params.consensus { mnHook with mDynamicRewards := out.rewards.mDynamicRewards } = .ok readyMaps ∧
      out.maps = readyMaps.connectReady host params.consensus { mnHook with mDynamicRewards := out.rewards.mDynamicRewards }
        { pindex with nMoneySupply := out.result.nMoneySupply } block := by
  obtain ⟨res, -, connected⟩ := Except.bind_eq_ok.mp connected
  obtain ⟨⟨next, ok⟩, conn, connected⟩ := Except.bind_eq_ok.mp connected
  cases ok with
  | false => cases connected
  | true =>
    obtain ⟨after, mapped, same⟩ := Except.bind_eq_ok.mp connected
    cases same
    obtain ⟨readyMaps, readies, -, -, recorded⟩ := CollateralMaps.connectBlock_eq_ok.mp mapped
    obtain ⟨ready, inits, hooked⟩ := CRewards.connectBlock_ready conn
    exact ⟨_, _, inits, hooked, readies, recorded⟩

/-- The validated script is not empty, and the reward hook leaves the payment as it was. -/
theorem recordedPayee_iff {tx : CTransaction} {payee : CScript} (parent : pindex.nHeight = pprev.nHeight + 1)
    (connected : connectBlockHooked host params rewards hook maps mnHook block pindex pprev view = .ok (some out))
    (carried : block.vtx[if block.isProofOfStake then 1 else 0]? = some tx)
    (validated : findPayment (getMasternodePayment params.consensus rewards.mDynamicRewards (pprev.nHeight + 1)) tx.vout =
      some payee) :
    ∃ ready readyMaps,
      rewards.init host params.consensus hook.node hook.sqlite = .ok (ready, true) ∧
      maps.ready host params.consensus { mnHook with mDynamicRewards := out.rewards.mDynamicRewards } = .ok readyMaps ∧
      (readyMaps.Records out.maps { pindex with nMoneySupply := out.result.nMoneySupply } payee ↔
        payee ≠ [] ∧
          (masternodeShare pindex.nHeight (valueAfter params.consensus ready pindex.nHeight out.result.nMint) =
              getMasternodePayment params.consensus rewards.mDynamicRewards pindex.nHeight ∨
            block.getPaidPayee (masternodeShare pindex.nHeight (valueAfter params.consensus ready pindex.nHeight out.result.nMint)) =
              payee)) := by
  obtain ⟨ready, readyMaps, inits, hooked, readies, recorded⟩ := connectBlockHooked_calls connected
  apply Exists.intro _
  apply Exists.intro _
  apply And.intro inits
  apply And.intro readies
  have height : ({ pindex with nMoneySupply := out.result.nMoneySupply } : CBlockIndex).nHeight = pindex.nHeight := rfl
  have after : getMasternodePayment params.consensus out.rewards.mDynamicRewards pindex.nHeight =
      masternodeShare pindex.nHeight (valueAfter params.consensus ready pindex.nHeight out.result.nMint) := by
    have value := getBlockValue_after height hooked
    change masternodeShare _ (getBlockValue ..) = _
    rw [value]
  rw [recorded, CollateralMaps.connectReady_records_iff height]
  rw [after]
  apply and_congr_right
  intro _
  constructor
  · exact .inr
  · intro unchanged
    rcases unchanged with same | own
    · rw [same, parent]
      have second : block.vtx[if block.isProofOfWork then 0 else 1]? = some tx := by
        rw [← carried]
        unfold CBlock.isProofOfWork
        cases block.isProofOfStake <;> rfl
      rw [findPayment_eq_find] at validated
      obtain ⟨out, last, rfl⟩ := Option.map_eq_some_iff.mp validated
      unfold CBlock.getPaidPayee
      rw [second]
      dsimp only [Option.elim_some]
      rw [last]
    · exact own

def payingStake (nMint : Int) : CTransaction :=
  paymentTx 99 [⟨5, 0⟩] [⟨0, []⟩, ⟨247 * COIN, sampleScript⟩, ⟨1000 * COIN + nMint - 247 * COIN, [0x51]⟩]

def payingBlock (nMint : Int) : CBlock := blockAt 1900001 [coinbaseTx 98 0, payingStake nMint]

def stakerView : CCoinsView :=
  .cache ⟨1900000, ∅⟩ (.db ⟨1900000, (∅ : CoinMap).insert ⟨5, 0⟩ ⟨false, false, ⟨1000 * COIN, [0x51]⟩, 1⟩⟩)

def hookMaps : CollateralMaps := { paidMaps with initiatedAt := 1900000 }
def sampleMnHook : MnHook := ⟨0, emptyNode, ∅, ∅⟩

def connectPaying (nMint : Int) : Except Failure (Option HookedResult) :=
  connectBlockHooked labelHost mainParams emptyRewards sampleHook hookMaps sampleMnHook (payingBlock nMint) (newIndex 1900001)
    (indexAt 1900000) stakerView

lemma connectPaying_connects {nMint test}
    (passes : (connectPaying nMint).toOption.any (fun out => out.any test) = true) :
    ∃ out, connectPaying nMint = .ok (some out) ∧ test out = true := by
  rcases Except.exists_ok_of_any passes with ⟨_ | out, conn, tested⟩
  · cases tested
  · exact ⟨_, conn, tested⟩

theorem fullMint_records_payee : ∃ out readyMaps, connectPaying (380 * COIN) = .ok (some out) ∧
    CollateralMaps.Records readyMaps out.maps { newIndex 1900001 with nMoneySupply := out.result.nMoneySupply }
      sampleScript := by
  rcases connectPaying_connects (show (connectPaying (380 * COIN)).toOption.any
    (fun out => out.any fun out => decide (out.result.nMint = 380 * COIN)) = true by decide +kernel) with ⟨out, connected, minted⟩
  rw [decide_eq_true_eq] at minted
  rcases recordedPayee_iff rfl connected (show _ = some (payingStake (380 * COIN)) from rfl)
    (show _ = some sampleScript by decide +kernel) with ⟨ready, readyMaps, inits, -, recorded⟩
  cases inits
  refine ⟨out, readyMaps, connected, recorded.mpr ⟨by decide, .inl ?_⟩⟩
  rw [minted]
  decide +kernel

def payingView : PaymentView := sampleView 1900000 1000 oneMasternode hookMaps

lemma payingView_accepts : payingView.isTransactionValid (payingBlock (379 * COIN)) (indexAt 1900000) = .ok true := by
  have payable : payingView.Payable (indexAt 1900000) sampleScript := by
    apply And.intro (by decide +kernel)
    intro _ _
    exact ⟨by decide +kernel, by decide +kernel, fun never => absurd never (by decide +kernel)⟩
  have own : ∀ paid, payingView.maps.getLastPaidBlock sampleScript (indexAt 1900000) = some paid →
      (payingView.getBlockPayee (indexAt 1900000)).isSome = true →
        (paid.nTime : Int) ≤ payingView.nMaxLastPaid (indexAt 1900000) := by
    intro paid last _
    have same : payingView.maps.getLastPaidBlock sampleScript (indexAt 1900000) = some (indexAt 140000) := by decide +kernel
    cases same.symm.trans last
    decide +kernel
  have found : findPayment (payingView.masternodePayment 1900001) (payingStake (379 * COIN)).vout = some sampleScript := by decide +kernel
  exact (isTransactionValid_iff rfl rfl (sampleView_tip _ ..) rfl found own).mpr payable

/-- A block that mints 379 of 380 coins is recorded as paid to its last output. -/
theorem lowMint_records_other_payee : payingView.isTransactionValid (payingBlock (379 * COIN)) (indexAt 1900000) = .ok true ∧
    findPayment (getMasternodePayment mainParams.consensus emptyRewards.mDynamicRewards 1900001)
      (payingStake (379 * COIN)).vout = some sampleScript ∧
    ∃ out, connectPaying (379 * COIN) = .ok (some out) ∧ out.maps.mapPaidPayeesHeight.lookup 1900001 = some [0x51] := by
  rcases connectPaying_connects (show (connectPaying (379 * COIN)).toOption.any
    (fun out => out.any fun out => decide (out.maps.mapPaidPayeesHeight.lookup 1900001 = some [0x51])) = true by decide +kernel) with
    ⟨out, connected, recorded⟩
  rw [decide_eq_true_eq] at recorded
  exact ⟨payingView_accepts, by decide +kernel, out, connected, recorded⟩

end Peony
