import Mathlib.Data.Finset.Dedup
import Peony.Masternode.PaidPayee
import Peony.Rewards.Trace

namespace Peony
open Int64Arith Consensus Except

structure ChainMaps where
  rewards : CRewards
  collaterals : CollateralMaps

structure ChainMaps.Same (before after : ChainMaps) : Prop where
  rewards : before.rewards.Same after.rewards
  scripts : ∀ script, after.collaterals.mapScriptCollaterals.lookup script = before.collaterals.mapScriptCollaterals.lookup script
  outpoints : ∀ outpoint,
    after.collaterals.mapCOutPointCollaterals.lookup outpoint = before.collaterals.mapCOutPointCollaterals.lookup outpoint
  amounts : ∀ nCollateral, (after.collaterals.mapCAmountCollaterals.lookup nCollateral).map List.toFinset =
    (before.collaterals.mapCAmountCollaterals.lookup nCollateral).map List.toFinset
  removed : ∀ k, (after.collaterals.mapRemovedCollaterals.lookup k).map (fun coins outpoint => coins.lookup outpoint) =
    (before.collaterals.mapRemovedCollaterals.lookup k).map (fun coins outpoint => coins.lookup outpoint)
  paidBlocks : ∀ script, after.collaterals.mapPaidPayeesBlocks.lookup script = before.collaterals.mapPaidPayeesBlocks.lookup script
  paidHeight : ∀ k, after.collaterals.mapPaidPayeesHeight.lookup k = before.collaterals.mapPaidPayeesHeight.lookup k

/-- A failed check returns false; a throw, an assertion or a fault does not return. -/
def Failure.returns : Failure → Bool
  | .dos _ _ | .invalid _ | .error _ => true
  | .logicError _ | .runtimeError _ | .assertion _ | .fault _ => false

namespace ChainMaps
variable {maps after : ChainMaps}
lemma Same.refl (maps : ChainMaps) : maps.Same maps :=
  ⟨fun _ => ⟨rfl, rfl⟩, fun _ => rfl, fun _ => rfl, fun _ => rfl, fun _ => rfl, fun _ => rfl, fun _ => rfl⟩

lemma same_rewards_iff {rewards} : maps.Same { maps with rewards } ↔ maps.rewards.Same rewards :=
  ⟨fun same => same.rewards, fun same => ⟨same, fun _ => rfl, fun _ => rfl, fun _ => rfl, fun _ => rfl, fun _ => rfl, fun _ => rfl⟩⟩

/-- The end of `ConnectBlock` outside initial block download; the masternode hook's own `Init` never returns false. -/
def connectHooks (host : Host) (params : Params) (hook : CRewards.Hook) (mnHook : MnHook) (maps : ChainMaps) (pindex : CBlockIndex)
    (block : CBlock) (nMint : Int) : Except Failure (Bool × ChainMaps) := do
  match ← maps.rewards.connectBlock host params hook pindex nMint with
  | (rewards, false) => return (false, { maps with rewards })
  | (rewards, true) => do
    let collaterals ← maps.collaterals.connectBlock host params { mnHook with mDynamicRewards := rewards.mDynamicRewards } pindex block
    return (true, ⟨rewards, collaterals⟩)

lemma connectHooks_failed {host params hook mnHook pindex block nMint}
    (fails : maps.connectHooks host params hook mnHook pindex block nMint = .ok (false, after)) :
    ∃ rewards, maps.rewards.connectBlock host params hook pindex nMint = .ok (rewards, false) ∧ after = { maps with rewards } := by
  obtain ⟨⟨rewards, ok⟩, runs, rest⟩ := bind_eq_ok.mp fails
  cases ok with
  | false =>
    cases rest
    exact ⟨_, runs, rfl⟩
  | true =>
    obtain ⟨collaterals, -, rest⟩ := bind_eq_ok.mp rest
    cases rest

end ChainMaps

/-- A call, with what the block files, the transaction index and the hooks meet. -/
structure ConnectCall where
  host : Host
  params : CChainParams
  block : CBlock
  pindex : CBlockIndex
  pprev : Option CBlockIndex
  view : CCoinsView
  (fJustCheck fAlreadyChecked fChecked fInitialBlockDownload fUndoWritten fTxIndexWritten : Bool)
  hook : CRewards.Hook
  mnHook : MnHook

structure ConnectOutcome where
  ok : Bool
  view : CCoinsView
  pindex : CBlockIndex
  maps : ChainMaps

structure TipOutcome where
  ok : Bool
  flushed : Option CCoinsView
  maps : ChainMaps

namespace ConnectCall

def connects (call : ConnectCall) (mDynamicRewards : DynamicRewards) : Except Failure (Option ConnectResult) := do
  (if call.fAlreadyChecked then .ok ()
    else checkBlockFlags call.host call.params.consensus call.block call.fChecked (!call.fJustCheck) (!call.fJustCheck) :
      Except Failure Unit)
  require (call.view.getBestBlock.1 == call.pprev.elim 0 CBlockIndex.hash)
    (.assertion "hashPrevBlock == view.GetBestBlock()")
  if call.host.getBlockHash call.block.toCBlockHeader = call.params.consensus.hashGenesisBlock then return none
  else match call.pprev with
    | none => .error (.fault "pindex->pprev->nHeight")
    | some pprev =>
      some <$> connectVerified call.host call.params mDynamicRewards call.block call.pindex pprev call.view.getBestBlock.2

/-- For a block seen for the first time this is the connect that knows no flags. -/
lemma connects_eq {call : ConnectCall} {pprev} (mDynamicRewards) (parent : call.pprev = some pprev)
    (unchecked : call.fAlreadyChecked = false ∧ call.fChecked = false) (fully : call.fJustCheck = false)
    (later : call.host.getBlockHash call.block.toCBlockHeader ≠ call.params.consensus.hashGenesisBlock) :
    call.connects mDynamicRewards =
      some <$> Peony.connectBlock call.host call.params mDynamicRewards call.block call.pindex pprev call.view := by
  unfold connects
  rw [unchecked.1, unchecked.2, fully, parent, if_neg later, Peony.connectBlock]
  simp [checkBlock]

def writes (call : ConnectCall) : Bool :=
  (call.pindex.fHaveUndo || call.fUndoWritten) && (!call.hook.node.fTxIndex || call.fTxIndexWritten)

def undoStored (call : ConnectCall) : CBlockIndex := { call.pindex with fHaveUndo := call.pindex.fHaveUndo || call.fUndoWritten }
def stored (call : ConnectCall) (result : ConnectResult) : CBlockIndex := { call.undoStored with nMoneySupply := result.nMoneySupply }

variable (call : ConnectCall)
def update (maps : ChainMaps) (result : ConnectResult) : Except Failure (Bool × ChainMaps) :=
  maps.connectHooks call.host call.params.consensus call.hook call.mnHook
    { call.pindex with nMoneySupply := result.nMoneySupply } call.block result.nMint

def connectBlock (maps : ChainMaps) : Except Failure ConnectOutcome :=
  match call.connects maps.rewards.mDynamicRewards with
  | .error failure => if failure.returns then .ok ⟨false, call.view, call.pindex, maps⟩ else .error failure
  | .ok none => .ok ⟨true, if call.fJustCheck then call.view else connectGenesis call.pindex call.view, call.pindex, maps⟩
  | .ok (some result) =>
    if call.fJustCheck then .ok ⟨true, result.view, call.pindex, maps⟩
    else if !call.writes then .ok ⟨false, result.view, call.undoStored, maps⟩
    else if call.fInitialBlockDownload then .ok ⟨true, result.view, call.stored result, maps⟩
    else do
      let updated ← call.update maps result
      return ⟨updated.1, result.view, call.stored result, updated.2⟩

variable (pcoinsTip : CCoinsView) (pblock : Option CBlock)
/-- The call that `ConnectTip` makes. A block it has to read itself was not checked before. -/
def onTip (block : CBlock) : ConnectCall :=
  { call with
    block
    view := pcoinsTip.newCache
    fJustCheck := false
    fAlreadyChecked := call.fAlreadyChecked && pblock.isSome
    fChecked := call.fChecked && pblock.isSome }

def tipBlock (pblock : Option CBlock) : Option CBlock :=
  pblock.or (call.hook.node.readBlockFromDisk call.host call.pindex)

def connectTip (fStateWritten : Bool) (maps : ChainMaps) : Except Failure TipOutcome :=
  match call.tipBlock pblock with
  | none => .ok ⟨false, none, maps⟩
  | some block => do
    let out ← (call.onTip pcoinsTip pblock block).connectBlock maps
    if !out.ok then return ⟨false, none, out.maps⟩
    else match ← out.view.flush with
      | .cache _ written => return ⟨fStateWritten, some written, out.maps⟩
      | .db _ => .error (.assertion "view.Flush()")

def callsHooks : Bool := !call.fJustCheck && call.writes && !call.fInitialBlockDownload

variable {call : ConnectCall} {maps : ChainMaps} {out : ConnectOutcome} {result : ConnectResult}
lemma connectBlock_cases (runs : call.connectBlock maps = .ok out) : out.ok = false ∧ out.maps = maps ∧
        (∀ result, call.connects maps.rewards.mDynamicRewards = .ok (some result) → call.callsHooks = false) ∨
      out.ok = true ∧ out.maps = maps ∧ call.connects maps.rewards.mDynamicRewards = .ok none ∨
      (∃ result, call.connects maps.rewards.mDynamicRewards = .ok (some result) ∧ call.callsHooks = false ∧
        (call.fJustCheck = true ∨ call.writes = true ∧ call.fInitialBlockDownload = true) ∧ out.maps = maps ∧
          out.view = result.view) ∨
      ∃ result, call.connects maps.rewards.mDynamicRewards = .ok (some result) ∧ call.callsHooks = true ∧
        call.update maps result = .ok (out.ok, out.maps) ∧ out.view = result.view := by
  unfold connectBlock at runs
  split at runs
  · grind
  · rename_i connects
    cases runs
    exact .inr (.inl ⟨rfl, rfl, connects⟩)
  · rename_i result connects
    split at runs
    · rename_i justCheck
      cases runs
      exact .inr (.inr (.inl ⟨_, connects, by simp [callsHooks, justCheck], .inl justCheck, rfl, rfl⟩))
    · rename_i fully
      split at runs
      · rename_i unwritten
        rw [Bool.not_eq_true'] at unwritten
        cases runs
        exact .inl ⟨rfl, rfl, fun _ _ => by simp [callsHooks, unwritten]⟩
      · rename_i wrote
        have wrote : call.writes = true := by simpa using wrote
        split at runs
        · rename_i download
          cases runs
          exact .inr (.inr (.inl ⟨_, connects, by simp [callsHooks, download], .inr ⟨wrote, download⟩, rfl, rfl⟩))
        · rename_i synced
          obtain ⟨upd, updates, runs⟩ := bind_eq_ok.mp runs
          cases runs
          exact .inr (.inr (.inr ⟨_, connects, by simp [callsHooks, fully, wrote, synced], updates, rfl⟩))

variable (connects : call.connects maps.rewards.mDynamicRewards = .ok (some result))
include connects

lemma connectBlock_of_update {upd} (hooks : call.callsHooks = true)
    (updates : call.update maps result = .ok upd) : call.connectBlock maps = .ok ⟨upd.1, result.view, call.stored result, upd.2⟩ := by
  simp only [callsHooks, Bool.and_eq_true, Bool.not_eq_true'] at hooks
  obtain ⟨⟨fully, wrote⟩, synced⟩ := hooks
  unfold connectBlock
  rw [connects]
  change (if call.fJustCheck = true then _ else if !call.writes then _ else if call.fInitialBlockDownload = true then _ else _) = _
  rw [fully, wrote, synced, updates]
  rfl

lemma connectBlock_in_download
    (fully : call.fJustCheck = false) (wrote : call.writes = true) (download : call.fInitialBlockDownload = true) :
    call.connectBlock maps = .ok ⟨true, result.view, call.stored result, maps⟩ := by
  simp [connectBlock, connects, fully, wrote, download]

end ConnectCall

end Peony
