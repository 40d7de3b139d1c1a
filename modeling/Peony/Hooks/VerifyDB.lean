import Peony.Hooks.Connect
import Peony.Masternode.LastPaid
import Peony.Validation.MoneySupply
import Peony.Validation.ScratchView

namespace Peony
open Consensus

structure DownloadState where
  (latchToFalse fImporting fReindex fVerifyingBlocks : Bool)
  (chainHeight nTotalBlocksEstimate nBestHeaderHeight nBestHeaderTime now nMaxTipAge : Int)

def DownloadState.isInitialBlockDownload (state : DownloadState) : Bool :=
  -- the latch comes first: once a node has synced, `fVerifyingBlocks` is not looked at
  if state.latchToFalse then false
  else if state.fImporting || state.fReindex || state.fVerifyingBlocks || decide (state.chainHeight < state.nTotalBlocksEstimate) then true
  else decide (state.chainHeight < state.nBestHeaderHeight - 24 * 6) || decide (state.nBestHeaderTime < state.now - state.nMaxTipAge)

/-- `DisconnectBlock` with its two hooks; the one of the masternodes never returns false. -/
def ChainMaps.disconnectHooks (host : Host) (params : Params) (sqlite : Sqlite) (now : Int) (maps : ChainMaps) (pindex : CBlockIndex)
    (block : CBlock) : Bool × ChainMaps :=
  match maps.rewards.disconnectBlock params sqlite pindex with
  | (rewards, false) => (false, { maps with rewards })
  | (rewards, true) => (true, ⟨rewards, maps.collaterals.disconnectBlock host params now pindex block⟩)

def CChain.setEntry (chain : CChain) (pindex : CBlockIndex) : CChain where
  vChain := chain.vChain.set pindex.nHeight pindex
  heights := by
    intro i entry found
    rw [List.getElem?_set] at found
    split at found
    · split at found
      · cases found
        assumption
      · cases found
    · exact chain.heights i entry found

structure VerifyEnv where
  host : Host
  params : CChainParams
  fInitialBlockDownload : Bool
  undoFiles : UInt256 → Option CBlockUndo
  fitsCache : CCoinsView → Bool
  shutdownRequested : Nat → Bool
  sqlite : Nat → Sqlite
  now : Nat → Int
  hook : Nat → CRewards.Hook
  mnHook : Nat → MnHook
  fUndoWritten : Nat → Bool
  fTxIndexWritten : Nat → Bool

structure VerifyState where
  coins : CCoinsView
  nStateHeight : Nat
  fFailure : Bool
  chainActive : CChain
  maps : ChainMaps

inductive Verdict where
  | returns (ok : Bool) (state : VerifyState)
  | goesOn (state : VerifyState)

namespace VerifyEnv
variable (env : VerifyEnv) (node : NodeState)
def undoOf (pindex : CBlockIndex) : Option CBlockUndo := if pindex.fHaveUndo then env.undoFiles pindex.hash else none

section
variable (state : VerifyState) (pindex pprev : CBlockIndex) (block : CBlock)
def disconnectBlock : Except Failure (DisconnectResult × VerifyState) := do
  let hooked := if env.fInitialBlockDownload then (true, state.maps)
    else state.maps.disconnectHooks env.host env.params.consensus (env.sqlite pindex.nHeight) (env.now pindex.nHeight) pindex block
  let (res, coins) ← Peony.disconnectBlock env.host block pindex pprev (env.undoOf pindex) state.coins hooked.1
  return (res, { state with coins, maps := if res = .disconnectFailed then state.maps else hooked.2 })

def undoTip : Except Failure Verdict := do
  let (res, undone) ← env.disconnectBlock state pindex pprev block
  if res = .disconnectFailed then return .returns false undone
  else
    let next := { undone with nStateHeight := pindex.nHeight - 1, fFailure := state.fFailure || res == .disconnectUnclean }
    return if env.shutdownRequested pindex.nHeight then .returns true next else .goesOn next
end

def verifyBlock (nCheckLevel : Int) (state : VerifyState) (nHeight : Nat) : Except Failure Verdict :=
  match state.chainActive.index nHeight, state.chainActive.index (nHeight - 1) with
  | some pindex, some pprev =>
    match node.readBlockFromDisk env.host pindex with
    | none => .ok (.returns false state)
    | some block =>
      match if 1 ≤ nCheckLevel then checkBlock env.host env.params.consensus block else .ok () with
      | .error failure => if failure.returns then .ok (.returns false state) else .error failure
      | .ok _ =>
        if 2 ≤ nCheckLevel ∧ pindex.fHaveUndo = true ∧ env.undoFiles pindex.hash = none then .ok (.returns false state)
        else if 3 ≤ nCheckLevel ∧ nHeight = state.nStateHeight ∧
          env.fitsCache state.coins = true then env.undoTip state pindex pprev block
        else .ok (if env.shutdownRequested nHeight then .returns true state else .goesOn state)
  | _, _ => .error (.fault "pindex->pprev")

variable (state : VerifyState)
def connectCall (pindex pprev : CBlockIndex) (block : CBlock) : ConnectCall where
  host := env.host
  params := env.params
  block
  pindex
  pprev := some pprev
  view := state.coins
  fJustCheck := false
  fAlreadyChecked := false
  fChecked := false
  fInitialBlockDownload := env.fInitialBlockDownload
  fUndoWritten := env.fUndoWritten pindex.nHeight
  fTxIndexWritten := env.fTxIndexWritten pindex.nHeight
  hook := env.hook pindex.nHeight
  mnHook := env.mnHook pindex.nHeight

def reconnectBlock (nHeight : Nat) : Except Failure Verdict :=
  match state.chainActive.index nHeight, state.chainActive.index (nHeight - 1) with
  | some pindex, some pprev =>
    match node.readBlockFromDisk env.host pindex with
    | none => .ok (.returns false state)
    | some block => do
      let out ← (env.connectCall state pindex pprev block).connectBlock state.maps
      let next := { state with coins := out.view, maps := out.maps, chainActive := state.chainActive.setEntry out.pindex }
      return if out.ok then .goesOn next else .returns false next
  | _, _ => .error (.fault "chainActive.Next(pindex)")

end VerifyEnv

def runRounds (round : VerifyState → Nat → Except Failure Verdict) : VerifyState → List Nat → Except Failure Verdict
  | state, [] => .ok (.goesOn state)
  | state, nHeight :: heights => do
    match ← round state nHeight with
    | .returns ok final => return .returns ok final
    | .goesOn next => runRounds round next heights

def verifyHeights (chainHeight : Nat) (nCheckDepth : Int) : List Nat :=
  let nCheckDepth := if nCheckDepth ≤ 0 then 1000000000 else nCheckDepth
  let nCheckDepth := min nCheckDepth chainHeight
  let lowest := max 1 (chainHeight - nCheckDepth).toNat
  (List.range' lowest (chainHeight + 1 - lowest)).reverse

structure VerifyOutcome where
  ok : Bool
  chainActive : CChain
  pcoinsTip : CCoinsView
  maps : ChainMaps

def CCoinsView.database : CCoinsView → CCoinsViewDB
  | .db database => database
  | .cache _ base => base.database

def CCoinsView.parent : CCoinsView → CCoinsView
  | .db database => .db database
  | .cache _ base => base

/-- The scratch cache is dropped; the tip keeps what was read if the cache stood on it. -/
def VerifyState.outcome (state : VerifyState) (node : NodeState) (fOnTip ok : Bool) : VerifyOutcome :=
  ⟨ok, state.chainActive, if fOnTip then state.coins.parent else node.pcoinsTip, state.maps⟩

def VerifyOutcome.resync (env : VerifyEnv) (out : VerifyOutcome) : VerifyOutcome :=
  match out.chainActive.tip with
  | none => out
  | some tip =>
    let nMoneySupply := resyncSupply env.host env.params.consensus out.chainActive.height.toNat out.pcoinsTip
    { out with chainActive := out.chainActive.setEntry { tip with nMoneySupply } }

def verifyDB (env : VerifyEnv) (node : NodeState) (maps : ChainMaps) (fOnTip : Bool) (nCheckLevel nCheckDepth : Int) :
    Except Failure VerifyOutcome :=
  let chainHeight := node.chainActive.vChain.length - 1
  let nCheckLevel := max 0 (min 4 nCheckLevel)
  let coinsview := if fOnTip then node.pcoinsTip else .db node.pcoinsTip.database
  let start : VerifyState := ⟨coinsview.newCache, chainHeight, false, node.chainActive, maps⟩
  if chainHeight = 0 then .ok ⟨true, node.chainActive, node.pcoinsTip, maps⟩
  else do
    match ← runRounds (env.verifyBlock node nCheckLevel) start (verifyHeights chainHeight nCheckDepth) with
    | .returns ok state => return state.outcome node fOnTip ok
    | .goesOn state =>
      if state.fFailure then return state.outcome node fOnTip false
      else
        let again := if 4 ≤ nCheckLevel then List.range' (state.nStateHeight + 1) (chainHeight - state.nStateHeight) else []
        match ← runRounds (env.reconnectBlock node) state again with
        | .returns ok state => return state.outcome node fOnTip ok
        | .goesOn state => return (state.outcome node fOnTip true).resync env

section
def Verdict.state : Verdict → VerifyState
  | .returns _ state => state
  | .goesOn state => state

variable {state : VerifyState} {verdict : Verdict}
lemma runRounds_keeps {round : VerifyState → Nat → Except Failure Verdict} {P : VerifyState → Prop}
    (keeps : ∀ state nHeight verdict, P state → round state nHeight = .ok verdict → P verdict.state) {heights}
      (holds : P state) (runs : runRounds round state heights = .ok verdict) :
    P verdict.state := by
  induction heights generalizing state with
  | nil =>
    cases runs
    exact holds
  | cons nHeight heights ih =>
    obtain ⟨first, rounds, rest⟩ := Except.bind_eq_ok.mp runs
    have next := keeps _ _ _ holds rounds
    cases first with
    | returns ok final =>
      cases rest
      exact next
    | goesOn middle => exact ih next rest

def CChain.hashes (chain : CChain) : List UInt256 := chain.vChain.map CBlockIndex.hash

lemma CChain.setEntry_hashes {chain : CChain} {pindex own : CBlockIndex} (found : chain.index pindex.nHeight = some own)
    (same : pindex.hash = own.hash) : (chain.setEntry pindex).hashes = chain.hashes := by
  unfold hashes setEntry
  rw [List.map_set, same]
  apply List.ext_getElem?
  intro i
  rw [List.getElem?_set]
  split
  · rename_i here
    subst here
    rw [List.getElem?_map, show chain.vChain[pindex.nHeight]? = some _ from found]
    have small := (List.getElem?_eq_some_iff.mp found).1
    rw [if_pos (by rwa [List.length_map])]
    rfl
  · rfl

variable {env : VerifyEnv} {node : NodeState} {base : CCoinsView} {hashes : List UInt256} {maps : ChainMaps}
/-- The scratch cache writes nothing through, and no block leaves the chain. -/
structure VerifyState.Apart (base : CCoinsView) (hashes : List UInt256) (state : VerifyState) : Prop where
  above : base.Above state.coins
  chain : state.chainActive.hashes = hashes

section
variable {nCheckLevel : Int} {nHeight : Nat}
lemma verifyBlock_cases (round : env.verifyBlock node nCheckLevel state nHeight = .ok verdict) :
    verdict.state = state ∨ 3 ≤ nCheckLevel ∧ ∃ pindex pprev block res undone,
      env.disconnectBlock state pindex pprev block = .ok (res, undone) ∧ verdict.state.coins = undone.coins ∧
        verdict.state.chainActive = undone.chainActive ∧ verdict.state.maps = undone.maps := by
  unfold VerifyEnv.verifyBlock at round
  split at round
  · rename_i pindex pprev _ _
    split at round
    · cases round
      exact .inl rfl
    · rename_i block _
      split at round
      · split at round
        · cases round
          exact .inl rfl
        · cases round
      · split at round
        · cases round
          exact .inl rfl
        · split at round
          · rename_i deep
            obtain ⟨⟨res, undone⟩, disc, rest⟩ := Except.bind_eq_ok.mp round
            refine .inr ⟨deep.1, _, _, _, _, _, disc, ?_⟩
            dsimp only at rest
            split at rest
            · cases rest
              exact ⟨rfl, rfl, rfl⟩
            · split at rest
              · cases rest
                exact ⟨rfl, rfl, rfl⟩
              · cases rest
                exact ⟨rfl, rfl, rfl⟩
          · cases round
            split
            · exact .inl rfl
            · exact .inl rfl
  · cases round

lemma disconnectBlock_frame {state undone pindex pprev block res}
    (disc : env.disconnectBlock state pindex pprev block = .ok (res, undone)) :
    (∀ base : CCoinsView, base.Above state.coins → base.Above undone.coins) ∧ undone.chainActive = state.chainActive ∧
      (env.fInitialBlockDownload = true → undone.maps = state.maps) := by
  obtain ⟨⟨result, coins⟩, undoes, rest⟩ := Except.bind_eq_ok.mp disc
  cases rest
  refine ⟨fun base above => above.disconnectBlock undoes, rfl, fun download => ?_⟩
  rw [if_pos download]
  exact ite_self _

lemma verifyBlock_apart (apart : state.Apart base hashes) (round : env.verifyBlock node nCheckLevel state nHeight = .ok verdict) :
    verdict.state.Apart base hashes := by
  rcases verifyBlock_cases round with same | ⟨-, pindex, pprev, block, res, undone, disc, coins, chain, -⟩
  · rw [same]
    exact apart
  · obtain ⟨above, kept, -⟩ := disconnectBlock_frame disc
    constructor
    · rw [coins]
      exact above _ apart.above
    · rw [chain, kept]
      exact apart.chain
end

lemma connects_above {call : ConnectCall} {mDynamicRewards : DynamicRewards} {res} (above : base.Above call.view)
    (conn : call.connects mDynamicRewards = .ok (some res)) : base.Above res.view := by
  obtain ⟨_, -, conn⟩ := Except.bind_eq_ok.mp conn
  obtain ⟨-, conn⟩ := Except.require_bind_eq_ok.mp conn
  split at conn
  · cases conn
  · split at conn
    · cases conn
    · obtain ⟨found, verifies, same⟩ := Except.bind_eq_ok.mp conn
      cases same
      obtain ⟨-, verifies⟩ := Except.require_bind_eq_ok.mp verifies
      obtain ⟨-, verifies⟩ := Except.require_bind_eq_ok.mp verifies
      obtain ⟨state, runs, verifies⟩ := Except.bind_eq_ok.mp verifies
      obtain ⟨-, verifies⟩ := Except.require_bind_eq_ok.mp verifies
      cases verifies
      exact (CCoinsView.Above.connectTxs _ above.getBestBlock runs).setBestBlock _

lemma connectBlock_frame {call : ConnectCall} {out : ConnectOutcome} (above : base.Above call.view)
    (runs : call.connectBlock maps = .ok out) :
    base.Above out.view ∧ out.pindex.hash = call.pindex.hash ∧ out.pindex.nHeight = call.pindex.nHeight ∧
      (call.fInitialBlockDownload = true → out.maps = maps) := by
  unfold ConnectCall.connectBlock at runs
  split at runs
  · grind
  · cases runs
    refine ⟨?_, rfl, rfl, fun _ => rfl⟩
    split
    · exact above
    · exact above.setBestBlock _
  · rename_i res conn
    have wrote := connects_above above conn
    split at runs
    · cases runs
      exact ⟨wrote, rfl, rfl, fun _ => rfl⟩
    · split at runs
      · cases runs
        exact ⟨wrote, rfl, rfl, fun _ => rfl⟩
      · split at runs
        · cases runs
          exact ⟨wrote, rfl, rfl, fun _ => rfl⟩
        · rename_i synced
          obtain ⟨upd, -, same⟩ := Except.bind_eq_ok.mp runs
          cases same
          exact ⟨wrote, rfl, rfl, fun download => absurd download synced⟩

lemma reconnectBlock_frame {nHeight : Nat} (apart : state.Apart base hashes)
    (round : env.reconnectBlock node state nHeight = .ok verdict) :
    verdict.state.Apart base hashes ∧ (env.fInitialBlockDownload = true → verdict.state.maps = state.maps) := by
  unfold VerifyEnv.reconnectBlock at round
  split at round
  · rename_i pindex pprev found _
    split at round
    · cases round
      exact ⟨apart, fun _ => rfl⟩
    · obtain ⟨out, conn, rest⟩ := Except.bind_eq_ok.mp round
      have framed : base.Above out.view ∧ out.pindex.hash = pindex.hash ∧ out.pindex.nHeight = pindex.nHeight ∧
          (env.fInitialBlockDownload = true → out.maps = state.maps) := connectBlock_frame apart.above conn
      obtain ⟨above, hash, height, maps⟩ := framed
      have own : state.chainActive.index out.pindex.nHeight = some pindex := by
        rw [height, state.chainActive.heights _ _ found]
        exact found
      have next : VerifyState.Apart base hashes
          { state with coins := out.view, maps := out.maps, chainActive := state.chainActive.setEntry out.pindex } :=
        ⟨above, (CChain.setEntry_hashes own hash).trans apart.chain⟩
      cases rest
      split
      · exact ⟨next, maps⟩
      · exact ⟨next, maps⟩
  · cases round

variable {fOnTip : Bool} {nCheckLevel nCheckDepth : Int} {out : VerifyOutcome}
lemma verifyDB_reaches {P : VerifyState → Prop} (walk : ∀ state nHeight verdict, P state →
      env.verifyBlock node (max 0 (min 4 nCheckLevel)) state nHeight = .ok verdict → P verdict.state)
    (again : 4 ≤ nCheckLevel → ∀ state nHeight verdict, P state → env.reconnectBlock node state nHeight = .ok verdict → P verdict.state)
    (start : P ⟨(if fOnTip then node.pcoinsTip else .db node.pcoinsTip.database : CCoinsView).newCache,
      node.chainActive.vChain.length - 1, false, node.chainActive, maps⟩)
    (runs : verifyDB env node maps fOnTip nCheckLevel nCheckDepth = .ok out) :
    out = ⟨true, node.chainActive, node.pcoinsTip, maps⟩ ∨
      ∃ state ok, P state ∧ (out = state.outcome node fOnTip ok ∨ out = (state.outcome node fOnTip ok).resync env) := by
  unfold verifyDB at runs
  dsimp only at runs
  split at runs
  · cases runs
    exact .inl rfl
  · apply Or.inr
    obtain ⟨first, walks, runs⟩ := Except.bind_eq_ok.mp runs
    have walked := runRounds_keeps walk start walks
    cases first with
    | returns ok state =>
      cases runs
      exact ⟨_, ok, walked, .inl rfl⟩
    | goesOn state =>
      dsimp only at runs
      split at runs
      · cases runs
        exact ⟨_, _, walked, .inl rfl⟩
      · obtain ⟨snd, reconnects, runs⟩ := Except.bind_eq_ok.mp runs
        have run : P snd.state := by
          split at reconnects
          · simpa using runRounds_keeps (again (by omega)) walked reconnects
          · cases reconnects
            exact walked
        cases snd with
        | returns ok state =>
          cases runs
          exact ⟨_, ok, run, .inl rfl⟩
        | goesOn state =>
          cases runs
          exact ⟨_, _, run, .inr rfl⟩

section
variable (out : VerifyOutcome)
lemma resync_maps : (out.resync env).maps = out.maps := by grind [VerifyOutcome.resync]
lemma resync_pcoinsTip : (out.resync env).pcoinsTip = out.pcoinsTip := by grind [VerifyOutcome.resync]
lemma resync_hashes : (out.resync env).chainActive.hashes = out.chainActive.hashes := by
  unfold VerifyOutcome.resync
  split
  · rfl
  · rename_i tip top
    have last : out.chainActive.vChain[out.chainActive.vChain.length - 1]? = some tip := by
      rw [← List.getLast?_eq_getElem?]
      exact top
    have own : out.chainActive.index tip.nHeight = some tip := by
      rw [out.chainActive.heights _ _ last]
      exact last
    exact CChain.setEntry_hashes own rfl
end

lemma wellFormed_database {view : CCoinsView} (wellFormed : view.WellFormed) : (CCoinsView.db view.database).WellFormed := by
  induction view with
  | db database => exact wellFormed
  | cache layer base ih => exact ih wellFormed.1

/-- Nothing is left, the supply of the entries aside. -/
structure VerifyOutcome.Unchanged (out : VerifyOutcome) (node : NodeState) (maps : ChainMaps) : Prop where
  maps : maps.Same out.maps
  coins : out.pcoinsTip.visible = node.pcoinsTip.visible
  chain : out.chainActive.hashes = node.chainActive.hashes

variable (wellFormed : node.pcoinsTip.WellFormed)
include wellFormed

lemma start_apart {fOnTip : Bool} {maps : ChainMaps} :
    VerifyState.Apart (if fOnTip then node.pcoinsTip else .db node.pcoinsTip.database) node.chainActive.hashes
      ⟨(if fOnTip then node.pcoinsTip else .db node.pcoinsTip.database : CCoinsView).newCache,
        node.chainActive.vChain.length - 1, false, node.chainActive, maps⟩ := by
  refine ⟨.newCache ?_, rfl⟩
  split
  · exact wellFormed
  · exact wellFormed_database wellFormed

lemma verifyDB_keeps_chainstate (runs : verifyDB env node maps fOnTip nCheckLevel nCheckDepth = .ok out) :
    out.pcoinsTip.visible = node.pcoinsTip.visible ∧ out.chainActive.hashes = node.chainActive.hashes := by
  rcases verifyDB_reaches (fun _ _ _ apart => verifyBlock_apart apart) (fun _ _ _ _ apart round => (reconnectBlock_frame apart round).1)
    (start_apart wellFormed) runs with rfl | ⟨state, ok, apart, ending⟩
  · exact ⟨rfl, rfl⟩
  · have shown : (state.outcome node fOnTip ok).pcoinsTip.visible = node.pcoinsTip.visible := by
      obtain ⟨layer, full, coins, fills⟩ := apart.above
      unfold VerifyState.outcome
      rw [coins]
      cases fOnTip with
      | true => exact fills.visible
      | false => rfl
    rcases ending with rfl | rfl
    · exact ⟨shown, apart.chain⟩
    · rw [resync_pcoinsTip, resync_hashes]
      exact ⟨shown, apart.chain⟩

lemma verifyDB_keeps_maps (quiet : env.fInitialBlockDownload = true ∨ nCheckLevel ≤ 2)
    (runs : verifyDB env node maps fOnTip nCheckLevel nCheckDepth = .ok out) : out.maps = maps := by
  -- the reconnect is on the maps only together with its coins, so both are carried along
  have walk : ∀ (state : VerifyState) nHeight verdict,
      state.Apart (if fOnTip then node.pcoinsTip else .db node.pcoinsTip.database) node.chainActive.hashes ∧ state.maps = maps →
      env.verifyBlock node (max 0 (min 4 nCheckLevel)) state nHeight = .ok verdict →
      verdict.state.Apart (if fOnTip then node.pcoinsTip else .db node.pcoinsTip.database) node.chainActive.hashes ∧
        verdict.state.maps = maps := by
    rintro state nHeight verdict ⟨apart, same⟩ round
    apply And.intro (verifyBlock_apart apart round)
    rcases verifyBlock_cases round with kept | ⟨deep, pindex, pprev, block, res, undone, disc, -, -, undoes⟩
    · rw [kept]
      exact same
    · have download := quiet.resolve_right (by omega)
      rw [undoes, (disconnectBlock_frame disc).2.2 download]
      exact same
  have again : 4 ≤ nCheckLevel → ∀ (state : VerifyState) nHeight verdict,
      state.Apart (if fOnTip then node.pcoinsTip else .db node.pcoinsTip.database) node.chainActive.hashes ∧ state.maps = maps →
      env.reconnectBlock node state nHeight = .ok verdict →
      verdict.state.Apart (if fOnTip then node.pcoinsTip else .db node.pcoinsTip.database) node.chainActive.hashes ∧
        verdict.state.maps = maps := by
    rintro deep state nHeight verdict ⟨apart, same⟩ round
    obtain ⟨next, kept⟩ := reconnectBlock_frame apart round
    exact ⟨next, (kept (quiet.resolve_right (by omega))).trans same⟩
  rcases verifyDB_reaches walk again ⟨start_apart wellFormed, rfl⟩ runs with rfl | ⟨state, ok, ⟨-, same⟩, ending⟩
  · rfl
  · rcases ending with rfl | rfl
    · exact same
    · rw [resync_maps]
      exact same
end
section
def leftTip : CCoinsView := .cache ⟨2, ∅⟩ (.db ⟨2, (∅ : CoinMap).insert ⟨1, 0⟩ ⟨true, false, ⟨0, [7]⟩, 1⟩⟩)
def leftNode : NodeState := { PaymentView.forkNode PaymentView.leftChain with pcoinsTip := leftTip }
def leftMaps : ChainMaps := ⟨emptyRewards, PaymentView.leftMaps⟩

def leftEnv : VerifyEnv where
  host := permissiveHost
  params := mainParams
  fInitialBlockDownload := false
  undoFiles _ := some []
  fitsCache _ := true
  shutdownRequested _ := false
  sqlite _ := sqliteDone
  now _ := 7200
  hook _ := ⟨leftNode, sqliteDone, ⟨∅, 0⟩⟩
  mnHook _ := ⟨7200, leftNode, ∅, ∅⟩
  fUndoWritten _ := true
  fTxIndexWritten _ := true

lemma verifyHeights_one (nCheckDepth : Int) : verifyHeights 1 nCheckDepth = [1] := by
  unfold verifyHeights
  have depth : min (if nCheckDepth ≤ 0 then 1000000000 else nCheckDepth) ((1 : Nat) : Int) = 1 := by
    split <;> omega
  simp only [depth]
  rfl

lemma verifyDB_one {env node maps} {fOnTip : Bool} {nCheckLevel nCheckDepth : Int}
    (one : node.chainActive.vChain.length - 1 = 1) :
    verifyDB env node maps fOnTip nCheckLevel nCheckDepth = verifyDB env node maps fOnTip (max 0 (min 4 nCheckLevel)) 0 := by
  have cut : max 0 (min 4 (max 0 (min 4 nCheckLevel))) = max 0 (min 4 nCheckLevel) := by omega
  unfold verifyDB
  simp only [one, verifyHeights_one, cut]

lemma leftNode_changed {nCheckLevel} (deep : 3 ≤ nCheckLevel) {nCheckDepth : Int} :
    ∃ out, verifyDB leftEnv leftNode leftMaps true nCheckLevel nCheckDepth = .ok out ∧ ¬ leftMaps.Same out.maps := by
  rw [verifyDB_one rfl]
  have lost : ∀ {level}, (verifyDB leftEnv leftNode leftMaps true level 0).toOption.any (fun out =>
      out.maps.collaterals.mapPaidPayeesBlocks.lookup [7] != leftMaps.collaterals.mapPaidPayeesBlocks.lookup [7]) = true →
      ∃ out, verifyDB leftEnv leftNode leftMaps true level 0 = .ok out ∧ ¬ leftMaps.Same out.maps := by
    intro level differs
    obtain ⟨out, runs, other⟩ := Except.exists_ok_of_any differs
    exact ⟨_, runs, fun same => bne_iff_ne.mp other (same.paidBlocks _)⟩
  have range : max 0 (min 4 nCheckLevel) = 3 ∨ max 0 (min 4 nCheckLevel) = 4 := by omega
  rcases range with level | level
  · rw [level]
    exact lost (by decide +kernel)
  · rw [level]
    exact lost (by decide +kernel)
end

def NoLastingEffect (download : DownloadState) (nCheckLevel nCheckDepth : Int) : Prop :=
  ∀ (env : VerifyEnv) (node : NodeState) (maps : ChainMaps) (fOnTip : Bool) (out : VerifyOutcome),
    env.fInitialBlockDownload = download.isInitialBlockDownload → node.pcoinsTip.WellFormed →
      verifyDB env node maps fOnTip nCheckLevel nCheckDepth = .ok out → out.Unchanged node maps

/-- The levels that disconnect blocks leave what the hooks did. -/
theorem noLastingEffect_iff (download : DownloadState) (nCheckLevel nCheckDepth : Int) :
    NoLastingEffect download nCheckLevel nCheckDepth ↔ download.isInitialBlockDownload = true ∨ nCheckLevel ≤ 2 := by
  constructor
  · intro harmless
    by_contra loud
    push Not at loud
    obtain ⟨out, runs, changed⟩ := leftNode_changed (show 3 ≤ nCheckLevel by omega)
    have wellFormed : leftNode.pcoinsTip.WellFormed := by
      refine ⟨?_, fun outpoint entry found => ?_⟩
      · intro outpoint coin found
        rw [AssocMap.lookup_insert_ite] at found
        split at found
        · cases found
          rfl
        · cases found
      · cases found
    have synced := (Bool.eq_false_iff.mpr loud.1).symm
    exact changed (harmless _ _ _ _ _ synced wellFormed runs).maps
  · intro quiet env node maps fOnTip out same wellFormed runs
    rw [← same] at quiet
    obtain ⟨coins, chain⟩ := verifyDB_keeps_chainstate wellFormed runs
    refine ⟨?_, coins, chain⟩
    rw [verifyDB_keeps_maps wellFormed quiet runs]
    exact .refl _

def verifyingState (latchToFalse : Bool) : DownloadState :=
  ⟨latchToFalse, false, false, true, 2000000, 1900000, 2000000, 1700000000, 1700000060, 86400⟩

theorem verification_at_start_harmless : NoLastingEffect (verifyingState false) 4 288 :=
  (noLastingEffect_iff (verifyingState false) 4 288).mpr (.inl rfl)

/-- The command counts the payment of the tip twice; at level 3 the payment is gone. -/
theorem verifychain_counts_payment_twice : (verifyingState true).isInitialBlockDownload = false ∧
    leftMaps.collaterals.mapPaidPayeesBlocks.lookup [7] = some [PaymentView.forkLeft] ∧
    (∃ out, verifyDB leftEnv leftNode leftMaps true 4 288 = .ok out ∧ out.ok = true ∧
      out.maps.collaterals.mapPaidPayeesBlocks.lookup [7] = some [PaymentView.forkLeft, PaymentView.forkLeft]) ∧
    ∃ out, verifyDB leftEnv leftNode leftMaps true 3 288 = .ok out ∧ out.ok = true ∧
      out.maps.collaterals.mapPaidPayeesBlocks.lookup [7] = none := by
  exact ⟨rfl, by decide +kernel, Except.exists_ok_of_decide (by decide +kernel), Except.exists_ok_of_decide (by decide +kernel)⟩

end Peony
