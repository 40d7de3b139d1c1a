import Peony.Hooks.Connect

namespace Peony
open Except ChainMaps

namespace ConnectCall
variable {call : ConnectCall} {maps : ChainMaps} {pcoinsTip : CCoinsView} {pblock : Option CBlock} {fStateWritten : Bool}
def Records (call : ConnectCall) (maps after : ChainMaps) : Prop :=
  match call.connects maps.rewards.mDynamicRewards with
  | .error _ => False
  | .ok none => maps.Same after
  | .ok (some result) => ∃ updated, call.update maps result = .ok (true, updated) ∧ updated.Same after

/-- A connect that fails or only checks changes nothing; on the tip the maps move with the coins. -/
structure LeavesNoTrace (call : ConnectCall) (pcoinsTip : CCoinsView) (pblock : Option CBlock) (fStateWritten : Bool)
    (maps : ChainMaps) : Prop where
  failed : ∀ out, call.connectBlock maps = .ok out → out.ok = false ∨ call.fJustCheck = true → maps.Same out.maps
  flushed : ∀ out block, call.connectTip pcoinsTip pblock fStateWritten maps = .ok out → call.tipBlock pblock = some block →
    out.flushed.isSome = true → (call.onTip pcoinsTip pblock block).Records maps out.maps
  dropped : ∀ out, call.connectTip pcoinsTip pblock fStateWritten maps = .ok out → out.flushed = none → maps.Same out.maps

section
variable (call : ConnectCall) (maps : ChainMaps)
/-- Where the hooks are called, the reward hook fails only if it has nothing to write. -/
def HooksFailClean : Prop :=
  ∀ result, call.connects maps.rewards.mDynamicRewards = .ok (some result) → call.callsHooks = true →
    maps.rewards.FailsClean call.host call.params.consensus call.hook { call.pindex with nMoneySupply := result.nMoneySupply } result.nMint

/-- In initial block download, the hooks that are not called would have changed nothing. -/
def SkipsNothing : Prop :=
  ∀ result, call.connects maps.rewards.mDynamicRewards = .ok (some result) → call.writes = true →
    call.fInitialBlockDownload = true → (∃ layer written, result.view.flush = .ok (.cache layer written)) → call.Records maps maps
end

lemma failed_iff : (∀ out, call.connectBlock maps = .ok out → out.ok = false ∨ call.fJustCheck = true → maps.Same out.maps) ↔
    call.HooksFailClean maps := by
  constructor
  · intro unchanged res conn hooks
    rw [← CRewards.failsClean_iff]
    intro rewards fails
    rw [← same_rewards_iff]
    have upd : call.update maps res = .ok (false, { maps with rewards }) := by
      unfold update connectHooks
      rw [fails]
      rfl
    exact unchanged _ (connectBlock_of_update conn hooks upd) (.inl rfl)
  · intro clean out runs cause
    rcases connectBlock_cases runs with ⟨-, same, -⟩ | ⟨-, same, -⟩ | ⟨res, -, -, -, same, -⟩ | ⟨res, conn, hooks, upd, -⟩
    · rw [same]
      exact .refl _
    · rw [same]
      exact .refl _
    · rw [same]
      exact .refl _
    · have fully : call.fJustCheck = false := by
        simp only [callsHooks, Bool.and_eq_true, Bool.not_eq_true'] at hooks
        exact hooks.1.1
      have failed : out.ok = false := cause.resolve_right (by grind)
      rw [failed] at upd
      obtain ⟨rewards, fails, same⟩ := connectHooks_failed upd
      rw [same, same_rewards_iff]
      exact CRewards.failsClean_iff.mpr (clean _ conn hooks) _ fails

variable {block : CBlock}
lemma connectTip_cases {out} (source : call.tipBlock pblock = some block)
    (runs : call.connectTip pcoinsTip pblock fStateWritten maps = .ok out) :
    ∃ connected, (call.onTip pcoinsTip pblock block).connectBlock maps = .ok connected ∧ out.maps = connected.maps ∧
      (connected.ok = false ∧ out.flushed = none ∨
        connected.ok = true ∧ ∃ layer wrote, connected.view.flush = .ok (.cache layer wrote) ∧ out.flushed = some wrote) := by
  unfold connectTip at runs
  rw [source] at runs
  obtain ⟨connected, conn, runs⟩ := bind_eq_ok.mp runs
  refine ⟨_, conn, ?_⟩
  cases ok : connected.ok with
  | false =>
    rw [ok] at runs
    cases runs
    exact ⟨rfl, .inl ⟨rfl, rfl⟩⟩
  | true =>
    rw [ok] at runs
    obtain ⟨flushed, flushes, runs⟩ := bind_eq_ok.mp runs
    cases flushed with
    | db _ => cases runs
    | cache layer wrote =>
      cases runs
      exact ⟨rfl, .inr ⟨rfl, _, _, flushes, rfl⟩⟩

lemma connectTip_of_connected {connected} (source : call.tipBlock pblock = some block)
    (conn : (call.onTip pcoinsTip pblock block).connectBlock maps = .ok connected) :
    call.connectTip pcoinsTip pblock fStateWritten maps = if !connected.ok then .ok ⟨false, none, connected.maps⟩ else
      connected.view.flush >>= (fun
        | .cache _ wrote => .ok ⟨fStateWritten, some wrote, connected.maps⟩
        | .db _ => .error (.assertion "view.Flush()")) := by
  unfold connectTip
  rw [source]
  change ((call.onTip ..).connectBlock _ >>= _) = _
  rw [conn]
  rfl

/-- Flushed with its records exactly if no hook left out had something to record. -/
lemma flushed_iff (source : call.tipBlock pblock = some block) :
    (∀ out, call.connectTip pcoinsTip pblock fStateWritten maps = .ok out → out.flushed.isSome = true →
      (call.onTip pcoinsTip pblock block).Records maps out.maps) ↔ (call.onTip pcoinsTip pblock block).SkipsNothing maps := by
  constructor
  · rintro recorded res conn wrote download ⟨layer, flushed, flushes⟩
    have passes := connectBlock_in_download conn rfl wrote download
    exact recorded _ ((connectTip_of_connected source passes).trans (by rw [flushes]; rfl)) rfl
  · intro skips out runs flushed
    rcases connectTip_cases source runs with ⟨connected, conn, same, ⟨-, none⟩ | ⟨passed, layer, wrote, flushes, -⟩⟩
    · grind
    · rw [same]
      rcases connectBlock_cases conn with
        ⟨failed, -⟩ | ⟨-, kept, genesis⟩ | ⟨res, verified, -, justCheck | ⟨stored, download⟩, kept, shown⟩ | ⟨res, verified, -, upd, -⟩
      · grind
      · simpa [Records, genesis, kept] using .refl _
      · cases justCheck
      · rw [kept]
        exact skips _ verified stored download ⟨_, _, shown ▸ flushes⟩
      · unfold Records
        rw [verified]
        rw [passed] at upd
        exact ⟨_, upd, .refl _⟩

lemma dropped_iff : (∀ out, call.connectTip pcoinsTip pblock fStateWritten maps = .ok out → out.flushed = none → maps.Same out.maps) ↔
    ∀ block, call.tipBlock pblock = some block → (call.onTip pcoinsTip pblock block).HooksFailClean maps := by
  constructor
  · intro unchanged block source
    rw [← failed_iff]
    rintro connected conn (failed | justCheck)
    · exact unchanged _ ((connectTip_of_connected source conn).trans (by rw [failed]; rfl)) rfl
    · cases justCheck
  · intro clean out runs cut
    cases source : call.tipBlock _ with
    | none =>
      unfold connectTip at runs
      rw [source] at runs
      cases runs
      exact .refl _
    | some block =>
      rcases connectTip_cases source runs with ⟨connected, conn, same, ⟨failed, -⟩ | ⟨-, layer, wrote, -, flushed⟩⟩
      · rw [same]
        exact failed_iff.mpr (clean _ source) _ conn (.inl failed)
      · grind

/-- When a connect leaves no trace. Checking never does. -/
theorem leavesNoTrace_iff (call : ConnectCall) (pcoinsTip : CCoinsView) (pblock : Option CBlock) (fStateWritten : Bool)
    (maps : ChainMaps) :
    call.LeavesNoTrace pcoinsTip pblock fStateWritten maps ↔
      call.HooksFailClean maps ∧ ∀ block, call.tipBlock pblock = some block →
        (call.onTip pcoinsTip pblock block).HooksFailClean maps ∧ (call.onTip pcoinsTip pblock block).SkipsNothing maps := by
  constructor
  · intro traceless
    apply And.intro (failed_iff.mp traceless.failed)
    intro block source
    apply And.intro (dropped_iff.mp traceless.dropped _ source)
    exact (flushed_iff source).mp fun out runs => traceless.flushed _ _ runs source
  · rintro ⟨clean, tip⟩
    constructor
    · exact failed_iff.mpr clean
    · intro out block runs source
      exact (flushed_iff source).mpr (tip _ source).2 _ runs
    · exact dropped_iff.mpr fun block source => (tip _ source).1

def sqliteReadOnly : Sqlite := ⟨true, true, fun _ => false, fun _ => false⟩
def payingMaps : ChainMaps := ⟨emptyRewards, hookMaps⟩

def payingCall (sqlite : Sqlite) (fInitialBlockDownload : Bool) : ConnectCall where
  host := labelHost
  params := mainParams
  block := payingBlock (380 * COIN)
  pindex := newIndex 1900001
  pprev := some (indexAt 1900000)
  view := stakerView.newCache
  fJustCheck := false
  fAlreadyChecked := false
  fChecked := false
  fInitialBlockDownload
  fUndoWritten := true
  fTxIndexWritten := true
  hook := { sampleHook with sqlite }
  mnHook := sampleMnHook

theorem payingCall_traceless :
    (payingCall sqliteDone false).LeavesNoTrace stakerView (some (payingBlock (380 * COIN))) true payingMaps := by
  have clean : ∀ call : ConnectCall, call.hook.sqlite = sqliteDone → call.HooksFailClean payingMaps := by
    intro call sqlite result _ _
    constructor
    · rintro ready ok - ⟨never, -⟩
      cases never
    · rintro ready amount - ⟨-, -, -, never⟩
      rw [sqlite] at never
      cases never
  refine (leavesNoTrace_iff ..).mpr ⟨clean _ rfl, fun block source => ⟨clean _ rfl, ?_⟩⟩
  intro result _ _ never
  cases never

def payingTip (sqlite : Sqlite) (fInitialBlockDownload : Bool) : Except Failure TipOutcome :=
  (payingCall sqlite fInitialBlockDownload).connectTip stakerView (some (payingBlock (380 * COIN))) true payingMaps

/-- A failed insert leaves the reward of a refused block; in initial download the payment is lost. -/
theorem connect_leaves_trace : (∃ out, (payingCall sqliteReadOnly false).connectBlock payingMaps = .ok out ∧ out.ok = false ∧
      out.maps.rewards.mDynamicRewards.lookup 1895040 = some (380 * COIN) ∧ out.maps.rewards.rewards.lookup 1895040 = none ∧
      payingMaps.rewards.mDynamicRewards.lookup 1895040 = none) ∧
    (∃ out, payingTip sqliteReadOnly false = .ok out ∧ out.flushed.isNone = true ∧
      out.maps.rewards.mDynamicRewards.lookup 1895040 = some (380 * COIN)) ∧
    (∃ out, payingTip sqliteDone true = .ok out ∧ out.flushed.isSome = true ∧
      out.maps.collaterals.mapPaidPayeesHeight.lookup 1900001 = none) ∧
    ∃ out, payingTip sqliteDone false = .ok out ∧ out.flushed.isSome = true ∧
      out.maps.collaterals.mapPaidPayeesHeight.lookup 1900001 = some PaymentView.sampleScript := by
  refine ⟨?_, exists_ok_of_decide (by decide +kernel), exists_ok_of_decide (by decide +kernel),
    exists_ok_of_decide (by decide +kernel)⟩
  have refused : ∃ out, (payingCall sqliteReadOnly false).connectBlock payingMaps = .ok out ∧ out.ok = false ∧
      out.maps.rewards.mDynamicRewards.lookup 1895040 = some (380 * COIN) ∧ out.maps.rewards.rewards.lookup 1895040 = none :=
    exists_ok_of_decide (by decide +kernel)
  obtain ⟨out, runs, failed, map, table⟩ := refused
  exact ⟨out, runs, failed, map, table, rfl⟩

end ConnectCall

end Peony
