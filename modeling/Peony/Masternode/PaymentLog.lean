import Peony.Masternode.Reorg

namespace Peony
open Consensus CollateralMaps Relation List

abbrev PaidEntry := CBlockIndex × Option CScript

def paidBlocks (entries : List PaidEntry) (script : CScript) : List CBlockIndex :=
  (entries.filter fun entry => entry.2 = some script).map Prod.fst

structure PaymentsHeld (maps : CollateralMaps) (entries : List PaidEntry) : Prop where
  heights : ∀ (i : Nat) (entry : PaidEntry), entries[i]? = some entry → entry.1.nHeight = i
  blocks : ∀ script, ∃ undone, (maps.mapPaidPayeesBlocks.lookup script).getD [] = paidBlocks entries script ++ undone ∧
    ∀ pindex ∈ undone, entries.length ≤ pindex.nHeight
  paidAt : ∀ (i : Nat) (entry : PaidEntry), entries[i]? = some entry → maps.mapPaidPayeesHeight.lookup i = entry.2

structure PaymentsSettled (maps : CollateralMaps) (entries : List PaidEntry) : Prop where
  heights : ∀ (i : Nat) (entry : PaidEntry), entries[i]? = some entry → entry.1.nHeight = i
  blocks : ∀ script, (maps.mapPaidPayeesBlocks.lookup script).getD [] = paidBlocks entries script
  paidAt : ∀ (i : Nat) (entry : PaidEntry), entries[i]? = some entry → maps.mapPaidPayeesHeight.lookup i = entry.2
  above : ∀ k, entries.length ≤ k → maps.mapPaidPayeesHeight.lookup k = none

structure SamePayments (maps next : CollateralMaps) : Prop where
  blocks : next.mapPaidPayeesBlocks = maps.mapPaidPayeesBlocks
  heights : next.mapPaidPayeesHeight = maps.mapPaidPayeesHeight

section
variable {maps next : CollateralMaps} {entries : List PaidEntry} {pindex : CBlockIndex}
lemma SamePayments.trans {last} (first : SamePayments maps next) (snd : SamePayments next last) :
    SamePayments maps last := ⟨snd.blocks.trans first.blocks, snd.heights.trans first.heights⟩

lemma PaymentsHeld.of_same (held : PaymentsHeld maps entries) (same : SamePayments maps next) : PaymentsHeld next entries where
  heights := held.heights
  blocks := by rw [same.blocks]; exact held.blocks
  paidAt := by rw [same.heights]; exact held.paidAt

lemma PaymentsSettled.of_same (settled : PaymentsSettled maps entries) (same : SamePayments maps next) :
    PaymentsSettled next entries where
  heights := settled.heights
  blocks := by rw [same.blocks]; exact settled.blocks
  paidAt := by rw [same.heights]; exact settled.paidAt
  above := by rw [same.heights]; exact settled.above

lemma PaymentsSettled.held (settled : PaymentsSettled maps entries) : PaymentsHeld maps entries where
  heights := settled.heights
  blocks := by
    intro script
    refine ⟨[], ?_, fun _ mem => absurd mem not_mem_nil⟩
    rw [settled.blocks, append_nil]
  paidAt := settled.paidAt

lemma paidBlocks_concat (entries entry script) :
    paidBlocks (entries ++ [entry]) script = paidBlocks entries script ++ if entry.2 = some script then [entry.1] else [] := by
  rw [paidBlocks, filter_append, map_append]
  by_cases own : entry.2 = some script
  · rw [if_pos own, filter_cons_of_pos (by simpa using own)]
    rfl
  · rw [if_neg own, filter_cons_of_neg (by simpa using own)]
    rfl

variable {entry : PaidEntry}
lemma forall_concat {P : Nat → PaidEntry → Prop} (each : ∀ i entry, entries[i]? = some entry → P i entry)
    (last : P entries.length entry) : ∀ (i : Nat) (other : PaidEntry), (entries ++ [entry])[i]? = some other → P i other := by
  intro i other found
  rcases Nat.lt_trichotomy i entries.length with ins | rfl | outside
  · rw [getElem?_append_left ins] at found
    exact each i _ found
  · rw [getElem?_concat_length] at found
    cases found
    exact last
  · rw [getElem?_eq_none (by simp; omega)] at found
    cases found

lemma getElem?_of_concat {i : Nat} {entry other} (found : entries[i]? = some other) :
    (entries ++ [entry])[i]? = some other := by
  rw [List.getElem?_append_left (List.getElem?_eq_some_iff.mp found).1]
  exact found

section
variable (settled : PaymentsSettled maps entries) (height : pindex.nHeight = entries.length)
include settled height

lemma PaymentsSettled.register (payee : CScript) :
    PaymentsSettled (maps.registerPaidPayee payee pindex pindex.nHeight) (entries ++ [(pindex, some payee)]) where
  heights := forall_concat settled.heights height
  blocks := by
    intro script
    have pre := settled.blocks script
    rw [paidBlocks_concat]
    unfold registerPaidPayee
    rw [AssocMap.lookup_insert_ite]
    split
    · grind
    · grind
  paidAt := by
    unfold registerPaidPayee
    rw [height]
    apply forall_concat
    · intro i entry found
      have ins := (List.getElem?_eq_some_iff.mp found).1
      rw [AList.lookup_insert_ne (Nat.ne_of_lt ins)]
      exact settled.paidAt i _ found
    · exact AList.lookup_insert _
  above := by
    intro k high
    rw [length_append, length_singleton] at high
    unfold registerPaidPayee
    rw [AList.lookup_insert_ne (by omega)]
    exact settled.above k (by omega)

lemma PaymentsSettled.skip : PaymentsSettled maps (entries ++ [(pindex, none)]) where
  heights := forall_concat settled.heights height
  blocks := by
    intro script
    rw [paidBlocks_concat, if_neg (by simp), append_nil]
    exact settled.blocks _
  paidAt := forall_concat settled.paidAt (settled.above _ (le_refl _))
  above := by
    intro k high
    rw [length_append] at high
    exact settled.above k (by omega)
end

lemma PaymentsHeld.leave (held : PaymentsHeld maps (entries ++ [entry])) : PaymentsHeld maps entries where
  heights := fun i other found => held.heights i _ (getElem?_of_concat found)
  blocks := by
    intro script
    have height := held.heights _ _ (getElem?_concat_length ..)
    obtain ⟨undone, found, high⟩ := held.blocks _
    rw [paidBlocks_concat, append_assoc] at found
    refine ⟨_, found, ?_⟩
    intro pindex mem
    rcases mem_append.mp mem with last | mem
    · grind
    · have above := high _ mem
      rw [length_append] at above
      omega
  paidAt := fun i other found => held.paidAt i _ (getElem?_of_concat found)

lemma unregister_blocks (maps : CollateralMaps) (nHeight) (script) :
    ((maps.unregisterPaidPayee nHeight).mapPaidPayeesBlocks.lookup script).getD [] =
      if maps.mapPaidPayeesHeight.lookup nHeight = some script then ((maps.mapPaidPayeesBlocks.lookup script).getD []).dropLast
      else (maps.mapPaidPayeesBlocks.lookup script).getD [] := by
  rw [(unregisterPaidPayee_lookup _ _).1, unpaid]
  split
  · grind
  · rfl

lemma PaymentsHeld.unregister (held : PaymentsHeld maps (entries ++ [entry])) :
    PaymentsHeld (maps.unregisterPaidPayee entries.length) entries where
  heights := fun i other found => held.heights i _ (getElem?_of_concat found)
  blocks := by
    intro script
    have paid := held.paidAt _ _ (getElem?_concat_length ..)
    have height := held.heights _ _ (getElem?_concat_length ..)
    obtain ⟨undone, found, high⟩ := held.blocks _
    have above : ∀ pindex ∈ undone, entries.length ≤ pindex.nHeight := by
      intro pindex mem
      have length := high _ mem
      rw [length_append] at length
      omega
    rw [unregister_blocks, paid, found, paidBlocks_concat]
    split
    · -- the last payment of the script goes, which is the tip's own unless one was left behind
      rcases eq_nil_or_concat undone with rfl | ⟨front, last, rfl⟩
      · refine ⟨[], ?_, fun _ mem => absurd mem not_mem_nil⟩
        rw [append_nil, dropLast_concat, append_nil]
      · rw [concat_eq_append] at above ⊢
        refine ⟨entry.1 :: front, ?_, ?_⟩
        · rw [← append_assoc, dropLast_concat, append_assoc]
          rfl
        · grind
    · refine ⟨_, ?_, above⟩
      rw [List.append_nil]
  paidAt := by
    intro i other found
    have ins := (List.getElem?_eq_some_iff.mp found).1
    rw [(unregisterPaidPayee_lookup _ _).2, if_neg (Nat.ne_of_lt ins)]
    exact held.paidAt i _ (getElem?_of_concat found)

lemma PaymentsSettled.unregister (settled : PaymentsSettled maps (entries ++ [entry])) :
    PaymentsSettled (maps.unregisterPaidPayee entries.length) entries where
  heights := settled.held.unregister.heights
  blocks := by
    intro script
    have paid := settled.paidAt _ _ (getElem?_concat_length ..)
    rw [unregister_blocks, paid, settled.blocks, paidBlocks_concat]
    split
    · rw [dropLast_concat]
    · rw [append_nil]
  paidAt := settled.held.unregister.paidAt
  above := by
    intro k high
    rw [(unregisterPaidPayee_lookup _ _).2]
    split
    · rfl
    · exact settled.above k (by simp; omega)
end
section
variable {host : Host} {params : Params} {maps next : CollateralMaps} {entries : List PaidEntry} {pindex : CBlockIndex}
lemma connectTxs_samePayments (host : Host) (params) (nHeight) (vtx : List CTransaction) (maps) :
    SamePayments maps (vtx.foldl (CollateralMaps.connectTx host params nHeight) maps) :=
  have effect := connectTxs_effect ..
  ⟨effect.paidBlocks, effect.paidHeight⟩

def recordedPayee (params : Params) (hook : MnHook) (pindex : CBlockIndex) (block : CBlock) : Option CScript :=
  let paidPayee := block.getPaidPayee (getMasternodePayment params hook.mDynamicRewards pindex.nHeight)
  if paidPayee.isEmpty then none else some paidPayee

lemma connectReady_settled_payments {hook block} (settled : PaymentsSettled maps entries)
    (height : pindex.nHeight = entries.length) :
    PaymentsSettled (maps.connectReady host params hook pindex block)
      (entries ++ [(pindex, recordedPayee params hook pindex block)]) := by
  have same : SamePayments maps (block.vtx.foldl (CollateralMaps.connectTx host params pindex.nHeight)
      (maps.prune pindex.nHeight)) := by
    have pruned : SamePayments maps (maps.prune pindex.nHeight) := ⟨rfl, rfl⟩
    exact pruned.trans (connectTxs_samePayments ..)
  have conn := settled.of_same same
  unfold connectReady recordedPayee
  dsimp only
  split
  · exact conn.skip height
  · exact conn.register height _

section
variable (host : Host) (params : Params) (hook : MnHook)
def scannedPayee (pindex : CBlockIndex) : CScript :=
  (hook.node.readBlockFromDisk host pindex).elim [] (·.getPaidPayee (getMasternodePayment params hook.mDynamicRewards pindex.nHeight))

def rescan (start : Nat) : List PaidEntry :=
  (hook.node.chainActive.vChain.take start).map (fun pindex => (pindex, none)) ++
    (hook.node.chainActive.vChain.drop start).map fun pindex => (pindex, some (scannedPayee host params hook pindex))

lemma loadPaidPayees_settled (start count : Nat) {maps done}
    (settled : PaymentsSettled maps done) (run : done.length = start) (ins : start + count ≤ hook.node.chainActive.vChain.length) :
    ∃ next, loadPaidPayees host params hook (List.range' start count) maps = .ok next ∧
      PaymentsSettled next (done ++ ((hook.node.chainActive.vChain.drop start).take count).map fun pindex =>
        (pindex, some (scannedPayee host params hook pindex))) := by
  induction count generalizing start maps done with
  | zero => exact ⟨_, rfl, by rw [take_zero, map_nil, append_nil]; exact settled⟩
  | succ count ih =>
    have bound : start < hook.node.chainActive.vChain.length := by omega
    have found : hook.node.chainActive.index start = some hook.node.chainActive.vChain[start] := getElem?_eq_getElem _
    have height := hook.node.chainActive.heights _ _ found
    have registered := settled.register (height.trans run.symm) (scannedPayee host params hook hook.node.chainActive.vChain[start])
    obtain ⟨next, loads, final⟩ := ih (start + 1) registered (by rw [length_append, run]; rfl) (by omega)
    refine ⟨next, ?_, ?_⟩
    · rw [List.range'_succ, loadPaidPayees, found]
      unfold scannedPayee at loads
      rw [height] at loads
      exact loads
    · rw [append_assoc] at final
      rw [drop_eq_getElem_cons, take_succ_cons]
      exact final

variable (params : Params) (hook : MnHook)
lemma samePayments_clear (nHeight : Nat) (maps : CollateralMaps) :
    SamePayments maps.clear (loadCollaterals params hook nHeight maps.clear) := by
  obtain ⟨coins, effect, -⟩ := loadCollaterals_effect ..
  exact ⟨effect.paidBlocks, effect.paidHeight⟩

variable (maps : CollateralMaps)
lemma clear_settled (chain : CChain) (start) :
    PaymentsSettled maps.clear ((chain.vChain.take start).map fun pindex => (pindex, none)) where
  heights := by
    intro i entry found
    rw [getElem?_map] at found
    obtain ⟨pindex, ins, rfl⟩ := Option.map_eq_some_iff.mp found
    rw [getElem?_take] at ins
    split at ins
    · exact chain.heights i _ ins
    · cases ins
  blocks := by
    intro script
    rw [paidBlocks, filter_eq_nil_iff.mpr]
    · rfl
    · intro entry mem
      obtain ⟨pindex, -, rfl⟩ := mem_map.mp mem
      simp
  paidAt := by
    intro i entry found
    rw [getElem?_map] at found
    obtain ⟨pindex, -, rfl⟩ := Option.map_eq_some_iff.mp found
    rfl
  above := fun _ _ => rfl

def collateralScripts : Nat :=
  (loadCollaterals params hook hook.node.chainActive.height.toNat maps.clear).mapScriptCollaterals.entries.length

def scanStart : Nat :=
  hook.node.chainActive.height.toNat - collateralScripts params hook maps * 2
end

lemma CChain.height_toNat {chain : CChain} (nonempty : chain.vChain ≠ []) : chain.height.toNat + 1 = chain.vChain.length := by
  have pos := length_pos_iff.mpr nonempty
  rw [CChain.height]
  omega

lemma init_payments {host : Host} {hook : MnHook} (waiting : maps.initiatedAt ≤ 0) (nonempty : hook.node.chainActive.vChain ≠ [])
    (deep : collateralScripts params hook maps * 2 ≤ hook.node.chainActive.height.toNat) :
    ∃ next, maps.init host params hook = .ok next ∧ PaymentsSettled next (rescan host params hook (scanStart params hook maps)) := by
  have length := CChain.height_toNat nonempty
  have start : scanStart params hook maps + (collateralScripts params hook maps * 2 + 1) = hook.node.chainActive.vChain.length := by
    unfold scanStart
    omega
  have cleared := (clear_settled _ hook.node.chainActive (scanStart params hook maps)).of_same
    (samePayments_clear params hook hook.node.chainActive.height.toNat maps)
  obtain ⟨paid, loads, settled⟩ := loadPaidPayees_settled _ _ _ _
    _ cleared (by rw [length_map, length_take]; omega) start.le
  have whole : (hook.node.chainActive.vChain.drop (scanStart params hook maps)).take (collateralScripts params hook maps * 2 + 1) =
      hook.node.chainActive.vChain.drop (scanStart params hook maps) := take_of_length_le (by rw [length_drop]; omega)
  rw [whole] at settled
  refine ⟨{ paid with initiatedAt := hook.node.chainActive.height.toNat, lastProcess := hook.now }, ?_, settled.of_same ⟨rfl, rfl⟩⟩
  rw [CollateralMaps.init, if_neg (by omega)]
  apply Except.require_bind_eq_ok.mpr
  refine ⟨decide_eq_true deep, ?_⟩
  apply Except.bind_eq_ok.mpr
  exact ⟨_, loads, rfl⟩

lemma init_ok_iff (hook : MnHook) (waiting : maps.initiatedAt ≤ 0) (nonempty : hook.node.chainActive.vChain ≠ []) :
    (∃ next, maps.init host params hook = .ok next) ↔
      collateralScripts params hook maps * 2 ≤ hook.node.chainActive.height.toNat := by
  constructor
  · rintro ⟨next, inits⟩
    rw [CollateralMaps.init, if_neg (by omega)] at inits
    obtain ⟨deep, -⟩ := Except.require_bind_eq_ok.mp inits
    exact decide_eq_true_iff.mp deep
  · intro deep
    obtain ⟨next, inits, -⟩ := init_payments waiting nonempty deep
    exact ⟨_, inits⟩
end

variable (host : Host) (params : Params)
structure PaidState where
  maps : CollateralMaps
  entries : List PaidEntry

def PaidState.chain (state : PaidState) : List CBlockIndex := state.entries.map Prod.fst

def PaidState.ready (state : PaidState) (hook : MnHook) : List PaidEntry :=
  if (state.maps.wake hook.now).initiatedAt < 0 then rescan host params hook (scanStart params hook (state.maps.wake hook.now))
  else state.entries

/-- `Clear`, `Init` by itself, and the calls that follow the chain above genesis. -/
inductive PaidStep : PaidState → PaidState → Prop where
  | clear {state : PaidState} : PaidStep state ⟨{ state.maps with initiatedAt := -1 }, state.entries⟩
  | init {state : PaidState} (hook : MnHook) {maps : CollateralMaps} (sees : hook.node.chainActive.vChain = state.chain)
      (waiting : state.maps.initiatedAt ≤ 0) (inits : state.maps.init host params hook = .ok maps) :
      PaidStep state ⟨maps, rescan host params hook (scanStart params hook state.maps)⟩
  | connect {state : PaidState} (hook : MnHook) (pindex : CBlockIndex) (block : CBlock) {maps : CollateralMaps}
      (sees : hook.node.chainActive.vChain = state.chain) (height : pindex.nHeight = state.entries.length)
      (connects : state.maps.connectBlock host params hook pindex block = .ok maps) :
      PaidStep state ⟨maps, state.ready host params hook ++ [(pindex, recordedPayee params hook pindex block)]⟩
  | disconnect {maps : CollateralMaps} {entries : List PaidEntry} (now : Int) (pindex : CBlockIndex) (block : CBlock)
      (payee : Option CScript) (above : entries ≠ []) :
      PaidStep ⟨maps, entries ++ [(pindex, payee)]⟩ ⟨maps.disconnectBlock host params now pindex block, entries⟩

structure PaymentsTracked (state : PaidState) : Prop where
  started : state.entries ≠ []
  held : PaymentsHeld state.maps state.entries
  settled : 0 ≤ state.maps.initiatedAt → PaymentsSettled state.maps state.entries

variable {host params}
lemma rescan_length (hook : MnHook) (start) : (rescan host params hook start).length = hook.node.chainActive.vChain.length := by
  grind [rescan, length_append, length_map, length_take, length_drop]

lemma PaidState.chain_length (state : PaidState) : state.chain.length = state.entries.length := length_map ..

section
variable {state : PaidState} {hook : MnHook}
lemma PaymentsTracked.nonempty (tracked : PaymentsTracked state)
    (sees : hook.node.chainActive.vChain = state.chain) : hook.node.chainActive.vChain ≠ [] := by
  rw [sees, PaidState.chain]
  simpa using tracked.started

lemma init_payments_of_ok {maps next hook} (waiting : maps.initiatedAt ≤ 0)
    (nonempty : hook.node.chainActive.vChain ≠ []) (inits : maps.init host params hook = .ok next) :
    PaymentsSettled next (rescan host params hook (scanStart params hook maps)) := by
  have deep := (init_ok_iff _ waiting nonempty).mp ⟨_, inits⟩
  obtain ⟨other, inits', settled⟩ := init_payments waiting nonempty deep
  rw [inits] at inits'
  cases inits'
  exact settled
end

lemma PaidStep.tracked {state next} (step : PaidStep host params state next) (tracked : PaymentsTracked state) :
    PaymentsTracked next := by
  cases step with
  | clear =>
    refine ⟨tracked.started, tracked.held.of_same ⟨rfl, rfl⟩, fun live => ?_⟩
    dsimp only at live
    omega
  | init hook sees waiting inits =>
    have nonempty := tracked.nonempty sees
    have settled := init_payments_of_ok waiting nonempty inits
    refine ⟨?_, settled.held, fun _ => settled⟩
    rw [← length_pos_iff, rescan_length]
    exact length_pos_iff.mpr nonempty
  | connect hook pindex block sees height conn =>
    obtain ⟨ready, readies, -, -, rfl⟩ := connectBlock_eq_ok.mp conn
    have pre : PaymentsSettled ready (state.ready host params hook) := by
      unfold CollateralMaps.ready at readies
      unfold PaidState.ready
      dsimp only at readies
      split at readies
      · next waiting => simpa [waiting] using init_payments_of_ok (by omega) (tracked.nonempty sees) readies
      · next live =>
        cases readies
        have same := (state.maps.wake_initiatedAt hook.now).resolve_left (by omega)
        rw [if_neg live]
        exact (tracked.settled (by omega)).of_same ⟨rfl, rfl⟩
    have length : (state.ready host params hook).length = state.entries.length := by
      unfold PaidState.ready
      split
      · rw [rescan_length, sees, PaidState.chain_length]
      · rfl
    have settled : PaymentsSettled (ready.connectReady host params hook pindex block)
        (state.ready host params hook ++ [(pindex, recordedPayee params hook pindex block)]) :=
      connectReady_settled_payments pre (height.trans length.symm)
    exact ⟨by simp, settled.held, fun _ => settled⟩
  | disconnect now pindex block payee above =>
    rename_i maps entries
    have height := tracked.held.heights _ _ (getElem?_concat_length ..)
    by_cases early : (pindex.nHeight : Int) < (maps.wake now).initiatedAt
    · have stays : maps.disconnectBlock host params now pindex block = { maps.wake now with initiatedAt := -1 } := by
        unfold disconnectBlock
        rw [if_pos early]
      have same : SamePayments maps (maps.disconnectBlock host params now pindex block) := by
        rw [stays]
        exact ⟨rfl, rfl⟩
      refine ⟨above, tracked.held.leave.of_same same, fun live => ?_⟩
      rw [stays] at live
      dsimp only at live
      omega
    · have disc := disconnectBlock_disconnected host params block (not_lt.mp early)
      have same : SamePayments (maps.unregisterPaidPayee entries.length) (maps.disconnectBlock host params now pindex block) := by
        rw [← height]
        exact ⟨disc.paid.1, disc.paid.2⟩
      refine ⟨above, tracked.held.unregister.of_same same, fun live => ?_⟩
      rw [disc.initiatedAt] at live
      have kept := (maps.wake_initiatedAt now).resolve_left (by omega)
      have settled := tracked.settled (show 0 ≤ maps.initiatedAt by omega)
      exact settled.unregister.of_same same

def PaidState.fresh (chain : CChain) : PaidState := ⟨emptyMaps, chain.vChain.map fun pindex => (pindex, none)⟩

lemma fresh_tracked {chain} (nonempty : chain.vChain ≠ []) : PaymentsTracked (PaidState.fresh chain) := by
  have settled : PaymentsSettled emptyMaps (chain.vChain.map fun pindex => (pindex, none)) := by
    have cleared := clear_settled emptyMaps chain chain.vChain.length
    rw [take_length] at cleared
    exact cleared.of_same ⟨rfl, rfl⟩
  exact ⟨by simpa [PaidState.fresh] using nonempty, settled.held, fun _ => settled⟩

lemma run_tracked {start state} (tracked : PaymentsTracked start) (run : ReflTransGen (PaidStep host params) start state) :
    PaymentsTracked state := by
  induction run with
  | refl => exact tracked
  | tail _ step ih => exact step.tracked ih

end Peony
