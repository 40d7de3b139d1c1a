import Peony.Coins.Flush

namespace Peony
open Function

inductive CoinOp where
  | getCoin (outpoint : COutPoint)
  | haveCoin (outpoint : COutPoint)
  | addCoin (outpoint : COutPoint) (coin : Coin) (possibleOverwrite : Bool)
  | spendCoin (outpoint : COutPoint)
  | uncache (outpoint : COutPoint)
  | flush
  deriving DecidableEq

inductive LayerOp where
  | push | discard
  | layer (depth : Nat) (op : CoinOp)
  deriving DecidableEq

inductive CoinAnswer where
  | found (coin : Option Coin)
  | held (answer : Bool)
  | moved (coin : Coin)
  | done
  deriving DecidableEq

/-- The answer to a caller that, as `CCoinsViewMemPool::GetCoin` does, drops a spent coin. -/
def CoinAnswer.readUnspent : CoinAnswer → CoinAnswer
  | .found coin => .found (coin.bind Coin.unspent)
  | answer => answer

namespace CCoinsView

def applyOp (view : CCoinsView) : CoinOp → Except Failure (CoinAnswer × CCoinsView)
  | .getCoin outpoint => .ok (.found (view.getCoin outpoint).1, (view.getCoin outpoint).2)
  | .haveCoin outpoint => .ok (.held (view.haveCoin outpoint).1, (view.haveCoin outpoint).2)
  | .addCoin outpoint coin possibleOverwrite => do
    let added ← view.addCoin outpoint coin possibleOverwrite
    return (.done, added)
  | .spendCoin outpoint => .ok (.moved (view.spendCoin outpoint).1, (view.spendCoin outpoint).2)
  | .uncache outpoint => .ok (.done, view.uncache outpoint)
  | .flush => do
    let flushed ← view.flush
    return (.done, flushed)

def applyAt (op : CoinOp) : Nat → CCoinsView → Except Failure (CoinAnswer × CCoinsView)
  | 0, view => view.applyOp op
  | _ + 1, .db _ => .error (.assertion "no such layer")
  | depth + 1, .cache layer base => do
    let (answer, changed) ← applyAt op depth base
    return (answer, .cache layer changed)

def applyLayer (view : CCoinsView) : LayerOp → Except Failure (CoinAnswer × CCoinsView)
  | .push => .ok (.done, view.newCache)
  | .discard =>
    match view with
    | .db _ => .error (.assertion "no such layer")
    | .cache _ base => .ok (.done, base)
  | .layer depth op => applyAt op depth view

def runLayers (view : CCoinsView) : List LayerOp → Except Failure (List CoinAnswer × CCoinsView)
  | [] => .ok ([], view)
  | op :: ops => do
    let (answer, changed) ← view.applyLayer op
    let (answers, final) ← changed.runLayers ops
    return (answer :: answers, final)

end CCoinsView

def FlatMap.apply (coins : FlatMap) : CoinOp → CoinAnswer × FlatMap
  | .getCoin outpoint => (.found (coins outpoint), coins)
  | .haveCoin outpoint => (.held (coins outpoint).isSome, coins)
  | .addCoin outpoint coin _ =>
    (.done, if isUnspendable coin.out.scriptPubKey then coins else update coins outpoint (some coin))
  | .spendCoin outpoint => (.moved ((coins outpoint).getD coinEmpty), update coins outpoint none)
  | .uncache _ => (.done, coins)
  | .flush => (.done, coins)

def FlatMap.commit (coins : FlatMap) (op : CoinOp) (below : List FlatMap) : List FlatMap :=
  if op = .flush then coins :: below.tail else below

def applyFlatAt (op : CoinOp) : Nat → List FlatMap → CoinAnswer × List FlatMap
  | _, [] => (.done, [])
  | 0, coins :: below => ((coins.apply op).1, (coins.apply op).2 :: coins.commit op below)
  | depth + 1, _ :: below =>
    let changed := applyFlatAt op depth below
    (changed.1, changed.2.headD (fun _ => none) :: changed.2)

def applyFlat (maps : List FlatMap) : LayerOp → CoinAnswer × List FlatMap
  | .push => (.done, maps.headD (fun _ => none) :: maps)
  | .discard => (.done, maps.tail)
  | .layer depth op => applyFlatAt op depth maps

def runFlat (maps : List FlatMap) : List LayerOp → List CoinAnswer × List FlatMap
  | [] => ([], maps)
  | op :: ops =>
    let changed := applyFlat maps op
    let rest := runFlat changed.2 ops
    (changed.1 :: rest.1, rest.2)

variable {view : CCoinsView}
namespace CCoinsView

def parents : CCoinsView → List FlatMap
  | .db _ => []
  | .cache _ base => base.visible :: base.parents

def flatMaps (view : CCoinsView) : List FlatMap := view.visible :: view.parents

/-- `AddCoin` asserts an unspent coin, and replaces one only when told to. -/
def OpAllowed (view : CCoinsView) : CoinOp → Prop
  | .addCoin outpoint coin possibleOverwrite =>
    coin.isSpent = false ∧ (possibleOverwrite = false → (view.haveCoin outpoint).1 = false)
  | _ => True

def AllowedAt (op : CoinOp) : Nat → CCoinsView → Prop
  | 0, view => view.IsCache ∧ view.OpAllowed op
  | _ + 1, .db _ => False
  | depth + 1, .cache layer base => layer.cacheCoins = ∅ ∧ AllowedAt op depth base

def Allowed (view : CCoinsView) : LayerOp → Prop
  | .push => True
  | .discard => view.IsCache
  | .layer depth op => AllowedAt op depth view

def Disciplined (view : CCoinsView) : List LayerOp → Prop
  | [] => True
  | op :: ops => view.Allowed op ∧ ∀ answer changed, view.applyLayer op = .ok (answer, changed) → changed.Disciplined ops

def FreshSound : CCoinsView → Prop
  | .db _ => True
  | .cache layer base => base.FreshSound ∧ ∀ outpoint entry, layer.cacheCoins.lookup outpoint = some entry →
      entry.fresh = true → (base.haveCoin outpoint).1 = false

def answerAt (view : CCoinsView) (depth : Nat) (op : CoinOp) : Option CoinAnswer :=
  match applyAt op depth view with
  | .ok (answer, _) => some answer.readUnspent
  | .error _ => none

section
variable (wellFormed : view.WellFormed) (outpoint : COutPoint)
include wellFormed

lemma getCoin_parents : (view.getCoin outpoint).2.parents = view.parents := by
  induction view with
  | db database => rfl
  | cache layer base ih =>
    have shown := (getCoin_spec wellFormed.1 outpoint).filled.visible
    have rest := ih wellFormed.1
    rcases getCoin_cases _ _ _ with
      ⟨entry, held, reads⟩ | ⟨miss, ⟨full, fetched, reads⟩ | ⟨coin, full, fetched, reads⟩⟩
    · rw [reads]
    · rw [fetched] at shown rest
      simp [reads, parents, shown, rest]
    · rw [fetched] at shown rest
      simp [reads, parents, shown, rest]

lemma haveCoin_parents : (view.haveCoin outpoint).2.parents = view.parents := by
  cases view with
  | db database => rfl
  | cache layer base => exact getCoin_parents wellFormed _
end

variable {layer : CCoinsViewCache} {base : CCoinsView}
lemma spendCoin_parents (wellFormed : (cache layer base).WellFormed) (outpoint) :
    ((cache layer base).spendCoin outpoint).2.parents = (cache layer base).parents := by
  rw [← getCoin_parents wellFormed]
  rcases spendCoin_cases _ _ _ with
    ⟨res, reads, spends⟩ | ⟨layer', base', entry, reads, held, ⟨fresh, spends⟩ | ⟨fresh, spends⟩⟩
  · rw [spends, reads]
  · rw [spends, reads]
    rfl
  · rw [spends, reads]
    rfl

lemma uncache_parents (view : CCoinsView) (outpoint) : (view.uncache outpoint).parents = view.parents := by
  cases view with
  | db database => rfl
  | cache layer base =>
    rw [uncache]
    cases held : layer.cacheCoins.lookup _ with
    | none => rfl
    | some entry =>
      dsimp only
      split <;> rfl

lemma addCoin_parents {res outpoint coin overwrite}
    (adds : view.addCoin outpoint coin overwrite = .ok res) : res.parents = view.parents := by
  obtain ⟨-, ⟨-, rfl⟩ | ⟨-, layer, base, rfl, -, rfl⟩⟩ := addCoin_cases adds
  · rfl
  · rfl

lemma batchWrite_parents {res mapCoins hashBlock}
    (writes : view.batchWrite mapCoins hashBlock = .ok res) : res.parents = view.parents := by
  cases view with
  | db database =>
    cases writes
    rfl
  | cache layer base =>
    rw [batchWrite] at writes
    cases merges : mergeEntries layer.cacheCoins mapCoins.entries with
    | error failure => simp [merges] at writes
    | ok merged =>
      simp only [merges, Except.ok.injEq] at writes
      rw [← writes]
      rfl

structure Refines (outcome : Except Failure (CoinAnswer × CCoinsView)) (flat : CoinAnswer × List FlatMap) : Prop where
  runs : ∃ answer result, outcome = .ok (answer, result) ∧ answer.readUnspent = flat.1 ∧
    result.flatMaps = flat.2 ∧ result.WellFormed

lemma applyOp_refines {op} (wellFormed : (cache layer base).WellFormed) (may : (cache layer base).OpAllowed op) :
    Refines ((cache layer base).applyOp op)
      (applyFlatAt op 0 (cache layer base).flatMaps) := by
  have valid : (cache layer base).ValidCache := ⟨trivial, wellFormed⟩
  cases op with
  | getCoin outpoint =>
    have spec := getCoin_spec wellFormed outpoint
    refine ⟨_, _, rfl, ?_, ?_, spec.filled.wellFormed⟩
    · exact congrArg _ spec.shown
    · rw [flatMaps, spec.filled.visible, getCoin_parents wellFormed]
      rfl
  | haveCoin outpoint =>
    have full := haveCoin_filled wellFormed outpoint
    refine ⟨_, _, rfl, ?_, ?_, full.wellFormed⟩
    · exact congrArg _ (haveCoin_fst wellFormed _)
    · rw [flatMaps, full.visible, haveCoin_parents wellFormed]
      rfl
  | addCoin outpoint coin overwrite =>
    obtain ⟨live, free⟩ := may
    cases dead : isUnspendable _ with
    | true =>
      refine ⟨.done, _, ?_, rfl, ?_, wellFormed⟩
      · rw [applyOp, addCoin_unspendable _ _ _ live dead]
        rfl
      · simp [flatMaps, applyFlatAt, FlatMap.apply, FlatMap.commit, dead]
    | false =>
      have absent : overwrite = false → (cache layer base).visible outpoint = none := by
        intro keep
        have hidden := free keep
        rw [haveCoin_fst wellFormed] at hidden
        exact Option.not_isSome_iff_eq_none.mp (by simp [hidden])
      obtain ⟨res, adds, upd⟩ := addCoin_spec valid _ live dead absent
      refine ⟨.done, _, ?_, rfl, ?_, upd.valid.wellFormed⟩
      · rw [applyOp, adds]
        rfl
      · rw [flatMaps, upd.visible, addCoin_parents adds]
        simp [flatMaps, applyFlatAt, FlatMap.apply, FlatMap.commit, dead]
  | spendCoin outpoint =>
    have upd := spendCoin_snd valid outpoint
    refine ⟨_, _, rfl, ?_, ?_, upd.valid.wellFormed⟩
    · exact congrArg _ (spendCoin_fst valid _)
    · rw [flatMaps, upd.visible, spendCoin_parents wellFormed]
      rfl
  | uncache outpoint =>
    have full := uncache_filled wellFormed outpoint
    refine ⟨_, _, rfl, rfl, ?_, full.wellFormed⟩
    rw [flatMaps, full.visible, uncache_parents]
    rfl
  | flush =>
    obtain ⟨wrote, flushes, writes, writtenWF, shown, -⟩ := flush_spec wellFormed
    refine ⟨.done, .cache ⟨layer.hashBlock, _⟩ _, ?_, rfl, ?_, wellFormed_empty writtenWF _⟩
    · rw [applyOp, flushes]
      rfl
    · simp only [flatMaps, parents, visible_empty, shown, batchWrite_parents writes]
      rfl

lemma flatMaps_of_empty (empty : layer.cacheCoins = ∅) (base) :
    (cache layer base).flatMaps = base.visible :: base.flatMaps := by
  obtain ⟨hashBlock, cacheCoins⟩ := layer
  dsimp only at empty
  rw [empty, flatMaps]
  rfl

lemma applyAt_refines {op} {depth : Nat} (wellFormed : view.WellFormed)
    (may : AllowedAt op depth view) : Refines (applyAt op depth view) (applyFlatAt op depth view.flatMaps) := by
  induction depth generalizing view with
  | zero =>
    cases view with
    | db database => exact may.1.elim
    | cache layer base => exact applyOp_refines wellFormed may.2
  | succ depth ih =>
    cases view with
    | db database => exact may.elim
    | cache layer base =>
      obtain ⟨empty, lower⟩ := may
      obtain ⟨answer, changed, runs, answered, shown, changedWF⟩ := ih wellFormed.1 lower
      refine ⟨answer, .cache layer _, ?_, ?_, ?_, changedWF, ?_⟩
      · rw [applyAt, runs]
        rfl
      · exact answered
      · rw [flatMaps_of_empty empty, flatMaps_of_empty empty, applyFlatAt, ← shown]
        rfl
      · rw [empty]
        simp

section
variable (wellFormed : view.WellFormed)
include wellFormed

lemma applyLayer_refines {op} (may : view.Allowed op) : Refines (view.applyLayer op) (applyFlat view.flatMaps op) := by
  cases op with
  | push =>
    refine ⟨_, _, rfl, rfl, ?_, wellFormed_empty wellFormed 0⟩
    rfl
  | discard =>
    cases view with
    | db database => exact may.elim
    | cache layer base => exact ⟨_, _, rfl, rfl, rfl, wellFormed.1⟩
  | layer depth op => exact applyAt_refines wellFormed may

lemma runLayers_refines {ops} (disciplined : view.Disciplined ops) :
    ∃ answers final, view.runLayers ops = .ok (answers, final) ∧
      answers.map CoinAnswer.readUnspent = (runFlat view.flatMaps ops).1 ∧
      final.flatMaps = (runFlat view.flatMaps ops).2 ∧ final.WellFormed := by
  induction ops generalizing view with
  | nil => exact ⟨[], _, rfl, rfl, rfl, wellFormed⟩
  | cons op ops ih =>
    obtain ⟨may, next⟩ := disciplined
    obtain ⟨answer, changed, runs, answered, shown, changedWF⟩ := applyLayer_refines wellFormed may
    obtain ⟨answers, final, rest, answeredRest, shownRest, finalWF⟩ := ih changedWF (next _ _ runs)
    refine ⟨answer :: answers, _, ?_, ?_, ?_, finalWF⟩
    · rw [runLayers, runs]
      change (changed.runLayers _ >>= _) = _
      rw [rest]
      rfl
    · rw [List.map_cons, answered, answeredRest, shown]
      rfl
    · rw [shownRest, shown]
      rfl

lemma WellFormed.freshSound : view.FreshSound := by
  induction view with
  | db database => exact trivial
  | cache layer base ih =>
    refine ⟨ih wellFormed.1, ?_⟩
    intro outpoint entry held fresh
    rw [haveCoin_fst wellFormed.1, (wellFormed.2 _ _ held).fresh fresh]
    rfl
end

lemma wellFormed_newCaches (wellFormed : base.WellFormed) {depth : Nat} : (newCache^[depth] base).WellFormed := by
  induction depth generalizing base with
  | zero => exact wellFormed
  | succ depth ih => exact ih (wellFormed_empty wellFormed 0)

lemma answerAt_succ (layer base) (depth : Nat) (op) :
    (cache layer base).answerAt (depth + 1) op = base.answerAt depth op := by
  unfold answerAt
  rw [applyAt]
  cases applyAt op _ _ <;> rfl

section
variable (wellFormed : view.WellFormed) (depth : Nat) (outpoint : COutPoint)
include wellFormed

/-- A question about the coins is answered at every depth from what that layer shows. -/
lemma answerAt_eq {op answer} (top : ∀ {view : CCoinsView}, view.WellFormed → view.answerAt 0 op = some (answer view.visible)) :
    view.answerAt depth op = view.flatMaps[depth]?.map answer := by
  induction depth generalizing view with
  | zero => exact top wellFormed
  | succ depth ih =>
    cases view with
    | db database => rfl
    | cache layer base =>
      rw [answerAt_succ, ih wellFormed.1]
      rfl

lemma answerAt_getCoin : view.answerAt depth (.getCoin outpoint) = view.flatMaps[depth]?.map fun coins => .found (coins outpoint) :=
  answerAt_eq wellFormed _ fun wf => congrArg (some ∘ CoinAnswer.found) (getCoin_spec wf _).shown

lemma answerAt_haveCoin :
    view.answerAt depth (.haveCoin outpoint) = view.flatMaps[depth]?.map fun coins => .held (coins outpoint).isSome :=
  answerAt_eq wellFormed _ fun wf => congrArg (some ∘ CoinAnswer.held) (haveCoin_fst wf _)
end

def SameAnswers (view changed : CCoinsView) (depth : Nat) : Prop :=
  ∀ outpoint, changed.answerAt depth (.getCoin outpoint) = view.answerAt depth (.getCoin outpoint) ∧
    changed.answerAt depth (.haveCoin outpoint) = view.answerAt depth (.haveCoin outpoint)

lemma SameAnswers.of_flatMaps {changed} (wellFormed : view.WellFormed)
    (changedWF : changed.WellFormed) {depth} (same : changed.flatMaps[depth]? = view.flatMaps[depth]?) :
    SameAnswers view changed depth := by
  intro outpoint
  simp [answerAt_getCoin wellFormed, answerAt_getCoin changedWF, answerAt_haveCoin wellFormed, answerAt_haveCoin changedWF, same]

lemma applyFlatAt_uncache {outpoint} {depth : Nat} (may : AllowedAt (.uncache outpoint) depth view) :
    (applyFlatAt (.uncache outpoint) depth view.flatMaps).2 = view.flatMaps := by
  induction depth generalizing view with
  | zero => rfl
  | succ depth ih =>
    cases view with
    | db database => exact may.elim
    | cache layer base =>
      obtain ⟨empty, lower⟩ := may
      rw [flatMaps_of_empty empty, applyFlatAt, ih lower]
      rfl

lemma applyFlatAt_flush (depth : Nat) (may : AllowedAt .flush depth view) (other)
    (above : other ≤ depth) : (applyFlatAt .flush depth view.flatMaps).2[other]? = view.flatMaps[other]? := by
  induction depth generalizing view other with
  | zero =>
    obtain rfl : other = 0 := by omega
    rfl
  | succ depth ih =>
    cases view with
    | db database => exact may.elim
    | cache layer base =>
      obtain ⟨empty, lower⟩ := may
      rw [flatMaps_of_empty empty, applyFlatAt]
      cases other with
      | zero =>
        have first := ih lower 0 (by omega)
        rw [List.headD_eq_head?_getD, List.head?_eq_getElem?, first]
        rfl
      | succ other => exact ih lower _ (by omega)

end CCoinsView

open CCoinsView

theorem coinCaches_refine_flat_maps (depth : Nat) (database : CCoinsViewDB) (records : (db database).WellFormed)
    (ops : List LayerOp) (disciplined : (newCache^[depth] (.db database)).Disciplined ops) :
    ∃ answers final, (newCache^[depth] (.db database)).runLayers ops = .ok (answers, final) ∧
      answers.map CoinAnswer.readUnspent = (runFlat (newCache^[depth] (.db database)).flatMaps ops).1 ∧
      (∀ layer outpoint, final.Allowed (.layer layer (.uncache outpoint)) →
        ∃ answer changed, final.applyLayer (.layer layer (.uncache outpoint)) = .ok (answer, changed) ∧
          ∀ other, SameAnswers final changed other) ∧
      (∀ layer, final.Allowed (.layer layer .flush) →
        ∃ answer changed, final.applyLayer (.layer layer .flush) = .ok (answer, changed) ∧
          ∀ other, other ≤ layer → SameAnswers final changed other) ∧
      final.FreshSound := by
  have wellFormed : (newCache^[depth] (.db database)).WellFormed := wellFormed_newCaches records
  obtain ⟨answers, final, runs, answered, -, finalWF⟩ := runLayers_refines wellFormed disciplined
  refine ⟨_, _, runs, answered, ?_, ?_, finalWF.freshSound⟩
  · intro layer outpoint allowed
    obtain ⟨answer, changed, applies, -, shown, changedWF⟩ := applyAt_refines finalWF allowed
    refine ⟨_, _, applies, fun other => .of_flatMaps finalWF changedWF ?_⟩
    rw [shown, applyFlatAt_uncache allowed]
  · intro layer allowed
    obtain ⟨answer, changed, applies, -, shown, changedWF⟩ := applyAt_refines finalWF allowed
    refine ⟨_, _, applies, fun other above => .of_flatMaps finalWF changedWF ?_⟩
    rw [shown, applyFlatAt_flush _ allowed _ above]

lemma CCoinsView.Disciplined.cons {changed answer op ops}
    (may : view.Allowed op) (applies : view.applyLayer op = .ok (answer, changed)) (rest : changed.Disciplined ops) :
    view.Disciplined (op :: ops) := by
  refine ⟨may, fun _ _ same => ?_⟩
  rw [applies] at same
  cases same
  exact rest

def storedOutpoint : COutPoint := ⟨1, 0⟩
def storedCoin : Coin := ⟨false, false, ⟨5, [0x51]⟩, 1⟩
def storedCoins : CCoinsViewDB := ⟨0, (∅ : CoinMap).insert storedOutpoint storedCoin⟩

lemma storedCoins_wellFormed : (db storedCoins).WellFormed := by
  intro outpoint coin found
  by_cases same : outpoint = storedOutpoint
  · subst same
    cases found
    rfl
  · rw [storedCoins, AList.lookup_insert_ne same] at found
    cases found

def respendOps : List LayerOp :=
  [.layer 0 (.spendCoin storedOutpoint), .push, .layer 0 (.addCoin storedOutpoint storedCoin false),
    .layer 0 .flush, .layer 1 .flush, .layer 1 (.haveCoin storedOutpoint)]

lemma respendOps_disciplined : (newCache^[1] (.db storedCoins)).Disciplined respendOps := by
  refine .cons ⟨trivial, trivial⟩ rfl ?_
  refine .cons trivial rfl ?_
  refine .cons ⟨trivial, rfl, fun _ => rfl⟩ rfl ?_
  refine .cons ⟨trivial, trivial⟩ rfl ?_
  refine .cons ⟨rfl, trivial, trivial⟩ rfl ?_
  exact .cons ⟨rfl, trivial, trivial⟩ rfl trivial

theorem coinCaches_respend : ∃ answers final, (newCache^[1] (.db storedCoins)).runLayers respendOps = .ok (answers, final) ∧
      answers.map CoinAnswer.readUnspent = [.moved storedCoin, .done, .done, .done, .done, .held true] := by
  obtain ⟨answers, final, runs, answered, -⟩ :=
    coinCaches_refine_flat_maps 1 storedCoins storedCoins_wellFormed respendOps respendOps_disciplined
  exact ⟨answers, final, runs, answered.trans rfl⟩

/-- `GetCoin` hands out the spent entry of its own cache. -/
theorem getCoin_answers_differ_after_spend : ¬ ∀ (depth : Nat) (database : CCoinsViewDB)
    (ops : List LayerOp), (db database).WellFormed →
      (newCache^[depth] (.db database)).Disciplined ops →
      ∃ answers final, (newCache^[depth] (.db database)).runLayers ops = .ok (answers, final) ∧
        answers = (runFlat (newCache^[depth] (.db database)).flatMaps ops).1 := by
  intro refines
  have disciplined : (newCache^[1] (.db storedCoins)).Disciplined
      [.layer 0 (.spendCoin storedOutpoint), .layer 0 (.getCoin storedOutpoint)] := by
    refine .cons ⟨trivial, trivial⟩ rfl ?_
    exact .cons ⟨trivial, trivial⟩ rfl trivial
  obtain ⟨answers, final, runs, answered⟩ := refines 1 storedCoins _ storedCoins_wellFormed disciplined
  have stale : answers = [.moved storedCoin, .found (some coinEmpty)] := by
    cases runs
    rfl
  have plain : answers = [.moved storedCoin, .found none] := answered
  rw [stale] at plain
  cases plain

end Peony
