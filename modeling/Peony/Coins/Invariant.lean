import Peony.Coins.View
import Mathlib.Logic.Function.Basic

namespace Peony
open Function Coin AList

abbrev FlatMap := COutPoint → Option Coin

namespace CCoinsView

def visible : CCoinsView → FlatMap
  | .db database, outpoint => database.coins.lookup outpoint
  | .cache layer base, outpoint =>
    match layer.cacheCoins.lookup outpoint with
    | some entry => entry.coin.unspent
    | none => base.visible outpoint

/-- What the flags of a cache entry promise about the parent view, which shows `below`. -/
structure EntryOk (below : Option Coin) (entry : CCoinsCacheEntry) : Prop where
  fresh : entry.fresh = true → below = none
  clean : entry.dirty = false → entry.coin.unspent = below
  pruned : entry.coin.isSpent = true → entry.coin = coinEmpty

def WellFormed : CCoinsView → Prop
  | .db database => ∀ outpoint coin, database.coins.lookup outpoint = some coin → coin.isSpent = false
  | .cache layer base => base.WellFormed ∧
      ∀ outpoint entry, layer.cacheCoins.lookup outpoint = some entry → EntryOk (base.visible outpoint) entry

def IsCache : CCoinsView → Prop
  | .db _ => False
  | .cache _ _ => True

def depth : CCoinsView → Nat
  | .db _ => 0
  | .cache _ base => base.depth + 1

def bestBlock (view : CCoinsView) : UInt256 := view.getBestBlock.1

structure ValidCache (view : CCoinsView) : Prop where
  isCache : view.IsCache
  wellFormed : view.WellFormed

lemma ValidCache.exists_cache {view : CCoinsView} (valid : view.ValidCache) : ∃ layer base, view = .cache layer base := by
  cases view with
  | db database => exact valid.isCache.elim
  | cache layer base => exact ⟨_, _, rfl⟩

end CCoinsView

variable {coin : Coin}
lemma Coin.unspent_of_spent (spent : coin.isSpent = true) : coin.unspent = none := by simp [unspent, spent]
lemma Coin.unspent_of_unspent (live : coin.isSpent = false) : coin.unspent = some coin := by simp [unspent, live]
lemma Coin.isSpent_of_unspent_eq {shown} (same : coin.unspent = some shown) : shown.isSpent = false := by grind [unspent]

@[simp]
lemma coinEmpty_isSpent : coinEmpty.isSpent = true := rfl

@[simp]
lemma coinEmpty_unspent : coinEmpty.unspent = none := rfl

namespace CCoinsView

lemma visible_cache (layer base outpoint) : (cache layer base).visible outpoint =
      match layer.cacheCoins.lookup outpoint with
      | some entry => entry.coin.unspent
      | none => base.visible outpoint := rfl

variable {layer : CCoinsViewCache} {outpoint : COutPoint} {entry : CCoinsCacheEntry}
lemma visible_held (base) (held : layer.cacheCoins.lookup outpoint = some entry) :
    (cache layer base).visible outpoint = entry.coin.unspent := by rw [visible_cache, held]

lemma visible_missing (base) (miss : layer.cacheCoins.lookup outpoint = none) :
    (cache layer base).visible outpoint = base.visible outpoint := by rw [visible_cache, miss]

variable {view : CCoinsView}
lemma visible_unspent (wellFormed : view.WellFormed) (shown : view.visible outpoint = some coin) : coin.isSpent = false := by
  induction view with
  | db database => exact wellFormed _ _ shown
  | cache layer base ih =>
    cases held : layer.cacheCoins.lookup _ with
    | none =>
      rw [visible_missing _ held] at shown
      exact ih wellFormed.1 shown
    | some entry =>
      rw [visible_held _ held] at shown
      exact isSpent_of_unspent_eq shown

lemma EntryOk.fetched {below} (same : coin.unspent = below)
    (pruned : coin.isSpent = true → coin = coinEmpty) : EntryOk below (fetchedEntry coin) where
  fresh := by
    intro fresh
    rw [← same]
    exact unspent_of_spent fresh
  clean _ := same
  pruned := pruned

/-- Only clean entries picked up from below differ. -/
structure Filled (view result : CCoinsView) : Prop where
  visible : result.visible = view.visible
  wellFormed : result.WellFormed
  depth : result.depth = view.depth
  cursor : result.cursor = view.cursor
  bestBlock : result.bestBlock = view.bestBlock

lemma Filled.refl (wellFormed : view.WellFormed) : Filled view view :=
  ⟨rfl, wellFormed, rfl, rfl, rfl⟩

variable {result : CCoinsView}
lemma Filled.trans {middle} (first : Filled view middle) (snd : Filled middle result) : Filled view result where
  visible := snd.visible.trans first.visible
  wellFormed := snd.wellFormed
  depth := snd.depth.trans first.depth
  cursor := snd.cursor.trans first.cursor
  bestBlock := snd.bestBlock.trans first.bestBlock

lemma isCache_of_depth (depth : result.depth = view.depth) (isCache : view.IsCache) : result.IsCache := by
  cases view with
  | db database => exact isCache.elim
  | cache layer base =>
    cases result with
    | db database => cases depth
    | cache layer' base' => exact trivial

lemma Filled.valid (filled : Filled view result) (valid : view.ValidCache) : result.ValidCache :=
  ⟨isCache_of_depth filled.depth valid.isCache, filled.wellFormed⟩

structure ReadSpec (view : CCoinsView) (outpoint : COutPoint) (result : Option Coin × CCoinsView) : Prop where
  shown : result.1.bind unspent = view.visible outpoint
  pruned : ∀ coin, result.1 = some coin → coin.isSpent = true → coin = coinEmpty
  filled : Filled view result.2

section
variable (layer : CCoinsViewCache) (base : CCoinsView)
lemma bestBlock_cache : (cache layer base).bestBlock = if layer.hashBlock = 0 then base.bestBlock else layer.hashBlock := by
  unfold bestBlock
  rw [getBestBlock]
  split <;> rfl

variable (outpoint : COutPoint)
lemma visible_insert (entry hashBlock) :
    (cache ⟨hashBlock, layer.cacheCoins.insert outpoint entry⟩ base).visible =
      update (cache layer base).visible outpoint entry.coin.unspent := by
  funext other
  by_cases same : other = outpoint
  · subst same
    simp [visible_cache]
  · simp [visible_cache, lookup_insert_ne same, update_of_ne same]

lemma visible_erase (hashBlock) : (cache ⟨hashBlock, layer.cacheCoins.erase outpoint⟩ base).visible =
      update (cache layer base).visible outpoint (base.visible outpoint) := by
  funext other
  by_cases same : other = outpoint
  · subst same
    simp [visible_cache]
  · simp [visible_cache, lookup_erase_ne same, update_of_ne same]
end

variable {base : CCoinsView}
section
variable (wellFormed : (cache layer base).WellFormed)
include wellFormed

lemma wellFormed_insert {entry} (ok : EntryOk (base.visible outpoint) entry) {hashBlock} :
    (cache ⟨hashBlock, layer.cacheCoins.insert outpoint entry⟩ base).WellFormed :=
  ⟨wellFormed.1, AssocMap.forall_insert wellFormed.2 ok⟩

lemma wellFormed_base {filled} (filledWF : filled.WellFormed)
    (same : filled.visible = base.visible) : (cache layer filled).WellFormed := by
  refine ⟨filledWF, ?_⟩
  intro outpoint entry found
  rw [same]
  exact wellFormed.2 _ _ found
end
section
variable (layer : CCoinsViewCache) {filled : CCoinsView}
lemma visible_base (same : filled.visible = base.visible) : (cache layer filled).visible = (cache layer base).visible := by
  funext outpoint
  simp [visible_cache, same]

lemma Filled.under (below : Filled base filled) (wellFormed : (cache layer base).WellFormed) :
    Filled (.cache layer base) (.cache layer filled) where
  visible := visible_base _ below.visible
  wellFormed := wellFormed_base wellFormed below.wellFormed below.visible
  depth := congrArg (· + 1) below.depth
  cursor := below.cursor
  bestBlock := by simp only [bestBlock_cache, below.bestBlock]
end

lemma visible_fetch (miss : layer.cacheCoins.lookup outpoint = none) (same : coin.unspent = base.visible outpoint) :
    (cache { layer with cacheCoins := layer.cacheCoins.insert outpoint (fetchedEntry coin) } base).visible =
      (cache layer base).visible := by
  have shown : (cache layer base).visible outpoint = (fetchedEntry coin).coin.unspent := (visible_missing _ miss).trans same.symm
  rw [visible_insert, ← shown, update_eq_self]

lemma Filled.fetch (wellFormed : (cache layer base).WellFormed) (miss : layer.cacheCoins.lookup outpoint = none)
    (same : coin.unspent = base.visible outpoint) (pruned : coin.isSpent = true → coin = coinEmpty) :
    Filled (.cache layer base)
      (.cache { layer with cacheCoins := layer.cacheCoins.insert outpoint (fetchedEntry coin) } base) where
  visible := visible_fetch miss same
  wellFormed := wellFormed_insert wellFormed (.fetched same pruned)
  depth := rfl
  cursor := rfl
  bestBlock := by simp only [bestBlock_cache]

lemma getCoin_cases (layer base outpoint) :
    (∃ entry, layer.cacheCoins.lookup outpoint = some entry ∧
      (cache layer base).getCoin outpoint = (some entry.coin, .cache layer base)) ∨
    layer.cacheCoins.lookup outpoint = none ∧
      ((∃ filled, base.getCoin outpoint = (none, filled) ∧ (cache layer base).getCoin outpoint = (none, .cache layer filled)) ∨
        ∃ coin filled, base.getCoin outpoint = (some coin, filled) ∧
          (cache layer base).getCoin outpoint = (some coin, .cache
            { layer with cacheCoins := layer.cacheCoins.insert outpoint (fetchedEntry coin) } filled)) := by
  cases held : layer.cacheCoins.lookup _ with
  | some entry => exact .inl ⟨_, rfl, by simp only [getCoin, held]⟩
  | none =>
    cases fetched : base.getCoin _ with
    | mk answer filled =>
      cases answer with
      | none => exact .inr ⟨rfl, .inl ⟨_, rfl, by simp only [getCoin, held, fetched]⟩⟩
      | some coin => exact .inr ⟨rfl, .inr ⟨_, _, rfl, by simp only [getCoin, held, fetched]⟩⟩

lemma getCoin_spec (wellFormed : view.WellFormed) (outpoint) : ReadSpec view outpoint (view.getCoin outpoint) := by
  induction view with
  | db database =>
    refine ⟨?_, ?_, .refl wellFormed⟩
    · simp only [getCoin, visible]
      cases found : database.coins.lookup _ with
      | none => rfl
      | some coin => exact unspent_of_unspent (wellFormed _ _ found)
    · intro coin found spent
      rw [wellFormed _ _ found] at spent
      cases spent
  | cache layer base ih =>
    have below := ih wellFormed.1
    rcases getCoin_cases _ _ _ with
      ⟨entry, held, reads⟩ | ⟨miss, ⟨filled, fetched, reads⟩ | ⟨coin, filled, fetched, reads⟩⟩
    · rw [reads]
      refine ⟨(visible_held _ held).symm, ?_, .refl wellFormed⟩
      rintro coin ⟨⟩
      exact (wellFormed.2 _ _ held).pruned
    · rw [fetched] at below
      rw [reads]
      exact ⟨below.shown.trans (visible_missing _ miss).symm, by simp, .under _ below.filled wellFormed⟩
    · rw [fetched] at below
      have under := Filled.under _ below.filled wellFormed
      have same : coin.unspent = filled.visible outpoint := by simpa [below.filled.visible] using below.shown
      have stored := Filled.fetch under.wellFormed miss same (below.pruned _ rfl)
      rw [reads]
      exact ⟨below.shown.trans (visible_missing _ miss).symm, below.pruned, under.trans stored⟩

lemma getCoin_entry (reads : (cache layer base).getCoin outpoint = (some coin, result)) :
    ∃ layer' base' entry, result = .cache layer' base' ∧ layer'.cacheCoins.lookup outpoint = some entry ∧
      entry.coin = coin := by
  rcases getCoin_cases _ _ _ with
    ⟨entry, held, own⟩ | ⟨-, ⟨filled, -, own⟩ | ⟨found, filled, -, own⟩⟩
  · cases own.symm.trans reads
    exact ⟨_, _, _, rfl, held, rfl⟩
  · cases own.symm.trans reads
  · cases own.symm.trans reads
    exact ⟨_, _, _, rfl, lookup_insert _, rfl⟩

lemma getCoin_none (wellFormed : view.WellFormed) (reads : view.getCoin outpoint = (none, result)) :
    view.visible outpoint = none := by
  have spec := getCoin_spec wellFormed outpoint
  rw [reads] at spec
  exact spec.shown.symm

section
variable {answer shown : Option Coin} (same : answer.bind unspent = shown)
include same

lemma getD_of_shown (pruned : ∀ coin, answer = some coin → coin.isSpent = true → coin = coinEmpty) :
    answer.getD coinEmpty = shown.getD coinEmpty := by
  rw [← same]
  cases answer with
  | none => rfl
  | some coin =>
    cases spent : coin.isSpent with
    | true => simp [pruned _ _ spent]
    | false => simp [unspent_of_unspent spent]

lemma any_of_shown : (answer.any fun coin => !coin.isSpent) = shown.isSome := by
  rw [← same]
  cases answer with
  | none => rfl
  | some coin => cases spent : coin.isSpent <;> simp [unspent, spent]
end
section
variable (wellFormed : view.WellFormed) (outpoint : COutPoint)
include wellFormed

lemma accessCoin_fst : (view.accessCoin outpoint).1 = (view.visible outpoint).getD coinEmpty := by
  have spec := getCoin_spec wellFormed outpoint
  exact getD_of_shown spec.shown spec.pruned

lemma haveCoin_fst : (view.haveCoin outpoint).1 = (view.visible outpoint).isSome := by
  cases view with
  | db database => rfl
  | cache layer base => exact any_of_shown (getCoin_spec wellFormed _).shown

lemma haveCoin_filled : Filled view (view.haveCoin outpoint).2 := by
  cases view with
  | db database => exact .refl wellFormed
  | cache layer base => exact (getCoin_spec wellFormed _).filled
end

structure Updated (view result : CCoinsView) (outpoint : COutPoint) (coin : Option Coin) : Prop where
  visible : result.visible = update view.visible outpoint coin
  valid : result.ValidCache
  depth : result.depth = view.depth
  cursor : result.cursor = view.cursor
  bestBlock : result.bestBlock = view.bestBlock

lemma Updated.after_filled {middle coin}
    (filled : Filled view middle) (upd : Updated middle result outpoint coin) :
    Updated view result outpoint coin where
  visible := by rw [upd.visible, filled.visible]
  valid := upd.valid
  depth := upd.depth.trans filled.depth
  cursor := upd.cursor.trans filled.cursor
  bestBlock := upd.bestBlock.trans filled.bestBlock

lemma Updated.insert (wellFormed : (cache layer base).WellFormed) (ok : EntryOk (base.visible outpoint) entry) :
    Updated (.cache layer base) (.cache { layer with cacheCoins := layer.cacheCoins.insert outpoint entry } base)
      outpoint entry.coin.unspent where
  visible := visible_insert ..
  valid := ⟨trivial, wellFormed_insert wellFormed ok⟩
  depth := rfl
  cursor := rfl
  bestBlock := by simp only [bestBlock_cache]

lemma Updated.erase (outpoint) (wellFormed : (cache layer base).WellFormed) :
    Updated (.cache layer base) (.cache { layer with cacheCoins := layer.cacheCoins.erase outpoint } base)
      outpoint (base.visible outpoint) where
  visible := visible_erase ..
  valid := ⟨trivial, ⟨wellFormed.1, AssocMap.forall_erase _ wellFormed.2⟩⟩
  depth := rfl
  cursor := rfl
  bestBlock := by simp only [bestBlock_cache]

lemma spendCoin_cases (layer base outpoint) :
    (∃ filled, (cache layer base).getCoin outpoint = (none, filled) ∧
      (cache layer base).spendCoin outpoint = (coinEmpty, filled)) ∨
    ∃ layer' base' entry,
      (cache layer base).getCoin outpoint = (some entry.coin, .cache layer' base') ∧
      layer'.cacheCoins.lookup outpoint = some entry ∧
      (entry.fresh = true ∧ (cache layer base).spendCoin outpoint =
          (entry.coin, .cache { layer' with cacheCoins := layer'.cacheCoins.erase outpoint } base') ∨
        entry.fresh = false ∧ (cache layer base).spendCoin outpoint =
          (entry.coin, .cache { layer' with cacheCoins := layer'.cacheCoins.insert outpoint (prunedEntry entry) } base')) := by
  cases reads : (cache _ _).getCoin _ with
  | mk answer filled =>
    cases answer with
    | none => exact .inl ⟨_, rfl, by simp only [spendCoin, reads]⟩
    | some coin =>
      obtain ⟨layer', base', entry, rfl, held, rfl⟩ := getCoin_entry reads
      refine .inr ⟨_, _, _, rfl, held, ?_⟩
      cases fresh : entry.fresh with
      | true => exact .inl ⟨rfl, by simp only [spendCoin, reads, held, fresh, if_true]⟩
      | false => exact .inr ⟨rfl, by simp only [spendCoin, reads, held, fresh, Bool.false_eq_true, if_false]⟩

section
variable (valid : view.ValidCache) (outpoint : COutPoint)
include valid

lemma spendCoin_snd : Updated view (view.spendCoin outpoint).2 outpoint none := by
  obtain ⟨layer, base, rfl⟩ := valid.exists_cache
  have filled := (getCoin_spec valid.wellFormed outpoint).filled
  rcases spendCoin_cases _ _ _ with
    ⟨result, reads, spends⟩ | ⟨layer', base', entry, reads, held, ⟨fresh, spends⟩ | ⟨fresh, spends⟩⟩
  · have absent := getCoin_none valid.wellFormed reads
    rw [reads] at filled
    rw [spends]
    refine ⟨?_, filled.valid valid, filled.depth, filled.cursor, filled.bestBlock⟩
    rw [← absent, update_eq_self]
    exact filled.visible
  · -- A FRESH entry is erased outright, which is right because nothing below it shows a coin.
    rw [reads] at filled
    have ok := filled.wellFormed.2 _ _ held
    rw [spends, ← ok.fresh fresh]
    exact .after_filled filled (.erase _ filled.wellFormed)
  · rw [reads] at filled
    rw [spends]
    exact .after_filled filled
      (.insert filled.wellFormed ⟨by simp [prunedEntry, fresh], by simp [prunedEntry], fun _ => rfl⟩)

lemma spendCoin_fst : (view.spendCoin outpoint).1 = (view.visible outpoint).getD coinEmpty := by
  obtain ⟨layer, base, rfl⟩ := valid.exists_cache
  rw [← accessCoin_fst valid.wellFormed, accessCoin]
  rcases spendCoin_cases _ _ _ with
    ⟨result, reads, spends⟩ | ⟨layer', base', entry, reads, held, ⟨fresh, spends⟩ | ⟨fresh, spends⟩⟩
  · rw [spends, reads]
    rfl
  · rw [spends, reads]
    rfl
  · rw [spends, reads]
    rfl
end

variable {overwrite : Bool}
lemma EntryOk.added {below previous}
    (live : coin.isSpent = false) (held : ∀ entry, previous = some entry → EntryOk below entry)
    (free : overwrite = false → previous.elim below (fun entry => entry.coin.unspent) = none) :
    EntryOk below (addedEntry previous coin overwrite) where
  fresh := by
    intro fresh
    cases previous with
    | none =>
      simp only [addedEntry, Option.getD_none, Bool.not_false, Bool.and_true, Bool.false_or,
        Bool.not_eq_eq_eq_not, Bool.not_true] at fresh
      exact free fresh
    | some entry =>
      have ok := held _ rfl
      simp only [addedEntry, Option.getD_some, Bool.or_eq_true, Bool.and_eq_true,
        Bool.not_eq_eq_eq_not, Bool.not_true] at fresh
      rcases fresh with fresh | ⟨keep, clean⟩
      · exact ok.fresh fresh
      · rw [← ok.clean clean]
        exact free keep
  clean := by simp [addedEntry]
  pruned := by
    intro spent
    simp only [addedEntry] at spent
    rw [live] at spent
    cases spent

lemma addCoin_spec (valid : view.ValidCache)
    (overwrite : Bool) (live : coin.isSpent = false) (spendable : isUnspendable coin.out.scriptPubKey = false)
    (free : overwrite = false → view.visible outpoint = none) :
    ∃ result, view.addCoin outpoint coin overwrite = .ok result ∧ Updated view result outpoint (some coin) := by
  obtain ⟨layer, base, rfl⟩ := valid.exists_cache
  have shown : overwrite = false →
      (layer.cacheCoins.lookup outpoint).elim (base.visible outpoint) (fun entry => entry.coin.unspent) = none := by
    intro keep
    have hidden := free keep
    rw [visible_cache] at hidden
    cases held : layer.cacheCoins.lookup _ <;> simpa [held] using hidden
  have passes : (!overwrite && (layer.cacheCoins.lookup outpoint).any (fun entry => !entry.coin.isSpent)) = false := by
    cases overwrite with
    | true => rfl
    | false =>
      have hidden := shown rfl
      cases held : layer.cacheCoins.lookup _ with
      | none => rfl
      | some entry =>
        simp only [held, Option.elim_some, unspent] at hidden
        cases spent : entry.coin.isSpent with
        | true => simp [spent]
        | false => simp [spent] at hidden
  have ok : EntryOk (base.visible outpoint) (addedEntry (layer.cacheCoins.lookup outpoint) coin overwrite) :=
    .added live (fun entry held => valid.wellFormed.2 _ _ held) shown
  have upd := Updated.insert valid.wellFormed ok
  rw [show (addedEntry ..).coin.unspent = some _ from
    unspent_of_unspent live] at upd
  refine ⟨_, ?_, upd⟩
  simp [addCoin, live, spendable, passes]

lemma addCoin_unspendable (view : CCoinsView) (outpoint) (overwrite)
    (live : coin.isSpent = false) (dead : isUnspendable coin.out.scriptPubKey = true) :
    view.addCoin outpoint coin overwrite = .ok view := by simp [addCoin, live, dead]

lemma addCoin_cases (adds : view.addCoin outpoint coin overwrite = .ok result) : coin.isSpent = false ∧
      (isUnspendable coin.out.scriptPubKey = true ∧ result = view ∨
        isUnspendable coin.out.scriptPubKey = false ∧ ∃ layer base, view = .cache layer base ∧
          (overwrite = false → ∀ entry, layer.cacheCoins.lookup outpoint = some entry → entry.coin.isSpent = true) ∧
          result = .cache { layer with
            cacheCoins := layer.cacheCoins.insert outpoint (addedEntry (layer.cacheCoins.lookup outpoint) coin overwrite) }
            base) := by
  unfold addCoin at adds
  split at adds
  · cases adds
  · grind

lemma addCoin_skips
    (dead : isUnspendable coin.out.scriptPubKey = true) (adds : view.addCoin outpoint coin overwrite = .ok result) :
    result = view := by
  obtain ⟨-, ⟨-, same⟩ | ⟨live, -⟩⟩ := addCoin_cases adds
  · exact same
  · grind

def Uncovered (view : CCoinsView) (outpoint : COutPoint) : Prop :=
  match view with
  | .db _ => True
  | .cache layer base => layer.cacheCoins.lookup outpoint = none → base.visible outpoint = none

lemma uncovered_of_hidden (hidden : view.visible outpoint = none) : view.Uncovered outpoint := by
  cases view with
  | db database => exact trivial
  | cache layer base =>
    intro miss
    simpa only [visible_cache, miss] using hidden

variable {other : COutPoint}
lemma uncovered_insert (uncovered : (cache layer base).Uncovered other) {hashBlock} :
    (cache ⟨hashBlock, layer.cacheCoins.insert outpoint entry⟩ base).Uncovered other := by
  intro miss
  by_cases same : other = outpoint
  · grind [lookup_insert]
  · rw [lookup_insert_ne same] at miss
    exact uncovered miss

section
variable (wellFormed : view.WellFormed) (outpoint : COutPoint) (uncovered : view.Uncovered other)
include wellFormed uncovered

lemma getCoin_uncovered : (view.getCoin outpoint).2.Uncovered other := by
  cases view with
  | db database => exact trivial
  | cache layer base =>
    have shown := (getCoin_spec wellFormed.1 outpoint).filled.visible
    have under : ∀ filled, filled.visible = base.visible → (cache layer filled).Uncovered other := by
      intro filled same miss
      rw [same]
      exact uncovered miss
    rcases getCoin_cases layer base outpoint with
      ⟨entry, held, reads⟩ | ⟨miss, ⟨filled, fetched, reads⟩ | ⟨coin, filled, fetched, reads⟩⟩
    · grind
    · rw [fetched] at shown
      rw [reads]
      exact under _ shown
    · rw [fetched] at shown
      rw [reads]
      exact uncovered_insert (under _ shown)

lemma haveCoin_uncovered : (view.haveCoin outpoint).2.Uncovered other := by
  cases view with
  | db database => exact trivial
  | cache layer base => exact getCoin_uncovered wellFormed _ uncovered
end

lemma spendCoin_uncovered (valid : view.ValidCache) (outpoint : COutPoint)
    (uncovered : view.Uncovered other) : (view.spendCoin outpoint).2.Uncovered other := by
  obtain ⟨layer, base, rfl⟩ := valid.exists_cache
  have filled := (getCoin_spec valid.wellFormed outpoint).filled
  have kept := getCoin_uncovered valid.wellFormed outpoint uncovered
  rcases spendCoin_cases layer base outpoint with
    ⟨result, reads, spends⟩ | ⟨layer', base', entry, reads, held, ⟨fresh, spends⟩ | ⟨fresh, spends⟩⟩
  · grind
  · rw [reads] at filled kept
    rw [spends]
    intro miss
    by_cases same : other = outpoint
    · subst same
      exact (filled.wellFormed.2 _ _ held).fresh fresh
    · rw [lookup_erase_ne same] at miss
      exact kept miss
  · rw [reads] at kept
    rw [spends]
    exact uncovered_insert kept

lemma addCoin_uncovered (adds : view.addCoin outpoint coin overwrite = .ok result) (uncovered : view.Uncovered other) :
    result.Uncovered other := by
  obtain ⟨-, ⟨-, rfl⟩ | ⟨-, layer, base, rfl, -, rfl⟩⟩ := addCoin_cases adds
  · exact uncovered
  · exact uncovered_insert uncovered

lemma addCoin_ok (valid : view.ValidCache) (spendable : isUnspendable coin.out.scriptPubKey = false)
    (uncovered : view.Uncovered outpoint)
    (adds : view.addCoin outpoint coin false = .ok result) :
    coin.isSpent = false ∧ view.visible outpoint = none ∧ Updated view result outpoint (some coin) := by
  obtain ⟨live, ⟨dead, -⟩ | ⟨-, layer, base, rfl, free, -⟩⟩ := addCoin_cases adds
  · grind
  · have hidden : (cache layer base).visible outpoint = none := by
      cases held : layer.cacheCoins.lookup outpoint with
      | none => simpa [visible_missing _ held] using uncovered held
      | some entry => simpa [visible_held _ held] using unspent_of_spent (free rfl _ held)
    obtain ⟨result', adds', upd⟩ := addCoin_spec valid _ live spendable fun _ => hidden
    rw [adds] at adds'
    cases adds'
    exact ⟨live, hidden, upd⟩

lemma uncache_filled (wellFormed : view.WellFormed) (outpoint) : Filled view (view.uncache outpoint) := by
  cases view with
  | db database => exact .refl wellFormed
  | cache layer base =>
    cases held : layer.cacheCoins.lookup outpoint with
    | none => simpa [uncache, held] using Filled.refl wellFormed
    | some entry =>
      cases modified : entry.dirty || entry.fresh with
      | true => simpa [uncache, held, modified] using Filled.refl wellFormed
      | false =>
        simp only [Bool.or_eq_false_iff] at modified
        have ok := wellFormed.2 _ _ held
        have erased := Updated.erase outpoint wellFormed
        have shown : (cache layer base).visible outpoint = base.visible outpoint := by
          rw [visible_held _ held]
          exact ok.clean modified.1
        simp only [uncache, held, modified.1, modified.2, Bool.or_self, Bool.false_eq_true, if_false]
        refine ⟨?_, erased.valid.wellFormed, rfl, rfl, erased.bestBlock⟩
        rw [erased.visible, ← shown, update_eq_self]

lemma setBestBlock_valid (valid : view.ValidCache) (hash : UInt256) : (view.setBestBlock hash).ValidCache := by
  obtain ⟨layer, base, rfl⟩ := valid.exists_cache
  exact ⟨trivial, valid.wellFormed⟩

section
variable (view) (hash : UInt256)
include view hash

lemma setBestBlock_visible : (view.setBestBlock hash).visible = view.visible := by
  cases view <;> rfl

lemma setBestBlock_depth : (view.setBestBlock hash).depth = view.depth := by
  cases view <;> rfl

lemma setBestBlock_cursor : (view.setBestBlock hash).cursor = view.cursor := by
  cases view <;> rfl
end

lemma setBestBlock_bestBlock (valid : view.ValidCache) {hash : UInt256} (named : hash ≠ 0) :
    (view.setBestBlock hash).bestBlock = hash := by
  obtain ⟨layer, base, rfl⟩ := valid.exists_cache
  simp only [setBestBlock, bestBlock_cache, if_neg named]

lemma getBestBlock_filled (wellFormed : view.WellFormed) : Filled view view.getBestBlock.2 := by
  induction view with
  | db database => exact .refl wellFormed
  | cache layer base ih =>
    have below := ih wellFormed.1
    by_cases own : layer.hashBlock = 0
    · have under := Filled.under _ below wellFormed
      have reads : (cache layer base).getBestBlock.2 = .cache { layer with hashBlock := base.bestBlock } base.getBestBlock.2 := by
        rw [getBestBlock, if_pos own]
        rfl
      rw [reads]
      refine ⟨under.visible, under.wellFormed, under.depth, under.cursor, ?_⟩
      rw [bestBlock_cache, bestBlock_cache, below.bestBlock]
      split
      · rfl
      · rfl
    · have reads : (cache layer base).getBestBlock.2 = .cache layer base := by rw [getBestBlock, if_neg own]
      rw [reads]
      exact .refl wellFormed

end CCoinsView

end Peony
