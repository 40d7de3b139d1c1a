import Peony.Coins.Invariant

namespace Peony
open Function AssocMap

namespace CCoinsView

def coinMap : CCoinsView → CoinMap
  | .db database => database.coins
  | .cache layer base => overlay (fun entry : CCoinsCacheEntry => entry.coin.unspent) layer.cacheCoins base.coinMap

lemma lookup_coinMap (view : CCoinsView) (outpoint) : view.coinMap.lookup outpoint = view.visible outpoint := by
  induction view with
  | db database => rfl
  | cache layer base ih =>
    rw [coinMap, lookup_overlay, visible_cache, ih]
    cases layer.cacheCoins.lookup _ <;> rfl

def coinTotal (weight : Coin → Int) (view : CCoinsView) : Int := total (fun _ coin => weight coin) view.coinMap

variable {weight : Coin → Int} {view : CCoinsView}
variable {result : CCoinsView}
section
variable (weight : Coin → Int)
lemma coinTotal_congr (same : result.visible = view.visible) : result.coinTotal weight = view.coinTotal weight := by
  apply total_congr
  intro outpoint
  rw [lookup_coinMap, lookup_coinMap, same]

lemma coinTotal_update {outpoint coin} (changed : result.visible = update view.visible outpoint coin) :
    result.coinTotal weight = view.coinTotal weight - weigh weight (view.visible outpoint) + weigh weight coin := by
  rw [← lookup_coinMap]
  apply total_of_update
  intro other
  rw [lookup_coinMap, lookup_coinMap, changed, update_apply]

/-- A cache in which a FRESH entry may still hide an unspent coin of its parent. -/
def Loose : CCoinsView → Prop
  | .db _ => False
  | .cache layer base => base.WellFormed ∧ ∀ outpoint entry, layer.cacheCoins.lookup outpoint = some entry →
      (entry.dirty = false → entry.coin.unspent = base.visible outpoint) ∧
      (entry.coin.isSpent = true → entry.coin = coinEmpty)

lemma ValidCache.loose (valid : view.ValidCache) : view.Loose := by
  cases view with
  | db database => exact valid.isCache
  | cache layer base =>
    refine ⟨valid.wellFormed.1, ?_⟩
    intro outpoint entry held
    have ok := valid.wellFormed.2 _ _ held
    exact ⟨ok.clean, ok.pruned⟩

def parentVisible : CCoinsView → FlatMap
  | .db _ => fun _ => none
  | .cache _ base => base.visible

/-- The coin of the parent under a FRESH entry: it comes back when the entry is spent. -/
def hiddenUnder (parent : FlatMap) (outpoint : COutPoint) (entry : CCoinsCacheEntry) : Int :=
  if entry.fresh then weigh weight (parent outpoint) else 0

def shadow : CCoinsView → Int
  | .db _ => 0
  | .cache layer base => total (hiddenUnder weight base.visible) layer.cacheCoins

def potential (view : CCoinsView) : Int := view.coinTotal weight + view.shadow weight
end

lemma potential_of_valid (valid : view.ValidCache) : view.potential weight = view.coinTotal weight := by
  obtain ⟨layer, base, rfl⟩ := valid.exists_cache
  have none' : (cache layer base).shadow weight = 0 := by
    apply total_eq_zero
    intro outpoint entry held
    unfold hiddenUnder
    split
    · rename_i fresh
      rw [(valid.wellFormed.2 _ _ held).fresh fresh]
      rfl
    · rfl
  rw [potential, none', add_zero]

lemma coinTotal_le_potential (nonneg : ∀ outpoint coin, view.parentVisible outpoint = some coin → 0 ≤ weight coin) :
    view.coinTotal weight ≤ view.potential weight := by
  have hidden : 0 ≤ view.shadow weight := by
    cases view with
    | db database => exact le_refl 0
    | cache layer base =>
      apply total_nonneg
      intro outpoint entry held
      unfold hiddenUnder
      split
      · cases shown : base.visible _ with
        | none => exact le_refl 0
        | some coin => exact nonneg _ _ shown
      · exact le_refl 0
  unfold potential
  omega

structure Moved (weight : Coin → Int) (view result : CCoinsView) (amount : Int) : Prop where
  loose : result.Loose
  moves : result.potential weight = view.potential weight + amount
  parent : result.parentVisible = view.parentVisible

lemma Moved.refl (loose : view.Loose) : Moved weight view view 0 :=
  ⟨loose, (add_zero _).symm, rfl⟩

lemma Moved.trans {middle result amt amt'} (first : Moved weight view middle amt)
    (snd : Moved weight middle result amt') : Moved weight view result (amt + amt') where
  loose := snd.loose
  moves := by rw [snd.moves, first.moves, add_assoc]
  parent := snd.parent.trans first.parent

lemma Moved.after_fill {middle result amt} (first : Moved weight view middle 0)
    (snd : Moved weight middle result amt) : Moved weight view result amt := by
  have both := first.trans snd
  rwa [zero_add] at both

section
variable (layer : CCoinsViewCache) (base : CCoinsView) (outpoint : COutPoint)
include layer base outpoint

lemma shadow_insert (entry hashBlock) :
    (cache ⟨hashBlock, layer.cacheCoins.insert outpoint entry⟩ base).shadow weight =
      (cache layer base).shadow weight -
        weigh (hiddenUnder weight base.visible outpoint) (layer.cacheCoins.lookup outpoint) +
        hiddenUnder weight base.visible outpoint entry := by
  exact total_of_update _ fun other => lookup_insert_ite ..

lemma shadow_erase (hashBlock) : (cache ⟨hashBlock, layer.cacheCoins.erase outpoint⟩ base).shadow weight =
      (cache layer base).shadow weight -
        weigh (hiddenUnder weight base.visible outpoint) (layer.cacheCoins.lookup outpoint) := by
  exact total_erase ..
end

variable {layer : CCoinsViewCache}
lemma Moved.under {base full} (loose : (cache layer base).Loose)
    (below : Filled base full) : Moved weight (.cache layer base) (.cache layer full) 0 where
  loose := by
    refine ⟨below.wellFormed, ?_⟩
    rw [below.visible]
    exact loose.2
  moves := by
    have shown := coinTotal_congr weight (visible_base layer below.visible)
    simp only [potential, shown, shadow, below.visible, add_zero]
  parent := below.visible

variable {base : CCoinsView}
lemma Moved.fetch {outpoint coin}
    (loose : (cache layer base).Loose) (miss : layer.cacheCoins.lookup outpoint = none)
    (same : coin.unspent = base.visible outpoint) (pruned : coin.isSpent = true → coin = coinEmpty) :
    Moved weight (.cache layer base)
      (.cache { layer with cacheCoins := layer.cacheCoins.insert outpoint (fetchedEntry coin) } base) 0 where
  loose := ⟨loose.1, forall_insert loose.2 ⟨fun _ => same, pruned⟩⟩
  moves := by
    have hides : hiddenUnder weight base.visible outpoint (fetchedEntry coin) = 0 := by
      unfold hiddenUnder
      split
      · rename_i fresh
        rw [← same, Coin.unspent_of_spent fresh]
        rfl
      · rfl
    rw [potential, potential, coinTotal_congr _ (visible_fetch miss same), shadow_insert, miss, hides]
    simp [weigh]
  parent := rfl

structure LooseRead (weight : Coin → Int) (view : CCoinsView) (outpoint : COutPoint) (result : Option Coin × CCoinsView) :
    Prop where
  shown : result.1.bind Coin.unspent = view.visible outpoint
  pruned : ∀ coin, result.1 = some coin → coin.isSpent = true → coin = coinEmpty
  visible : result.2.visible = view.visible
  moved : Moved weight view result.2 0

lemma getCoin_loose (loose : view.Loose) (outpoint) : LooseRead weight view outpoint (view.getCoin outpoint) := by
  cases view with
  | db database => exact loose.elim
  | cache layer base =>
    have below := getCoin_spec loose.1 outpoint
    rcases getCoin_cases _ _ _ with
      ⟨entry, held, reads⟩ | ⟨miss, ⟨full, fetched, reads⟩ | ⟨coin, full, fetched, reads⟩⟩
    · rw [reads]
      refine ⟨(visible_held _ held).symm, ?_, rfl, .refl loose⟩
      rintro coin ⟨⟩
      exact (loose.2 _ _ held).2
    · rw [fetched] at below
      rw [reads]
      exact ⟨below.shown.trans (visible_missing _ miss).symm, by simp, visible_base _ below.filled.visible,
        .under loose below.filled⟩
    · rw [fetched] at below
      have under : Moved weight _ _ 0 := Moved.under loose below.filled
      have same : coin.unspent = full.visible outpoint := by simpa [below.filled.visible] using below.shown
      have stored : Moved weight _ _ 0 := Moved.fetch under.loose miss same (below.pruned _ rfl)
      have own : (cache layer full).visible outpoint = (fetchedEntry coin).coin.unspent :=
        (visible_missing _ miss).trans same.symm
      rw [reads]
      refine ⟨below.shown.trans (visible_missing _ miss).symm, below.pruned, ?_, under.after_fill stored⟩
      rw [visible_insert, ← own, update_eq_self, visible_base _ below.filled.visible]

lemma accessCoin_loose (loose : view.Loose) (outpoint) :
    (view.accessCoin outpoint).1 = (view.visible outpoint).getD coinEmpty := by
  have spec : LooseRead (fun _ => 0) view outpoint _ := getCoin_loose loose _
  exact getD_of_shown spec.shown spec.pruned

lemma loose_insert (loose : (cache layer base).Loose) {outpoint entry} (dirty : entry.dirty = true)
    (pruned : entry.coin.isSpent = true → entry.coin = coinEmpty) {hashBlock} :
    (cache ⟨hashBlock, layer.cacheCoins.insert outpoint entry⟩ base).Loose :=
  ⟨loose.1, forall_insert loose.2 ⟨by simp [dirty], pruned⟩⟩

lemma spendCoin_loose (weight : Coin → Int) (loose : view.Loose) {outpoint coin}
    (shown : view.visible outpoint = some coin) :
    (view.spendCoin outpoint).1 = coin ∧ Moved weight view (view.spendCoin outpoint).2 (-weight coin) ∧
      ∀ other, other ≠ outpoint → (view.spendCoin outpoint).2.visible other = view.visible other := by
  cases view with
  | db database => exact loose.elim
  | cache layer base =>
    have read : LooseRead weight _ outpoint _ := getCoin_loose loose _
    rcases spendCoin_cases _ _ _ with ⟨result, reads, spends⟩ | ⟨layer', base', entry, reads, held, spends⟩
    · rw [reads] at read
      cases read.shown.trans shown
    · rw [reads] at read
      have own : (cache layer' base').visible outpoint = some coin := by rw [read.visible, shown]
      obtain rfl : entry.coin = coin := by
        rw [visible_held _ held, Coin.unspent] at own
        split at own
        · cases own
        · exact Option.some.inj own
      rcases spends with ⟨fresh, spends⟩ | ⟨fresh, spends⟩
      · -- the parent's coin under a FRESH entry moves from the shadow to the total
        have total := coinTotal_update weight (visible_erase layer' base' outpoint layer'.hashBlock)
        rw [own] at total
        rw [spends]
        refine ⟨rfl, read.moved.after_fill ⟨⟨read.moved.loose.1, forall_erase _ read.moved.loose.2⟩, ?_, rfl⟩, ?_⟩
        · rw [potential, potential, total, shadow_erase, held]
          simp only [weigh, hiddenUnder, fresh, if_true]
          omega
        · intro other different
          rw [visible_erase, update_of_ne different]
          exact congrFun read.visible _
      · have total := coinTotal_update weight (visible_insert layer' base' outpoint (prunedEntry entry) layer'.hashBlock)
        rw [own] at total
        rw [spends]
        refine ⟨rfl, read.moved.after_fill ⟨loose_insert read.moved.loose rfl (fun _ => rfl), ?_, rfl⟩, ?_⟩
        · rw [potential, potential, total, shadow_insert, held]
          simp only [prunedEntry, coinEmpty_unspent, weigh, hiddenUnder, fresh, Bool.false_eq_true, if_false]
          omega
        · intro other different
          rw [visible_insert, update_of_ne different]
          exact congrFun read.visible _

lemma addCoin_loose (loose : view.Loose) {outpoint coin}
    (spendable : isUnspendable coin.out.scriptPubKey = false) (adds : view.addCoin outpoint coin false = .ok result) :
    Moved weight view result (weight coin) := by
  obtain ⟨live, ⟨unspendable, -⟩ | ⟨-, layer, base, rfl, free, rfl⟩⟩ := addCoin_cases adds
  · grind
  · have total := coinTotal_update weight (visible_insert layer base outpoint
      (addedEntry (layer.cacheCoins.lookup outpoint) coin false) layer.hashBlock)
    refine ⟨loose_insert loose rfl (fun dead => ?_), ?_, rfl⟩
    · exact absurd (dead.symm.trans live) (by decide)
    · rw [potential, potential, total, shadow_insert, visible_cache]
      rw [show (addedEntry ..).coin.unspent = some _ from
        Coin.unspent_of_unspent live]
      cases held : layer.cacheCoins.lookup _ with
      | none =>
        simp only [weigh, hiddenUnder, addedEntry, Option.getD_none, Bool.not_false, Bool.and_self, Bool.or_true, if_true]
        omega
      | some entry =>
        have dead := free rfl _ held
        have clean := (loose.2 _ _ held).1
        simp only [Coin.unspent_of_spent dead, weigh, hiddenUnder, addedEntry, Option.getD_some, Bool.not_false,
          Bool.true_and] at clean ⊢
        cases fresh : entry.fresh with
        | true => grind
        | false =>
          cases dirty : entry.dirty with
          | true => grind
          | false =>
            -- a clean pruned entry hides nothing, so the new FRESH flag has no coin to cover
            grind

end CCoinsView

end Peony
