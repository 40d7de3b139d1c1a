import Peony.Coins.Invariant

namespace Peony.CCoinsView
open Function

abbrev ChildEntries := List (Σ _ : COutPoint, CCoinsCacheEntry)

def pushed (entries : ChildEntries) (shown : COutPoint → Option Coin) (outpoint : COutPoint) : Option Coin :=
  match entries.dlookup outpoint with
  | some child => child.coin.unspent
  | none => shown outpoint

section
variable (outpoint : COutPoint) (child : CCoinsCacheEntry) (entries : ChildEntries) (absent : entries.dlookup outpoint = none)
include outpoint child entries absent

variable (shown : COutPoint → Option Coin)
include shown

lemma pushed_cons : pushed (⟨outpoint, child⟩ :: entries) shown = pushed entries (update shown outpoint child.coin.unspent) := by
  funext other
  by_cases same : other = outpoint
  · subst same
    simp [pushed, absent]
  · have skip : List.dlookup other (⟨outpoint, child⟩ :: entries) = entries.dlookup other :=
      List.dlookup_cons_ne entries _ same
    simp only [pushed, skip, update_of_ne same]

lemma pushed_cons_clean (same : child.coin.unspent = shown outpoint) :
    pushed (⟨outpoint, child⟩ :: entries) shown = pushed entries shown := by rw [pushed_cons _ _ _ absent, same, update_eq_self]
end

variable {child : CCoinsCacheEntry} {outpoint : COutPoint}
variable {base : CCoinsView}
lemma mergeEntry_spec {layer} (wf : (cache layer base).WellFormed)
    (ok : EntryOk ((cache layer base).visible outpoint) child) :
    ∃ merged, mergeEntry child (layer.cacheCoins.lookup outpoint) = .ok merged ∧
      Updated (.cache layer base) (.cache { layer with cacheCoins := setEntry layer.cacheCoins outpoint merged } base)
        outpoint child.coin.unspent := by
  cases held : layer.cacheCoins.lookup _ with
  | none =>
    rw [visible_missing _ held] at ok
    cases skip : child.fresh && child.coin.isSpent with
    | true =>
      -- FRESH and spent: the coin came and went in the child, and the parent never knew it.
      refine ⟨none, by simp [mergeEntry, skip], ?_⟩
      simp only [Bool.and_eq_true] at skip
      rw [Coin.unspent_of_spent skip.2, ← ok.fresh skip.1]
      exact .erase _ wf
    | false =>
      refine ⟨some ⟨child.coin, true, child.fresh⟩, by simp [mergeEntry, skip], ?_⟩
      have stored : EntryOk (base.visible outpoint) ⟨child.coin, true, child.fresh⟩ := ⟨ok.fresh, by simp, ok.pruned⟩
      exact .insert wf stored
  | some entry =>
    rw [visible_held _ held] at ok
    have ours := wf.2 _ _ held
    -- The FRESH check cannot throw: FRESH promises that the parent shows no coin here.
    have applied : (child.fresh && !entry.coin.isSpent) = false := by
      cases fresh : child.fresh with
      | false => rfl
      | true =>
        have hidden := ok.fresh fresh
        cases spent : entry.coin.isSpent with
        | true => rfl
        | false => simp [Coin.unspent, spent] at hidden
    cases drop : entry.fresh && child.coin.isSpent with
    | true =>
      refine ⟨none, by simp [mergeEntry, applied, drop], ?_⟩
      simp only [Bool.and_eq_true] at drop
      rw [Coin.unspent_of_spent drop.2, ← ours.fresh drop.1]
      exact .erase _ wf
    | false =>
      refine ⟨some { entry with coin := child.coin, dirty := true }, by simp [mergeEntry, applied, drop], ?_⟩
      have stored : EntryOk (base.visible outpoint) { entry with coin := child.coin, dirty := true } :=
        ⟨ours.fresh, by simp, ok.pruned⟩
      exact .insert wf stored

lemma absent_of_nodupKeys {entries : ChildEntries} (nodup : List.NodupKeys (⟨outpoint, child⟩ :: entries)) :
    List.NodupKeys entries ∧ entries.dlookup outpoint = none := by
  have split := List.nodupKeys_cons.mp nodup
  exact ⟨split.2, List.dlookup_eq_none.mpr split.1⟩

def EntriesOk (shown : COutPoint → Option Coin) (entries : ChildEntries) : Prop :=
  ∀ outpoint child, entries.dlookup outpoint = some child → EntryOk (shown outpoint) child

lemma EntriesOk.head {shown entries} (ok : EntriesOk shown (⟨outpoint, child⟩ :: entries)) : EntryOk (shown outpoint) child :=
  ok _ _ (by simp)

lemma EntriesOk.tail {shown shown' entries} (ok : EntriesOk shown (⟨outpoint, child⟩ :: entries))
    (absent : entries.dlookup outpoint = none) (same : ∀ other, other ≠ outpoint → shown' other = shown other) :
    EntriesOk shown' entries := by
  intro other entry found
  have different : other ≠ outpoint := by grind
  rw [same _ different]
  exact ok _ _ (by grind)

section
variable (hash : UInt256) (entries : ChildEntries) (nodup : entries.NodupKeys)
include hash entries nodup

lemma mergeEntries_spec {base : CCoinsView} (cacheCoins) (wf : (cache ⟨hash, cacheCoins⟩ base).WellFormed)
    (ok : EntriesOk (cache ⟨hash, cacheCoins⟩ base).visible entries) :
    ∃ merged, mergeEntries cacheCoins entries = .ok merged ∧
      (cache ⟨hash, merged⟩ base).WellFormed ∧
      (cache ⟨hash, merged⟩ base).visible =
        pushed entries (cache ⟨hash, cacheCoins⟩ base).visible := by
  induction entries generalizing cacheCoins with
  | nil => exact ⟨_, rfl, wf, rfl⟩
  | cons head entries ih =>
    obtain ⟨outpoint, child⟩ := head
    obtain ⟨rest, absent⟩ := absent_of_nodupKeys nodup
    cases dirty : child.dirty with
    | false =>
      obtain ⟨merged, runs, mergedWF, shown⟩ := ih rest _ wf (ok.tail absent fun _ _ => rfl)
      refine ⟨_, by simp [mergeEntries, dirty, runs], mergedWF, ?_⟩
      rw [shown, pushed_cons_clean _ _ _ absent _ (ok.head.clean dirty)]
    | true =>
      obtain ⟨entry, merges, upd⟩ := mergeEntry_spec wf ok.head
      -- The keys are distinct, so the entries still to come keep what they promise about the parent.
      have others : EntriesOk (cache ⟨hash, setEntry cacheCoins outpoint entry⟩ base).visible entries := by
        apply ok.tail absent
        intro other different
        rw [upd.visible, update_of_ne different]
      obtain ⟨merged, runs, mergedWF, shown⟩ := ih rest _ upd.valid.wellFormed others
      refine ⟨_, by simp [mergeEntries, dirty, merges, runs], mergedWF, ?_⟩
      rw [shown, upd.visible, pushed_cons _ _ _ absent]

lemma writeEntries_spec (coins : CoinMap) (wf : (db ⟨hash, coins⟩).WellFormed)
    (ok : EntriesOk (db ⟨hash, coins⟩).visible entries) :
    (db ⟨hash, writeEntries coins entries⟩).WellFormed ∧
      (db ⟨hash, writeEntries coins entries⟩).visible =
        pushed entries (db ⟨hash, coins⟩).visible := by
  induction entries generalizing coins with
  | nil => exact ⟨wf, rfl⟩
  | cons head entries ih =>
    obtain ⟨outpoint, child⟩ := head
    obtain ⟨rest, absent⟩ := absent_of_nodupKeys nodup
    cases dirty : child.dirty with
    | false =>
      have tail := ih rest _ wf (ok.tail absent fun _ _ => rfl)
      have writes : writeEntries coins (⟨outpoint, child⟩ :: entries) = writeEntries coins entries := by simp [writeEntries, dirty]
      rw [writes, pushed_cons_clean _ _ _ absent _ (ok.head.clean dirty)]
      exact tail
    | true =>
      let wrote := if child.coin.isSpent then coins.erase outpoint else coins.insert outpoint child.coin
      have writes : writeEntries coins (⟨outpoint, child⟩ :: entries) = writeEntries wrote entries := by
        simp [writeEntries, dirty, wrote]
      have shown : (db ⟨hash, wrote⟩).visible = update (db ⟨hash, coins⟩).visible outpoint child.coin.unspent := by
        funext other
        by_cases same : other = outpoint
        · subst same
          cases spent : child.coin.isSpent <;> simp [visible, wrote, spent, Coin.unspent]
        · rw [update_of_ne same]
          cases spent : child.coin.isSpent <;>
            simp [visible, wrote, spent, AList.lookup_erase_ne same, AList.lookup_insert_ne same]
      have writtenWF : (db ⟨hash, wrote⟩).WellFormed := by
        intro other coin found
        have found' : (db ⟨hash, wrote⟩).visible other = some coin := found
        rw [shown] at found'
        by_cases same : other = outpoint
        · subst same
          rw [update_self] at found'
          exact Coin.isSpent_of_unspent_eq found'
        · rw [update_of_ne same] at found'
          exact wf _ _ found'
      have others : EntriesOk (db ⟨hash, wrote⟩).visible entries := by
        apply ok.tail absent
        intro other different
        rw [shown, update_of_ne different]
      rw [writes, pushed_cons _ _ _ absent, ← shown]
      exact ih rest _ writtenWF others
end

lemma batchWrite_spec (wf : base.WellFormed) {mapCoins}
    (ok : EntriesOk base.visible mapCoins.entries) (hashBlock) :
    ∃ wrote, base.batchWrite mapCoins hashBlock = .ok wrote ∧ wrote.WellFormed ∧
      wrote.visible = pushed mapCoins.entries base.visible ∧ wrote.depth = base.depth := by
  cases base with
  | db database =>
    have spec := writeEntries_spec _ _ mapCoins.nodupKeys _
      wf ok
    exact ⟨_, rfl, spec.1, spec.2, rfl⟩
  | cache layer base =>
    obtain ⟨merged, merges, mergedWF, shown⟩ :=
      mergeEntries_spec _ _ mapCoins.nodupKeys _ wf ok
    exact ⟨.cache ⟨hashBlock, _⟩ _, by simp [batchWrite, merges], mergedWF, shown, rfl⟩

lemma flush_spec {layer} (wf : (cache layer base).WellFormed) :
    ∃ wrote, (cache layer base).flush = .ok (.cache { layer with cacheCoins := ∅ } wrote) ∧
      base.batchWrite layer.cacheCoins layer.hashBlock = .ok wrote ∧
      wrote.WellFormed ∧ wrote.visible = (cache layer base).visible ∧
      wrote.depth = base.depth := by
  obtain ⟨wrote, writes, writtenWF, shown, depth⟩ :=
    batchWrite_spec wf.1 (fun outpoint entry found => wf.2 _ _ found)
      _
  exact ⟨_, by simp [flush, writes], writes, writtenWF, shown, depth⟩

lemma wellFormed_empty (wf : base.WellFormed) (hashBlock) : (cache ⟨hashBlock, ∅⟩ base).WellFormed :=
  ⟨wf, by simp⟩

lemma visible_empty (base hashBlock) : (cache ⟨hashBlock, ∅⟩ base).visible = base.visible := by rfl

lemma newCache_valid {view : CCoinsView} (wf : view.WellFormed) : view.newCache.ValidCache :=
  ⟨trivial, wellFormed_empty wf 0⟩

lemma newCache_visible (view : CCoinsView) : view.newCache.visible = view.visible := visible_empty _ 0

end Peony.CCoinsView
