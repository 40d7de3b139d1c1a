import Mathlib.Algebra.BigOperators.Intervals
import Mathlib.Algebra.BigOperators.Ring.Finset
import Mathlib.Data.List.GetD
import Mathlib.Data.Nat.ModEq
import Peony.Library.Codec

namespace Codec
open List
variable {α β : Type} {reader : Reader α}
/-- What the reader takes off the input is what `write` writes for the value it returns. -/
def Canonical (reader : Reader α) (write : α → List UInt8) : Prop :=
  ∀ input a rest, reader.run input = some (a, rest) → input = write a ++ rest

variable {input : List UInt8} {rest : List UInt8}
lemma run_bind_eq_some {next} {b : β} (done : (reader >>= next).run input = some (b, rest)) :
    ∃ a middle, reader.run input = some (a, middle) ∧ (next a).run middle = some (b, rest) := by
  obtain ⟨⟨a, middle⟩, first, snd⟩ := Option.bind_eq_some_iff.mp done
  exact ⟨a, _, first, snd⟩

lemma run_pure_eq_some {a b} (done : (pure a : Reader α).run input = some (b, rest)) : a = b ∧ input = rest := by grind
lemma run_readByte_eq_some {byte} (done : readByte.run input = some (byte, rest)) : input = byte :: rest := by
  cases input with
  | nil => cases done
  | cons first rest =>
    cases done
    rfl

lemma fixed_cons (k high low) : fixed (k + 1) (low.toNat + 256 * high) = low :: fixed k high := by
  have small := low.toNat_lt
  rw [fixed, show (low.toNat + 256 * high) % 256 = low.toNat by omega, show (low.toNat + 256 * high) / 256 = high by omega,
    UInt8.ofNat_toNat]

lemma run_readFixed_eq_some {k n} (done : (readFixed k).run input = some (n, rest)) : input = fixed k n ++ rest ∧ n < 256 ^ k := by
  induction k generalizing input n with
  | zero =>
    obtain ⟨rfl, rfl⟩ := run_pure_eq_some done
    exact ⟨rfl, by decide⟩
  | succ k ih =>
    obtain ⟨low, middle, first, done⟩ := run_bind_eq_some done
    obtain ⟨high, last, snd, done⟩ := run_bind_eq_some done
    obtain ⟨rfl, rfl⟩ := run_pure_eq_some done
    obtain ⟨rfl, small⟩ := ih snd
    have byte := low.toNat_lt
    rw [run_readByte_eq_some first, fixed_cons]
    exact ⟨rfl, by omega⟩

lemma canonical_word {w} (whole : 8 * (w / 8) = w) : Canonical (readWord w) word := by
  intro input x rest done
  rw [readWord, ← bind_pure_comp] at done
  obtain ⟨n, middle, first, done⟩ := run_bind_eq_some done
  obtain ⟨rfl, rfl⟩ := run_pure_eq_some done
  obtain ⟨rfl, small⟩ := run_readFixed_eq_some first
  rw [word, BitVec.toNat_ofNat, Nat.mod_eq_of_lt]
  rwa [show 256 = 2 ^ 8 from rfl, ← pow_mul, whole] at small

def varIntNumber (a : List UInt8) : Nat :=
  (a.getD (a.length - 1) 0).toNat % 128 + ∑ i ∈ Finset.Ico 1 a.length, 128 ^ i * ((a.getD (a.length - i - 1) 0).toNat % 128 + 1)

def carried (init : List UInt8) : Nat := init.foldl (fun n group => n * 128 + group.toNat % 128 + 1) 0

variable (init : List UInt8)
lemma carried_append (group) : carried (init ++ [group]) = carried init * 128 + group.toNat % 128 + 1 := by
  rw [carried, foldl_append]
  rfl

lemma varIntNumber_append {init} (some_before : init ≠ []) (last) :
    varIntNumber (init ++ [last]) = (varIntNumber init + 1) * 128 + last.toNat % 128 := by
  obtain ⟨k, size⟩ : ∃ k, init.length = k + 1 := Nat.exists_eq_succ_of_ne_zero (by simpa using some_before)
  have pre : ∀ i < k + 1, (init ++ [last]).getD (k + 1 - i - 1) 0 = init.getD (k + 1 - i - 1) 0 := by
    intro i low
    exact getD_append _ _ _ _ (by omega)
  have final : (init ++ [last]).getD (k + 1) 0 = last := by
    rw [getD_append_right _ _ _ _ size.le, size, Nat.sub_self]
    rfl
  unfold varIntNumber
  simp only [length_append, length_singleton, size, Finset.sum_Ico_eq_sum_range, Nat.add_sub_cancel, final]
  -- the term of the group right before the last one has no partner in the other sum
  rw [Finset.sum_range_succ']
  have shifted : ∀ i ∈ Finset.range k, 128 ^ (1 + (i + 1)) * (((init ++ [last]).getD (k + 1 + 1 - (1 + (i + 1)) - 1) 0).toNat % 128 + 1) =
      128 * (128 ^ (1 + i) * ((init.getD (k + 1 - (1 + i) - 1) 0).toNat % 128 + 1)) := by
    intro i mem
    have low := Finset.mem_range.mp mem
    rw [show k + 1 + 1 - (1 + (i + 1)) - 1 = k + 1 - (1 + i) - 1 by omega, pre _ (by omega)]
    ring
  have nearest := pre 0 (by omega)
  rw [Nat.sub_zero, Nat.add_sub_cancel] at nearest
  rw [Finset.sum_congr rfl shifted, ← Finset.mul_sum, show k + 1 + 1 - (1 + 0) - 1 = k by omega, nearest]
  ring

lemma varIntNumber_eq (last) : varIntNumber (init ++ [last]) = carried init * 128 + last.toNat % 128 := by
  induction init using List.reverseRecOn generalizing last with
  | nil => simp [varIntNumber, carried]
  | append_singleton init group ih =>
    rw [varIntNumber_append (by simp), ih, carried_append]

lemma foldl_groups_modEq {m x y} (same : x ≡ y [MOD m]) :
    init.foldl (fun n group => n * 128 + group.toNat % 128 + 1) x ≡
      init.foldl (fun n group => n * 128 + group.toNat % 128 + 1) y [MOD m] := by
  induction init generalizing x y with
  | nil => exact same
  | cons group init ih => exact ih (((same.mul_right _).add_right _).add_right 1)

lemma readVarIntFrom_eq_some {w n m} (done : readVarIntFrom w n input = some (m, rest)) :
    ∃ init last, input = init ++ last :: rest ∧ (∀ group ∈ init, 128 ≤ group.toNat) ∧ last.toNat < 128 ∧
      m = (init.foldl (fun n group => n * 128 + group.toNat % 128 + 1) n * 128 + last.toNat % 128) % 2 ^ w := by
  induction input generalizing n with
  | nil => cases done
  | cons group input ih =>
    unfold readVarIntFrom at done
    split at done
    · next more =>
      obtain ⟨init, last, rfl, marked, unmarked, value⟩ := ih done
      -- the modulus may be taken once, at the end
      have reduced : ((n * 128 + group.toNat % 128) % 2 ^ w + 1) % 2 ^ w ≡ n * 128 + group.toNat % 128 + 1 [MOD 2 ^ w] :=
        (Nat.mod_modEq _ _).trans ((Nat.mod_modEq _ _).add_right 1)
      rw [((foldl_groups_modEq _ reduced).mul_right _).add_right] at value
      refine ⟨group :: init, _, rfl, ?_, unmarked, value⟩
      simp only [mem_cons, forall_eq_or_imp]
      exact ⟨more, marked⟩
    · next single =>
      cases done
      exact ⟨[], _, rfl, by simp, by omega, rfl⟩

lemma pow_length_le : 128 ^ init.length ≤ 127 * carried init + 1 := by
  induction init using List.reverseRecOn with
  | nil => decide
  | append_singleton init group ih =>
    rw [length_append, length_singleton, carried_append]
    omega

lemma varIntGroups_carried {init last size more} (marked : ∀ group ∈ init, 128 ≤ group.toNat)
    (mark : last.toNat = last.toNat % 128 + if more then 128 else 0) (room : init.length < size) :
    varIntGroups size more (carried init * 128 + last.toNat % 128) = init ++ [last] := by
  induction init using List.reverseRecOn generalizing last more size with
  | nil =>
    obtain ⟨size, rfl⟩ : ∃ k, size = k + 1 := ⟨size - 1, by omega⟩
    have group : (carried [] * 128 + last.toNat % 128) % 128 + (if more then 128 else 0) = last.toNat := by omega
    rw [varIntGroups, group, UInt8.ofNat_toNat, if_pos]
    · rfl
    · rw [show carried [] = 0 from rfl]
      omega
  | append_singleton init pre ih =>
    rw [length_append, length_singleton] at room
    obtain ⟨size, rfl⟩ : ∃ k, size = k + 1 := ⟨size - 1, by omega⟩
    have above : (carried (init ++ [pre]) * 128 + last.toNat % 128) / 128 - 1 = carried init * 128 + pre.toNat % 128 := by
      rw [carried_append]
      omega
    have group : (carried (init ++ [pre]) * 128 + last.toNat % 128) % 128 + (if more then 128 else 0) = last.toNat := by omega
    have byte := pre.toNat_lt
    have marked_before := marked pre (by simp)
    rw [varIntGroups, group, UInt8.ofNat_toNat, if_neg, above, ih]
    · intro other mem
      exact marked _ (mem_append_left _ mem)
    · rw [if_pos rfl]
      omega
    · omega
    · rw [carried_append]
      omega

lemma varIntNumber_varInt {w n} (pos : 0 < w) (small : n < 2 ^ w) : varIntNumber (varInt w n) = n := by
  obtain ⟨size, groups, room⟩ := exists_groups pos small
  -- read with a width that cuts nothing off
  obtain ⟨width, wide⟩ : ∃ width, max n (varIntNumber (varInt w n)) < 2 ^ width := ⟨_, Nat.lt_two_pow_self⟩
  have read := readVarIntFrom_groups (w := width) false (by omega) room []
  rw [← groups, append_nil] at read
  obtain ⟨init, last, form, -, -, value⟩ := readVarIntFrom_eq_some read
  have number : varIntNumber (varInt w n) = carried init * 128 + last.toNat % 128 := by rw [varInt, form, varIntNumber_eq]
  rw [number, value]
  symm
  apply Nat.mod_eq_of_lt
  change carried _ * 128 + last.toNat % 128 < 2 ^ width
  omega

lemma eq_varInt_iff {w n} (pos : 0 < w) (done : (readVarInt w).run input = some (n, [])) :
    input = varInt w n ↔ varIntNumber input < 2 ^ w := by
  obtain ⟨init, last, rfl, marked, unmarked, value⟩ := readVarIntFrom_eq_some done
  change n = (carried _ * 128 + last.toNat % 128) % 2 ^ w at value
  have small : n < 2 ^ w := value ▸ Nat.mod_lt _ (Nat.two_pow_pos w)
  constructor
  · intro same
    rw [same, varIntNumber_varInt pos small]
    exact small
  · intro fits
    rw [varIntNumber_eq] at fits
    rw [Nat.mod_eq_of_lt fits] at value
    rw [value, varInt, varIntGroups_carried marked]
    · grind
    · by_contra short
      have longer : w ≤ 7 * init.length := by omega
      have place := pow_length_le init
      have two : 2 ^ 1 ≤ 2 ^ w := Nat.pow_le_pow_right (by decide) pos
      have beyond : 2 ^ w ≤ 128 ^ init.length := by
        rw [show 128 = 2 ^ 7 from rfl, ← pow_mul]
        exact Nat.pow_le_pow_right (by decide) longer
      omega

end Codec
