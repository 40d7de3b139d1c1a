import Mathlib.Data.Nat.Digits.Lemmas
import Mathlib.Tactic.Ring

namespace Limbs
open List Nat
variable (base : Nat)
/-- A round of the loops keeps its sum in a double word. -/
def mulWord (word : Nat) : (carry : Nat) → List Nat → List Nat
  | _, [] => []
  | carry, x :: xs =>
    let n := (carry + word * x) % base ^ 2
    n % base :: mulWord word (n / base) xs

def addRow (word : Nat) : (carry : Nat) → (acc ys : List Nat) → List Nat
  | carry, p :: acc, y :: ys =>
    let n := (carry + p + word * y) % base ^ 2
    n % base :: addRow word (n / base) acc ys
  | _, acc, _ => acc

def mulRows (ys : List Nat) : (xs acc : List Nat) → List Nat
  | x :: xs, acc => match addRow base x 0 acc ys with
    | [] => []
    | low :: high => low :: mulRows ys xs high
  | [], acc => acc

lemma mod_step (low high length) :
    low % base + base * ((low / base + high) % base ^ length) = (low + base * high) % base ^ (length + 1) := by
  rcases Nat.eq_zero_or_pos base with rfl | positive
  · simp
  · rw [Nat.pow_succ', Nat.mod_mul, Nat.add_mul_mod_self_left, Nat.add_mul_div_left _ _ positive]

section
variable {base word carry : Nat} (small : word < base) (below : carry < base)
include small below

/-- The sum of a round fits in the double word. -/
lemma sum_lt {p y} (low : p < base) (ins : y < base) : carry + p + word * y < base ^ 2 := by
  obtain ⟨top, rfl⟩ : ∃ top, base = top + 1 := ⟨base - 1, by omega⟩
  have product : word * y ≤ top * top := Nat.mul_le_mul (le_of_lt_succ small) (le_of_lt_succ ins)
  have square : (top + 1) ^ 2 = top * top + 2 * top + 1 := by ring
  omega

lemma carry_lt {p y} (low : p < base) (ins : y < base) : (carry + p + word * y) / base < base := by
  rw [Nat.div_lt_iff_lt_mul (zero_lt_of_lt small), ← pow_two]
  exact sum_lt small below low ins

lemma mulWord_cons {x} (ins : x < base) (xs) :
    mulWord base word carry (x :: xs) = (carry + word * x) % base :: mulWord base word ((carry + word * x) / base) xs := by
  have fits := sum_lt small below (zero_lt_of_lt small) ins
  rw [add_zero] at fits
  rw [mulWord, mod_eq_of_lt fits]

lemma addRow_cons {p y} (low : p < base) (ins : y < base) (acc ys) : addRow base word carry (p :: acc) (y :: ys) =
    (carry + p + word * y) % base :: addRow base word ((carry + p + word * y) / base) acc ys := by
  rw [addRow, mod_eq_of_lt (sum_lt small below low ins)]

lemma ofDigits_mulWord {xs} (words : ∀ x ∈ xs, x < base) :
    Nat.ofDigits base (mulWord base word carry xs) = (carry + word * Nat.ofDigits base xs) % base ^ xs.length := by
  induction xs generalizing carry with
  | nil => simp [mulWord, mod_one]
  | cons x xs ih =>
    have ins := words x mem_cons_self
    have next : (carry + word * x) / base < base := carry_lt small below (zero_lt_of_lt small) ins
    have split : carry + word * (x + base * Nat.ofDigits base xs) = carry + word * x + base * (word * Nat.ofDigits base xs) := by ring
    rw [mulWord_cons small below ins, ofDigits_cons, ih next fun y mem => words y (mem_cons_of_mem _ mem), mod_step, ofDigits_cons,
      split, length_cons]

lemma ofDigits_addRow {acc ys} (enough : acc.length ≤ ys.length) (words : ∀ p ∈ acc, p < base) (digits : ∀ y ∈ ys, y < base) :
    Nat.ofDigits base (addRow base word carry acc ys) =
      (carry + Nat.ofDigits base acc + word * Nat.ofDigits base ys) % base ^ acc.length := by
  induction acc generalizing carry ys with
  | nil => cases ys <;> simp [addRow, mod_one]
  | cons p acc ih =>
    cases ys with
    | nil => simp at enough
    | cons y ys =>
      have low := words p mem_cons_self
      have ins := digits y mem_cons_self
      have split : carry + (p + base * Nat.ofDigits base acc) + word * (y + base * Nat.ofDigits base ys) =
          carry + p + word * y + base * (Nat.ofDigits base acc + word * Nat.ofDigits base ys) := by ring
      rw [addRow_cons small below low ins, ofDigits_cons, ih (carry_lt small below low ins) (le_of_succ_le_succ enough)
        (fun q mem => words q (mem_cons_of_mem _ mem)) (fun z mem => digits z (mem_cons_of_mem _ mem)), add_assoc _ (Nat.ofDigits _ _),
        mod_step, ofDigits_cons, ofDigits_cons, split, length_cons]
end

variable {base} in
lemma addRow_lt (positive : 0 < base) {word carry acc} (words : ∀ p ∈ acc, p < base) (ys) :
    ∀ q ∈ addRow base word carry acc ys, q < base := by
  induction acc generalizing carry ys with
  | nil => cases ys <;> simp [addRow]
  | cons p acc ih =>
    cases ys with
    | nil => exact words
    | cons y ys =>
      rw [addRow, forall_mem_cons]
      exact ⟨mod_lt _ positive, ih (fun q mem => words q (mem_cons_of_mem _ mem)) ys⟩

variable (word carry : Nat)
lemma length_addRow (acc ys) : (addRow base word carry acc ys).length = acc.length := by
  induction acc generalizing carry ys with
  | nil => cases ys <;> rfl
  | cons p acc ih =>
    cases ys with
    | nil => rfl
    | cons y ys => rw [addRow, length_cons, ih, length_cons]

lemma mod_step_of_mod (n high length) :
    n % base + base * (high % base ^ length) = (n % base + base * high) % base ^ (length + 1) := by
  have step := mod_step base (n % base) high length
  rwa [mod_mod, mod_div_self, zero_add] at step

variable {base} in
lemma ofDigits_mulRows {xs acc ys} (same : acc.length = xs.length) (enough : acc.length ≤ ys.length) (factors : ∀ x ∈ xs, x < base)
    (words : ∀ p ∈ acc, p < base) (digits : ∀ y ∈ ys, y < base) : Nat.ofDigits base (mulRows base ys xs acc) =
      (Nat.ofDigits base acc + Nat.ofDigits base xs * Nat.ofDigits base ys) % base ^ acc.length := by
  induction xs generalizing acc with
  | nil => simp [mulRows, length_eq_zero_iff.mp same, mod_one]
  | cons x xs ih =>
    have small := factors x mem_cons_self
    have positive := zero_lt_of_lt small
    have row := ofDigits_addRow small positive enough words digits
    have bounded := @addRow_lt base positive x 0 _ words ys
    cases acc with
    | nil => cases same
    | cons p acc => cases ys with
      | nil => simp at enough
      | cons y ys =>
        have start := addRow_cons small positive (words p mem_cons_self) (digits y mem_cons_self) acc ys
        have rest := length_addRow base x ((0 + p + x * y) / base) acc ys
        have expand : Nat.ofDigits base (x :: xs) = x + base * Nat.ofDigits base xs := ofDigits_cons
        rw [start, ofDigits_cons, zero_add] at row
        rw [start, forall_mem_cons] at bounded
        rw [mulRows, start, ofDigits_cons, ih _ _ (fun z mem => factors z (mem_cons_of_mem _ mem)) bounded.2]
        -- the row fixes the lowest digit, and the rows after it work on the digits above
        · rw [mod_step_of_mod, mul_add, ← add_assoc, rest, zero_add, ← length_cons, row, mod_add_mod,
            expand]
          ring_nf
        · rw [rest]
          exact Nat.succ.inj same
        · rw [rest]
          exact le_of_succ_le enough

def compareTo : List Nat → List Nat → Ordering
  | x :: xs, y :: ys => (compareTo xs ys).then (compare x y)
  | _, _ => .eq

lemma compareTo_eq {base xs ys} (same : xs.length = ys.length) (left : ∀ x ∈ xs, x < base)
    (right : ∀ y ∈ ys, y < base) : compareTo xs ys = compare (Nat.ofDigits base xs) (Nat.ofDigits base ys) := by
  induction xs generalizing ys with
  | nil => cases ys with
    | nil => rfl
    | cons y ys => cases same
  | cons x xs ih => cases ys with
    | nil => cases same
    | cons y ys =>
      have low := left x mem_cons_self
      have low' := right y mem_cons_self
      rw [compareTo, ih (Nat.succ.inj same) (fun x mem => left x (mem_cons_of_mem _ mem))
        (fun y mem => right y (mem_cons_of_mem _ mem)), Nat.ofDigits_cons, Nat.ofDigits_cons]
      rcases Nat.lt_trichotomy _ _ with above | equal | below
      · have scaled : base * (Nat.ofDigits base xs + 1) ≤ base * Nat.ofDigits base ys := Nat.mul_le_mul_left _ above
        rw [Nat.mul_succ] at scaled
        have order : x + base * Nat.ofDigits base xs < y + base * Nat.ofDigits base ys := by omega
        rw [Nat.compare_eq_lt.mpr above, Nat.compare_eq_lt.mpr order]
        rfl
      · rw [equal, Nat.compare_eq_eq.mpr rfl]
        change compare x y = _
        rcases Nat.lt_trichotomy x y with above | rfl | below
        · rw [Nat.compare_eq_lt.mpr above, Nat.compare_eq_lt.mpr (by omega)]
        · simp
        · rw [Nat.compare_eq_gt.mpr below, Nat.compare_eq_gt.mpr (by omega)]
      · have scaled : base * (Nat.ofDigits base ys + 1) ≤ base * Nat.ofDigits base xs := Nat.mul_le_mul_left _ below
        rw [Nat.mul_succ] at scaled
        have order : y + base * Nat.ofDigits base ys < x + base * Nat.ofDigits base xs := by omega
        rw [Nat.compare_eq_gt.mpr below, Nat.compare_eq_gt.mpr order]
        rfl

variable {w : Nat}
def bitLength (x : BitVec w) : Nat := if x = 0 then 0 else x.toNat.log2 + 1

def divideBits : (rounds : Nat) → (num div quotient : BitVec w) → BitVec w
  | 0, _, _, quotient => quotient
  | shift + 1, num, div, quotient =>
    if div ≤ num then divideBits shift (num - div) (div >>> 1) (quotient ||| BitVec.twoPow w shift)
    else divideBits shift num (div >>> 1) quotient

def divide (num div : BitVec w) : Option (BitVec w) :=
  if bitLength div = 0 then none
  else if bitLength num < bitLength div then some 0
  else some (divideBits (bitLength num - bitLength div + 1) num (div <<< (bitLength num - bitLength div)) 0)

lemma toNat_lt_bitLength (x : BitVec w) : x.toNat < 2 ^ bitLength x := by
  unfold bitLength
  split
  · next zero => simp [zero]
  · exact lt_log2_self

lemma bitLength_le (x : BitVec w) : bitLength x ≤ w := by
  unfold bitLength
  split
  · exact zero_le w
  · next nz =>
    have positive : x.toNat ≠ 0 := fun zero => nz (BitVec.eq_of_toNat_eq (by simpa using zero))
    exact (Nat.log2_lt positive).mpr x.isLt

lemma bitLength_pos {x : BitVec w} (nz : x ≠ 0) : 0 < bitLength x := by
  unfold bitLength
  rw [if_neg nz]
  exact succ_pos _

lemma two_pow_bitLength_le {x : BitVec w} (nz : x ≠ 0) : 2 ^ bitLength x ≤ x.toNat * 2 := by
  have positive : x.toNat ≠ 0 := fun zero => nz (BitVec.eq_of_toNat_eq (by simpa using zero))
  unfold bitLength
  rw [if_neg nz]
  exact mul_le_mul_right _ (Nat.log2_self_le positive)

lemma toNat_divideBits {d} (positive : 0 < d) {rounds} {num div quot : BitVec w} (ins : rounds ≤ w)
    (aligned : div.toNat = d * 2 ^ rounds / 2) (small : num.toNat < d * 2 ^ rounds) (clear : 2 ^ rounds ∣ quot.toNat) :
    (divideBits rounds num div quot).toNat = quot.toNat + num.toNat / d := by
  induction rounds generalizing num div quot with
  | zero =>
    rw [pow_zero, mul_one] at small
    rw [divideBits, div_eq_of_lt small, add_zero]
  | succ shift ih =>
    have double : d * 2 ^ (shift + 1) = d * 2 ^ shift * 2 := by rw [Nat.pow_succ, Nat.mul_assoc]
    rw [double] at aligned small
    rw [Nat.mul_div_cancel _ (by decide)] at aligned
    have halved : (div >>> 1).toNat = d * 2 ^ shift / 2 := by rw [BitVec.toNat_ushiftRight, Nat.shiftRight_one, aligned]
    have bit : (quot ||| BitVec.twoPow w shift).toNat = quot.toNat + 2 ^ shift := by
      obtain ⟨high, equal⟩ := clear
      have half : 2 ^ shift < 2 ^ (shift + 1) := Nat.pow_lt_pow_right (by decide) (Nat.lt_succ_self _)
      rw [BitVec.toNat_or, BitVec.toNat_twoPow_of_lt ins, equal, Nat.two_pow_add_eq_or_of_lt half]
    rw [divideBits]
    split
    · next fits =>
      have below : div.toNat ≤ num.toNat := fits
      have rest : (num - div).toNat = num.toNat - d * 2 ^ shift := by rw [BitVec.toNat_sub_of_le fits, aligned]
      rw [ih (Nat.le_of_succ_le ins) halved (by omega), rest]
      · have quot : num.toNat / d = 2 ^ shift + (num.toNat - d * 2 ^ shift) / d := by
          have whole : num.toNat = num.toNat - d * 2 ^ shift + d * 2 ^ shift := by omega
          rw [whole, Nat.add_mul_div_left _ _ positive, Nat.add_sub_cancel, Nat.add_comm]
        omega
      · rw [bit]
        exact Nat.dvd_add (Nat.dvd_trans (Nat.pow_dvd_pow 2 (Nat.le_succ _)) clear) (Nat.dvd_refl _)
    · next above =>
      have below : num.toNat < d * 2 ^ shift := by
        rw [← aligned]
        exact Nat.lt_of_not_le above
      exact ih (Nat.le_of_succ_le ins) halved below (Nat.dvd_trans (Nat.pow_dvd_pow 2 (Nat.le_succ _)) clear)

lemma divide_eq {num div : BitVec w} (nz : div ≠ 0) : divide num div = some (num / div) := by
  have positive : 0 < div.toNat := pos_of_ne_zero fun zero => nz (BitVec.eq_of_toNat_eq (by simpa using zero))
  have leading := two_pow_bitLength_le nz
  have above := toNat_lt_bitLength num
  have ins := bitLength_le num
  unfold divide
  rw [if_neg (bitLength_pos nz).ne']
  split
  · next shorter =>
    have below : num.toNat < div.toNat := by
      have wider : 2 ^ bitLength num * 2 ≤ 2 ^ bitLength div := by
        rw [← Nat.pow_succ]
        exact Nat.pow_le_pow_right (by decide) shorter
      omega
    congr 1
    apply BitVec.eq_of_toNat_eq
    rw [BitVec.toNat_udiv, div_eq_of_lt below]
    rfl
  · next longer =>
    congr 1
    apply BitVec.eq_of_toNat_eq
    have width : bitLength num = bitLength div + (bitLength num - bitLength div) := by omega
    have aligned : (div <<< (bitLength num - bitLength div)).toNat = div.toNat * 2 ^ (bitLength num - bitLength div) := by
      rw [BitVec.toNat_shiftLeft, Nat.shiftLeft_eq, Nat.mod_eq_of_lt]
      calc div.toNat * 2 ^ (bitLength _ - bitLength _) < 2 ^ bitLength _ * 2 ^ (bitLength _ - bitLength _) :=
            Nat.mul_lt_mul_of_pos_right (toNat_lt_bitLength _) (Nat.two_pow_pos _)
        _ = 2 ^ bitLength _ := by rw [← Nat.pow_add, ← width]
        _ ≤ 2 ^ w := Nat.pow_le_pow_right (by decide) ins
    have small : num.toNat < div.toNat * 2 ^ (bitLength num - bitLength div + 1) := by
      calc num.toNat < 2 ^ bitLength _ := above
        _ = 2 ^ bitLength _ * 2 ^ (bitLength _ - bitLength _) := by rw [← Nat.pow_add, ← width]
        _ ≤ div.toNat * 2 * 2 ^ (bitLength _ - bitLength _) := mul_le_mul_right _ leading
        _ = div.toNat * 2 ^ (bitLength _ - bitLength _ + 1) := by ring_nf
    have rounds : bitLength num - bitLength div + 1 ≤ w := by
      have leads := bitLength_pos nz
      omega
    rw [toNat_divideBits positive rounds _ small (by simp)]
    · simp
    · rw [aligned, Nat.pow_succ, ← Nat.mul_assoc, Nat.mul_div_cancel _ (by decide)]

variable {w s : Nat} {xs : List Nat}
/-- The result from the word written next; the one above takes the bits shifted out. -/
def shiftLeft (w s : Nat) : (words acc : List Nat) → List Nat
  | x :: xs, cur :: next :: acc =>
    (cur ||| (x <<< s) % 2 ^ w) :: shiftLeft w s xs ((next ||| if s = 0 then 0 else x >>> (w - s)) :: acc)
  | x :: _, [cur] => [cur ||| (x <<< s) % 2 ^ w]
  | _, acc => acc

def shiftRight (w s : Nat) : (cur : Nat) → (words : List Nat) → List Nat
  | cur, [] => [cur]
  | cur, x :: xs => (cur ||| if s = 0 then 0 else (x <<< (w - s)) % 2 ^ w) :: shiftRight w s (x >>> s) xs

lemma or_shiftLeft_mod (small : s ≤ w) {cur} (below : cur < 2 ^ s) (x) :
    cur ||| (x <<< s) % 2 ^ w = (cur + 2 ^ s * x) % 2 ^ w := by
  have power : 2 ^ w = 2 ^ s * 2 ^ (w - s) := by rw [← Nat.pow_add, Nat.add_sub_cancel' small]
  rw [Nat.shiftLeft_eq, Nat.mul_comm x, power, Nat.mul_mod_mul_left, Nat.or_comm, ← Nat.two_pow_add_eq_or_of_lt below, Nat.mod_mul,
    Nat.add_mul_mod_self_left, Nat.mod_eq_of_lt below, Nat.add_mul_div_left _ _ (Nat.two_pow_pos s), Nat.div_eq_of_lt below,
    Nat.zero_add, Nat.add_comm]

lemma shiftLeft_eq (small : s < w) {n cur} (below : cur < 2 ^ s) (enough : n < xs.length) (words : ∀ x ∈ xs, x < 2 ^ w) :
    shiftLeft w s xs (cur :: replicate n 0) = mulWord (2 ^ w) (2 ^ s) cur (xs.take (n + 1)) := by
  have power : 2 ^ w = 2 ^ s * 2 ^ (w - s) := by rw [← Nat.pow_add, Nat.add_sub_cancel' small.le]
  have unit : 2 ^ s < 2 ^ w := Nat.pow_lt_pow_right (by decide) small
  induction n generalizing xs cur with
  | zero =>
    cases xs with
    | nil => simp at enough
    | cons x xs =>
      rw [take_succ_cons, mulWord_cons unit (below.trans unit) (words x mem_cons_self)]
      simp [shiftLeft, mulWord, or_shiftLeft_mod small.le below]
  | succ n ih =>
    cases xs with
    | nil => simp at enough
    | cons x xs =>
      have ins := words x mem_cons_self
      have high : (0 ||| if s = 0 then 0 else x >>> (w - s)) = (cur + 2 ^ s * x) / 2 ^ w := by
        rw [Nat.zero_or, power, ← Nat.div_div_eq_div_mul, Nat.add_mul_div_left _ _ (Nat.two_pow_pos s),
          Nat.div_eq_of_lt below, Nat.zero_add]
        split
        · next zero => rw [Nat.div_eq_of_lt (by simpa [zero] using ins)]
        · rw [Nat.shiftRight_eq_div_pow]
      have carry : (cur + 2 ^ s * x) / 2 ^ w < 2 ^ s := by
        rw [Nat.div_lt_iff_lt_mul (Nat.two_pow_pos w)]
        calc cur + 2 ^ s * x < 2 ^ s * (x + 1) := by rw [Nat.mul_succ]; omega
          _ ≤ 2 ^ s * 2 ^ w := Nat.mul_le_mul_left _ ins
      rw [replicate_succ, shiftLeft, high, ih carry (by simpa using enough) fun y mem => words y (mem_cons_of_mem _ mem),
        or_shiftLeft_mod small.le below, take_succ_cons, mulWord_cons unit (below.trans unit) ins]

lemma ofDigits_shiftRight (small : s < w) {cur} (below : cur < 2 ^ (w - s)) (words : ∀ x ∈ xs, x < 2 ^ w) :
    Nat.ofDigits (2 ^ w) (shiftRight w s cur xs) = cur + 2 ^ (w - s) * Nat.ofDigits (2 ^ w) xs := by
  have power : 2 ^ w = 2 ^ (w - s) * 2 ^ s := by rw [← Nat.pow_add, Nat.sub_add_cancel small.le]
  induction xs generalizing cur with
  | nil => simp [shiftRight]
  | cons x xs ih =>
    have ins := words x mem_cons_self
    have high : x >>> s < 2 ^ (w - s) := by
      rw [Nat.shiftRight_eq_div_pow, Nat.div_lt_iff_lt_mul (Nat.two_pow_pos s), ← power]
      exact ins
    have word : (cur ||| if s = 0 then 0 else (x <<< (w - s)) % 2 ^ w) = cur + 2 ^ (w - s) * (x % 2 ^ s) := by
      split
      · next zero => simp [zero, Nat.mod_one]
      · rw [or_shiftLeft_mod (Nat.sub_le w s) below, power, Nat.mod_mul, Nat.add_mul_mod_self_left, Nat.mod_eq_of_lt below,
          Nat.add_mul_div_left _ _ (Nat.two_pow_pos _), Nat.div_eq_of_lt below, Nat.zero_add]
    rw [shiftRight, Nat.ofDigits_cons, ih high fun y mem => words y (mem_cons_of_mem _ mem), word, Nat.ofDigits_cons,
      Nat.shiftRight_eq_div_pow]
    have split := Nat.mod_add_div x (2 ^ s)
    generalize x / 2 ^ s = q, x % 2 ^ s = r at split
    rw [← split]
    generalize Nat.ofDigits (2 ^ w) xs = d
    rw [power]
    ring_nf

def increment (base : Nat) : List Nat → List Nat
  | [] => []
  | x :: xs => if (x + 1) % base = 0 then 0 :: increment base xs else (x + 1) % base :: xs

section
variable {base : Nat} (words : ∀ x ∈ xs, x < base)
include words

lemma ofDigits_increment : Nat.ofDigits base (increment base xs) = (Nat.ofDigits base xs + 1) % base ^ xs.length := by
  induction xs with
  | nil => simp [increment]
  | cons x xs ih =>
    have ins := words x mem_cons_self
    have rest := fun y mem => words y (mem_cons_of_mem _ mem)
    rw [increment, ofDigits_cons, length_cons, add_right_comm, ← mod_step]
    split
    · next wraps =>
      have full : x + 1 = base := Nat.le_antisymm ins (Nat.le_of_dvd (Nat.succ_pos x) (Nat.dvd_of_mod_eq_zero wraps))
      rw [Nat.ofDigits_cons, ih rest, full, Nat.mod_self, Nat.div_self (by omega), Nat.add_comm 1]
    · next stays =>
      have below : x + 1 < base := Nat.lt_of_le_of_ne ins fun full => stays (by rw [full, Nat.mod_self])
      rw [Nat.ofDigits_cons, Nat.div_eq_of_lt below, Nat.zero_add, Nat.mod_eq_of_lt (Nat.ofDigits_lt_base_pow_length (by omega) rest)]

lemma ofDigits_complement : Nat.ofDigits base (xs.map (base - 1 - ·)) + Nat.ofDigits base xs + 1 = base ^ xs.length := by
  induction xs with
  | nil => rfl
  | cons x xs ih =>
    have ins := words x mem_cons_self
    have rest := ih fun y mem => words y (mem_cons_of_mem _ mem)
    rw [map_cons, ofDigits_cons, ofDigits_cons, length_cons, pow_succ', ← rest]
    have word : base - 1 - x + x + 1 = base := by omega
    calc base - 1 - x + base * Nat.ofDigits base (xs.map (base - 1 - ·)) + (x + base * Nat.ofDigits base xs) + 1
        = base - 1 - x + x + 1 + base * (Nat.ofDigits base (xs.map (base - 1 - ·)) + Nat.ofDigits base xs) := by ring
      _ = base * (Nat.ofDigits base (xs.map (base - 1 - ·)) + Nat.ofDigits base xs + 1) := by rw [word]; ring
end

/-- The position of the highest set bit, counted from one; one if only the lowest can be. -/
def topBit (x : Nat) : Nat → Nat
  | 0 => 1
  | bit + 1 => if x.testBit (bit + 1) then bit + 2 else topBit x bit

def bits (w : Nat) : List Nat → Nat
  | [] => 0
  | x :: xs => if bits w xs ≠ 0 then w + bits w xs else if x ≠ 0 then topBit x (w - 1) else 0

lemma topBit_eq {x bit} (positive : x ≠ 0) (small : x < 2 ^ (bit + 1)) : topBit x bit = x.log2 + 1 := by
  induction bit with
  | zero =>
    have one : x = 1 := by omega
    rw [one, topBit]
    rfl
  | succ bit ih =>
    rw [topBit]
    split
    · next set =>
      have low := Nat.ge_two_pow_of_testBit set
      rw [(Nat.log2_eq_iff positive).mpr ⟨low, small⟩]
    · next clear =>
      exact ih (Nat.lt_of_not_le fun low => clear (by
        rw [Nat.testBit_eq_decide_div_mod_eq, Nat.div_eq_of_lt_le (k := 1) (by omega) (by omega)]
        rfl))

variable (positive : 0 < w) (words : ∀ x ∈ xs, x < 2 ^ w)
include positive words

lemma bits_eq : bits w xs = if Nat.ofDigits (2 ^ w) xs = 0 then 0 else (Nat.ofDigits (2 ^ w) xs).log2 + 1 := by
  induction xs with
  | nil => rfl
  | cons x xs ih =>
    have ins := words x mem_cons_self
    rw [bits, ih fun y mem => words y (mem_cons_of_mem _ mem), Nat.ofDigits_cons]
    generalize Nat.ofDigits (2 ^ w) xs = high
    rcases Nat.eq_zero_or_pos high with rfl | above
    · by_cases zero : x = 0
      · simp [zero]
      · simp [zero, @topBit_eq _ (w - 1) zero (by rwa [Nat.sub_add_cancel positive])]
    · have both : x + 2 ^ w * high ≠ 0 := by have := Nat.mul_pos (Nat.two_pow_pos w) above; omega
      have whole : (x + 2 ^ w * high).log2 = w + high.log2 := by
        rw [Nat.log2_eq_iff both, Nat.pow_add, Nat.add_assoc, Nat.pow_add]
        have low := Nat.log2_self_le above.ne'
        have top := lt_log2_self (n := high)
        have scaled := mul_le_mul_left (2 ^ w) low
        have scaled' := mul_le_mul_left (2 ^ w) top
        rw [mul_succ] at scaled'
        omega
      simp [above.ne', whole, add_assoc]

lemma testBit_ofDigits (bit) : (Nat.ofDigits (2 ^ w) xs).testBit bit = (xs[bit / w]?.getD 0).testBit (bit % w) := by
  induction xs generalizing bit with
  | nil => simp
  | cons x xs ih =>
    have ins := words x mem_cons_self
    rw [ofDigits_cons, add_comm, testBit_two_pow_mul_add _ ins]
    split
    · next low => simp [div_eq_of_lt low, mod_eq_of_lt low]
    · next high =>
      have next : bit / w = (bit - w) / w + 1 := by rw [div_eq_sub_div positive (by omega)]
      have rest : bit % w = (bit - w) % w := mod_eq_sub_mod (by omega)
      rw [ih fun y mem => words y (mem_cons_of_mem _ mem), next, getElem?_cons_succ, rest]

end Limbs
