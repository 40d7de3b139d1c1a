import Mathlib.Data.Nat.Bitwise

namespace Peony.Bech32
open List Nat

def CHARSET : List Char := "qpzry9x8gf2tvdw0s3jn54khce6mua7l".toList
def charsetAt (v : Nat) : Char := CHARSET.getD v ' '

def CHARSET_REV : List Int :=
  let letters := [-1, 29, -1, 24, 13, 25, 9, 8, 23, -1, 18, 22, 31, 27, 19, -1, 1, 0, 3, 16, 11, 28, 12, 14, 6, 4, 2, -1, -1, -1, -1, -1]
  replicate 48 (-1) ++ [15, -1, 10, 17, 21, 20, 26, 30, 7, 5, -1, -1, -1, -1, -1, -1] ++ letters ++ letters

/-- What the loop of `PolyMod` adds for each bit of `c0`. -/
def addKeys (c0 : Nat) (keys : List (Nat × Nat)) (c : Nat) : Nat :=
  keys.foldl (fun c entry => if c0 &&& entry.1 ≠ 0 then c ^^^ entry.2 else c) c

def generator : List (Nat × Nat) := [(1, 0x3b6a57b2), (2, 0x26508e6d), (4, 0x1ea119fa), (8, 0x3d4233dd), (16, 0x2a1462b3)]

/-- Nothing leaves the 32 bits of `c`: the mask keeps 25 before the shift by 5. -/
def polyModStep (c v_i : Nat) : Nat := addKeys (c >>> 25) generator ((c &&& 0x1ffffff) <<< 5 ^^^ v_i)

def polyMod (v : List Nat) : Nat := v.foldl polyModStep 1
def lowerCase (c : Char) : Char := if c.isUpper then .ofNat (c.toNat - 'A'.toNat + 'a'.toNat) else c
def expandHRP (hrp : List Char) : List Nat := hrp.map (·.toNat >>> 5) ++ 0 :: hrp.map (·.toNat &&& 0x1f)
def verifyChecksum (hrp : List Char) (values : List Nat) : Bool := polyMod (expandHRP hrp ++ values) == 1

/-- The 5-bit groups of a 30-bit number, the highest first. -/
def groups (mod : Nat) : List Nat := (range 6).map fun i => (mod >>> (5 * (5 - i))) &&& 31

def createChecksum (hrp : List Char) (values : List Nat) : List Nat :=
  groups (polyMod (expandHRP hrp ++ values ++ replicate 6 0) ^^^ 1)

def encode (hrp : List Char) (values : List Nat) : List Char :=
  let combined := values ++ createChecksum hrp values
  if combined.any (32 ≤ ·) then [] else hrp ++ '1' :: combined.map charsetAt

def charsetRev (c : Char) : Option Nat :=
  let rev := if c.toNat < 33 || c.toNat > 126 then -1 else CHARSET_REV.getD c.toNat (-1)
  if rev = -1 then none else some rev.toNat

/-- An empty pair for what is not accepted. -/
def decode (str : List Char) : List Char × List Nat :=
  if str.any fun c => c.toNat < 33 || c.toNat > 126 then ([], [])
  else if str.any Char.isLower && str.any Char.isUpper then ([], [])
  else match str.reverse.idxOf? '1' with
  | none => ([], [])
  | some back =>
    let pos := str.length - 1 - back
    if str.length > 1023 || pos == 0 || pos + 7 > str.length then ([], [])
    else match (str.drop (pos + 1)).mapM charsetRev with
    | none => ([], [])
    | some values =>
      let hrp := (str.take pos).map lowerCase
      if verifyChecksum hrp values then (hrp, values.take (values.length - 6)) else ([], [])

abbrev Lowercase (c : Char) : Prop := 33 ≤ c.toNat ∧ c.toNat ≤ 126 ∧ c.isUpper = false

/-- What the bits shifted out of `c` add. -/
def feed (c0 : Nat) : Nat := addKeys c0 generator 0

lemma addKeys_eq (c0 keys start) : addKeys c0 keys start = start ^^^ addKeys c0 keys 0 := by
  unfold addKeys
  induction keys generalizing start with
  | nil => exact (xor_zero _).symm
  | cons entry rest ih =>
    rw [foldl_cons, foldl_cons, ih, ih (ite _ _ _)]
    split
    · rw [Nat.zero_xor, Nat.xor_assoc]
    · rw [Nat.zero_xor]

lemma polyModStep_eq (c v) : polyModStep c v = (c % 2 ^ 25) <<< 5 ^^^ v ^^^ feed (c >>> 25) := by
  rw [polyModStep, addKeys_eq, feed, and_two_pow_sub_one_eq_mod c 25]

lemma feed_lt : ∀ c0 < 32, feed c0 < 2 ^ 30 := by decide +kernel
lemma feed_injective : ∀ c0 < 32, ∀ d0 < 32, feed c0 % 2 ^ 5 = feed d0 % 2 ^ 5 → c0 = d0 := by decide +kernel
lemma polyModStep_lt {c v} (small : c < 2 ^ 30) (value : v < 32) : polyModStep c v < 2 ^ 30 := by
  rw [polyModStep_eq, shiftLeft_eq, shiftRight_eq_div_pow]
  refine xor_lt_two_pow (xor_lt_two_pow ?_ (value.trans (by decide))) (feed_lt _ ?_)
  · omega
  · omega

/-- The low five bits of the result give the five bits that were shifted out. -/
lemma polyModStep_injective {c d v} (small : c < 2 ^ 30) (small' : d < 2 ^ 30)
    (same : polyModStep c v = polyModStep d v) : c = d := by
  rw [polyModStep_eq, polyModStep_eq, Nat.xor_comm _ v, Nat.xor_comm _ v, Nat.xor_assoc, Nat.xor_assoc, Nat.xor_right_inj] at same
  have low := congrArg (· % 2 ^ 5) same
  simp only [xor_mod_two_pow, shiftLeft_eq, Nat.mul_mod_left, Nat.zero_xor, shiftRight_eq_div_pow] at low
  have top : c / 2 ^ 25 = d / 2 ^ 25 := feed_injective _ (by omega) _ (by omega) low
  rw [shiftRight_eq_div_pow, shiftRight_eq_div_pow, top, Nat.xor_left_inj, shiftLeft_eq, shiftLeft_eq] at same
  omega

lemma polyModStep_xor {x} (c v) (small : x < 2 ^ 25) : polyModStep (c ^^^ x) v = polyModStep c 0 ^^^ (x <<< 5 ^^^ v) := by
  have above : x >>> 25 = 0 := by rw [shiftRight_eq_div_pow, Nat.div_eq_of_lt small]
  rw [polyModStep_eq, polyModStep_eq, xor_mod_two_pow, shiftRight_xor_distrib, above, Nat.mod_eq_of_lt small, shiftLeft_xor_distrib]
  grind

variable {v : List Nat}
lemma foldl_lt {c} (small : c < 2 ^ 30) (values : ∀ v_i ∈ v, v_i < 32) : v.foldl polyModStep c < 2 ^ 30 := by
  induction v generalizing c with
  | nil => exact small
  | cons v_i rest ih =>
    obtain ⟨own, others⟩ := forall_mem_cons.mp values
    exact ih (polyModStep_lt small own) others

lemma foldl_injective {c d} (small : c < 2 ^ 30) (small' : d < 2 ^ 30) (values : ∀ v_i ∈ v, v_i < 32)
    (same : v.foldl polyModStep c = v.foldl polyModStep d) : c = d := by
  induction v generalizing c d with
  | nil => exact same
  | cons v_i rest ih =>
    obtain ⟨own, others⟩ := forall_mem_cons.mp values
    exact polyModStep_injective small small' (ih (polyModStep_lt small own) (polyModStep_lt small' own) others same)

lemma foldl_set_ne {c i w} (small : c < 2 ^ 30) (values : ∀ v_i ∈ v, v_i < 32) (value : w < 32) (ins : i < v.length)
    (other : v[i]? ≠ some w) : (v.set i w).foldl polyModStep c ≠ v.foldl polyModStep c := by
  induction v generalizing c i with
  | nil => exact absurd ins (Nat.not_lt_zero _)
  | cons v_i rest ih =>
    obtain ⟨own, others⟩ := forall_mem_cons.mp values
    cases i with
    | zero =>
      intro same
      have next := foldl_injective (polyModStep_lt small value) (polyModStep_lt small own) others same
      rw [polyModStep_eq, polyModStep_eq, Nat.xor_left_inj, Nat.xor_right_inj] at next
      exact other (congrArg some next.symm)
    | succ i => exact ih (polyModStep_lt small own) others (Nat.lt_of_succ_lt_succ ins) other

/-- Up to six values can be added after zeroes have been processed in their place. -/
lemma foldl_xor {x n} (c) (small : x < 2 ^ (5 * n)) (values : ∀ v_i ∈ v, v_i < 32) (short : n + v.length ≤ 6) :
    v.foldl polyModStep (c ^^^ x) = (replicate v.length 0).foldl polyModStep c ^^^ v.foldl (fun x v_i => x <<< 5 ^^^ v_i) x := by
  induction v generalizing c x n with
  | nil => rfl
  | cons v_i rest ih =>
    obtain ⟨value, others⟩ := forall_mem_cons.mp values
    rw [length_cons] at short
    have below : x < 2 ^ 25 := Nat.lt_of_lt_of_le small (Nat.pow_le_pow_right (by decide) (by omega))
    have grown : x <<< 5 ^^^ v_i < 2 ^ (5 * (n + 1)) := by
      refine xor_lt_two_pow ?_ (Nat.lt_of_lt_of_le (show v_i < 2 ^ 5 from value) (Nat.pow_le_pow_right (by decide) (by omega)))
      rw [shiftLeft_eq, Nat.mul_add 5 n 1, Nat.pow_add]
      exact Nat.mul_lt_mul_of_pos_right small (by decide)
    rw [foldl_cons, polyModStep_xor c v_i below, ih _ grown others (by omega)]
    rfl

lemma foldl_groups {mod} (small : mod < 2 ^ 30) : (groups mod).foldl (fun x v_i => x <<< 5 ^^^ v_i) 0 = mod := by
  have join : ∀ n, (mod >>> (n + 5)) <<< 5 ^^^ (mod >>> n &&& 31) = mod >>> n := by
    intro n
    apply Nat.eq_of_testBit_eq
    intro i
    rw [and_two_pow_sub_one_eq_mod _ 5, testBit_xor, testBit_shiftLeft, testBit_mod_two_pow]
    by_cases low : i < 5
    · simp [low, Nat.not_le.mpr low]
    · have place : n + 5 + (i - 5) = n + i := by omega
      simp [low, place, Nat.le_of_not_lt low, testBit_shiftRight]
  have none : mod >>> 30 = 0 := by rw [shiftRight_eq_div_pow, Nat.div_eq_of_lt small]
  show (((((0 <<< 5 ^^^ _) <<< 5 ^^^ _) <<< 5 ^^^ _) <<< 5 ^^^ _) <<< 5 ^^^ _) <<< 5 ^^^ _ = mod
  rw [← none, join 25, join 20, join 15, join 10, join 5, join 0]
  rfl

lemma groups_lt (mod) : ∀ v_i ∈ groups mod, v_i < 32 := by
  intro v_i mem
  obtain ⟨i, -, rfl⟩ := mem_map.mp mem
  exact Nat.and_lt_two_pow _ (by decide : 31 < 2 ^ 5)

lemma polyMod_groups (values : ∀ v_i ∈ v, v_i < 32) {mod} (sum : polyMod (v ++ replicate 6 0) ^^^ 1 = mod) :
    polyMod (v ++ groups mod) = 1 := by
  have run : polyMod (v ++ replicate 6 0) = (replicate 6 0).foldl polyModStep (polyMod v) := foldl_append
  have small : mod < 2 ^ 30 := by
    rw [← sum, run]
    exact xor_lt_two_pow (foldl_lt (foldl_lt (by decide) values) (by decide)) (by decide)
  have added := foldl_xor (x := 0) (n := 0) (polyMod v) (by decide) (groups_lt mod) (Nat.le_refl 6)
  rw [foldl_groups small, Nat.xor_zero] at added
  calc polyMod (v ++ groups mod)
    _ = (groups mod).foldl polyModStep (polyMod v) := foldl_append
    _ = polyMod (v ++ replicate 6 0) ^^^ mod := added.trans (by rw [run]; rfl)
    _ = 1 := by rw [← sum, ← Nat.xor_assoc, Nat.xor_self, Nat.zero_xor]

lemma charset_spec : ∀ w < 32, Lowercase (charsetAt w) ∧
    charsetAt w ≠ '1' ∧ charsetRev (charsetAt w) = some w := by decide +kernel

lemma charset_value {c} (mem : c ∈ CHARSET) : ∃ w < 32, charsetAt w = c := by
  obtain ⟨w, ins, rfl⟩ := mem_iff_getElem.mp mem
  have length : CHARSET.length = 32 := by decide +kernel
  exact ⟨w, length ▸ ins, getD_eq_getElem _ _ ins⟩

lemma mapM_charsetRev (values : ∀ v_i ∈ v, v_i < 32) : (v.map charsetAt).mapM charsetRev = some v := by
  induction v with
  | nil => rfl
  | cons v_i rest ih =>
    obtain ⟨own, others⟩ := forall_mem_cons.mp values
    rw [map_cons, mapM_cons, (charset_spec _ own).2.2, ih others]
    rfl

lemma encode_eq (hrp) {values} (fiveBit : ∀ v_i ∈ values, v_i < 32) :
    encode hrp values = hrp ++ '1' :: (values ++ createChecksum hrp values).map charsetAt := by
  rw [encode, if_neg]
  rw [any_eq_true]
  rintro ⟨v_i, mem, large⟩
  have value := forall_mem_append.mpr ⟨fiveBit, groups_lt _⟩ v_i mem
  simp at large
  omega

section
variable {hrp : List Char} (printable : ∀ c ∈ hrp, Lowercase c)
include printable

lemma expandHRP_lt : ∀ v_i ∈ expandHRP hrp, v_i < 32 := by
  refine forall_mem_append.mpr ⟨?_, forall_mem_cons.mpr ⟨by decide, ?_⟩⟩ <;> intro v_i mem <;> obtain ⟨c, ins, rfl⟩ := mem_map.mp mem
  · rw [shiftRight_eq_div_pow]
    have := printable c ins
    omega
  · exact Nat.and_lt_two_pow _ (by decide : 0x1f < 2 ^ 5)

lemma decode_string (ne : hrp ≠ []) (values : ∀ v_i ∈ v, v_i < 32) (long : 6 ≤ v.length)
    (short : hrp.length + (v.length + 1) ≤ 1023) :
    decode (hrp ++ '1' :: v.map charsetAt) =
      if polyMod (expandHRP hrp ++ v) = 1 then (hrp, v.take (v.length - 6)) else ([], []) := by
  have lower : ∀ c ∈ hrp ++ '1' :: v.map charsetAt, Lowercase c := by
    refine forall_mem_append.mpr ⟨printable, forall_mem_cons.mpr ⟨by decide, ?_⟩⟩
    intro c mem
    obtain ⟨w, ins, rfl⟩ := mem_map.mp mem
    exact (charset_spec w (values w ins)).1
  have found : (hrp ++ '1' :: v.map charsetAt).reverse.idxOf? '1' = some v.length := by
    have absent : (v.map charsetAt).reverse.findIdx? (· == '1') = none := by
      rw [findIdx?_eq_none_iff]
      intro c mem
      obtain ⟨w, ins, rfl⟩ := mem_map.mp (mem_reverse.mp mem)
      exact beq_false_of_ne (charset_spec w (values w ins)).2.1
    rw [idxOf?, reverse_append, reverse_cons, append_assoc, findIdx?_append, absent]
    simp [findIdx?_cons]
  have pos : (hrp ++ '1' :: v.map charsetAt).length - 1 - v.length = hrp.length := by
    rw [length_append, length_cons, length_map]
    omega
  have kept : hrp.map lowerCase = hrp := by
    refine (map_congr_left fun c mem => ?_).trans (map_id _)
    exact if_neg (by rw [(printable c mem).2.2]; decide)
  have data : (hrp ++ '1' :: v.map charsetAt).drop (hrp.length + 1) = v.map charsetAt := by
    rw [drop_append]
    simp
  rw [decode, if_neg, if_neg, found]
  · dsimp only
    rw [pos, if_neg, data, mapM_charsetRev values]
    · dsimp only
      rw [take_left' rfl, kept, verifyChecksum]
      simp only [beq_iff_eq]
    · simpa [ne, long] using short
  · rw [Bool.and_eq_true, any_eq_true, any_eq_true]
    rintro ⟨-, c, mem, upper⟩
    rw [(lower c mem).2.2] at upper
    cases upper
  · rw [any_eq_true]
    rintro ⟨c, mem, outside⟩
    have := lower c mem
    simp at outside
    omega
end

/-- The data part is what stands after the prefix and its '1', the checksum included. -/
theorem decode_encode {hrp : List Char} {values : List Nat} (nonempty : hrp ≠ [])
    (printable : ∀ c ∈ hrp, Lowercase c) (fiveBit : ∀ v_i ∈ values, v_i < 32)
    (short : (encode hrp values).length ≤ 1023) :
    decode (encode hrp values) = (hrp, values) ∧
    ∀ i c, hrp.length < i → i < (encode hrp values).length → c ∈ CHARSET → (encode hrp values)[i]? ≠ some c →
      decode ((encode hrp values).set i c) = ([], []) := by
  have six : (createChecksum hrp values).length = 6 := rfl
  have combined : ∀ v_i ∈ values ++ createChecksum hrp values, v_i < 32 := forall_mem_append.mpr ⟨fiveBit, groups_lt _⟩
  have expanded := expandHRP_lt printable
  have checked : polyMod (expandHRP hrp ++ (values ++ createChecksum hrp values)) = 1 := by
    rw [← append_assoc]
    exact polyMod_groups (forall_mem_append.mpr ⟨expanded, fiveBit⟩) rfl
  rw [encode_eq hrp fiveBit] at short ⊢
  simp only [length_append, length_cons, length_map, six] at short ⊢
  constructor
  · rw [decode_string printable nonempty combined (by simp [six]) (by simpa [six] using short), if_pos checked, length_append, six]
    simp
  · intro i c after inside member other
    obtain ⟨w, value, rfl⟩ := charset_value member
    obtain ⟨j, rfl⟩ := Nat.exists_eq_add_of_lt after
    have place : hrp.length + j + 1 - hrp.length = j + 1 := by omega
    rw [getElem?_append_right (by omega), place, getElem?_cons_succ, getElem?_map] at other
    rw [set_append_right _ _ (by omega), place, set_cons_succ, ← map_set (f := charsetAt), decode_string printable nonempty]
    · rw [if_neg]
      rw [← checked, polyMod, polyMod, foldl_append, foldl_append]
      refine foldl_set_ne (foldl_lt (by decide) expanded) combined value ?_ fun same => other ?_
      · rw [length_append, six]
        omega
      · rw [same]
        rfl
    · intro v_i mem
      exact (mem_or_eq_of_mem_set mem).elim (combined v_i) (· ▸ value)
    · simp [six]
    · simpa [six] using short

theorem decode_encode_short : decode (encode ['p'] [0, 14, 31]) = (['p'], [0, 14, 31]) ∧
    decode ((encode ['p'] [0, 14, 31]).set 3 'q') = ([], []) := by
  have both := @decode_encode ['p'] [0, 14, 31] (by decide) (forall_mem_singleton.mpr (by decide)) (by decide) (by decide +kernel)
  exact ⟨both.1, both.2 3 'q' (by decide) (by decide +kernel) (by decide) (by decide +kernel)⟩

abbrev Printable (c : Char) : Prop := 33 ≤ c.toNat ∧ c.toNat ≤ 126

lemma lowerCase_ofNat : ∀ n < 127, 33 ≤ n → Lowercase (lowerCase (.ofNat n)) ∧
    ∀ w ∈ charsetRev (.ofNat n), w < 32 ∧ charsetAt w = lowerCase (.ofNat n) := by decide +kernel

lemma lowerCase_spec {c} (printable : Printable c) :
    Lowercase (lowerCase c) ∧ ∀ w ∈ charsetRev c, w < 32 ∧ charsetAt w = lowerCase c := by
  have spec := lowerCase_ofNat c.toNat (lt_succ_of_le printable.2) printable.1
  rwa [Char.ofNat_toNat] at spec

lemma charset_of_mapM {str : List Char} {v} (reads : str.mapM charsetRev = some v) (printable : ∀ c ∈ str, Printable c) :
    (∀ v_i ∈ v, v_i < 32) ∧ v.map charsetAt = str.map lowerCase := by
  induction str generalizing v with
  | nil =>
    cases reads
    exact ⟨nofun, rfl⟩
  | cons c str ih =>
    obtain ⟨own, others⟩ := forall_mem_cons.mp printable
    simp only [mapM_cons, Option.bind_eq_bind, Option.bind_eq_some_iff] at reads
    obtain ⟨w, read, rest, later, same⟩ := reads
    cases same
    obtain ⟨values, chars⟩ := ih later others
    obtain ⟨value, char⟩ := (lowerCase_spec own).2 w read
    exact ⟨forall_mem_cons.mpr ⟨value, values⟩, by rw [map_cons, map_cons, char, chars]⟩

lemma pack_injective {c d : List Nat} {x y} (length : c.length = d.length) (fst : ∀ a ∈ c, a < 32) (snd : ∀ a ∈ d, a < 32)
    (same : c.foldl (fun x v_i => x <<< 5 ^^^ v_i) x = d.foldl (fun x v_i => x <<< 5 ^^^ v_i) y) : x = y ∧ c = d := by
  induction c generalizing d x y with
  | nil =>
    cases length_eq_zero_iff.mp length.symm
    exact ⟨same, rfl⟩
  | cons a c ih =>
    obtain ⟨b, d, rfl⟩ := exists_cons_of_length_eq_add_one length.symm
    obtain ⟨own, others⟩ := forall_mem_cons.mp fst
    obtain ⟨own', others'⟩ := forall_mem_cons.mp snd
    obtain ⟨first, rfl⟩ := ih (succ.inj length) others others' same
    have low := congrArg (· % 2 ^ 5) first
    simp only [xor_mod_two_pow, shiftLeft_eq, Nat.mul_mod_left, Nat.zero_xor] at low
    obtain rfl : a = b := by omega
    rw [Nat.xor_left_inj, shiftLeft_eq, shiftLeft_eq] at first
    exact ⟨by omega, rfl⟩

lemma polyMod_append (v) {c : List Nat} (six : c.length = 6) (values : ∀ a ∈ c, a < 32) :
    polyMod (v ++ c) = polyMod (v ++ replicate 6 0) ^^^ c.foldl (fun x v_i => x <<< 5 ^^^ v_i) 0 := by
  have added := foldl_xor (x := 0) (n := 0) (polyMod v) (by decide) values (by omega)
  rw [six, Nat.xor_zero] at added
  simpa only [polyMod, foldl_append] using added

/-- The last six values are the ones that `CreateChecksum` gives for the others. -/
lemma encode_checked {front str : List Char} {values} (printable : ∀ c ∈ front ++ str, Printable c) (long : 6 ≤ str.length)
    (reads : str.mapM charsetRev = some values) (checks : verifyChecksum (front.map lowerCase) values = true) :
    encode (front.map lowerCase) (values.take (values.length - 6)) = (front ++ '1' :: str).map lowerCase := by
  obtain ⟨first, second⟩ := forall_mem_append.mp printable
  obtain ⟨fiveBit, chars⟩ := charset_of_mapM reads second
  have six : (values.drop (values.length - 6)).length = 6 := by
    have length := congrArg List.length chars
    simp only [length_map] at length
    rw [length_drop]
    omega
  have data : ∀ v_i ∈ values.take (values.length - 6), v_i < 32 := fun v_i mem => fiveBit v_i (mem_of_mem_take mem)
  have sum : ∀ v_i ∈ values.drop (values.length - 6), v_i < 32 := fun v_i mem => fiveBit v_i (mem_of_mem_drop mem)
  have lower : ∀ c ∈ front.map lowerCase, Lowercase c := forall_mem_map.mpr fun c mem => (lowerCase_spec (first c mem)).1
  have own := polyMod_groups (forall_mem_append.mpr ⟨expandHRP_lt lower, data⟩) rfl
  rw [verifyChecksum, beq_iff_eq, ← take_append_drop (values.length - 6) values, ← append_assoc, polyMod_append _ six sum, ← own,
    polyMod_append _ rfl (groups_lt _), Nat.xor_right_inj] at checks
  obtain ⟨-, same⟩ := pack_injective six sum (groups_lt _) checks
  rw [encode_eq _ data, createChecksum, ← same, take_append_drop, chars, map_append]
  rfl

/-- Whatever is accepted is what `Encode` writes for it, up to the case of the letters. -/
theorem encode_decode (str : List Char) : decode str = ([], []) ∨ encode (decode str).1 (decode str).2 = str.map lowerCase := by
  unfold decode
  split
  · exact .inl rfl
  next inside =>
  split
  · exact .inl rfl
  split
  · exact .inl rfl
  next back found =>
  dsimp only
  split
  · exact .inl rfl
  next long =>
  split
  · exact .inl rfl
  next values reads =>
  split
  · next checks =>
    obtain ⟨ins, one, -⟩ := findIdx?_eq_some_iff_getElem.mp found
    rw [getElem_reverse, beq_iff_eq] at one
    have cut : str = str.take (str.length - 1 - back) ++ '1' :: str.drop (str.length - 1 - back + 1) := by
      rw [← one, ← drop_eq_getElem_cons, take_append_drop]
    simp only [Bool.or_eq_true, decide_eq_true_eq, not_or, not_lt] at long
    refine .inr ((encode_checked ?_ ?_ reads checks).trans (congrArg _ cut.symm))
    · intro c mem
      have : c ∈ str := (mem_append.mp mem).elim mem_of_mem_take mem_of_mem_drop
      grind
    · rw [length_drop]
      omega
  · exact .inl rfl

end Peony.Bech32
