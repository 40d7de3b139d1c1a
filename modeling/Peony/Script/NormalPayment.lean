import Peony.Primitives.Script

/-! The scripts that `IsNormalPaymentScript` takes for payments to a public key hash. -/

namespace Peony

def IsPayToPubKeyHash (script : CScript) : Prop :=
  ∃ id : List UInt8, id.length = 20 ∧ script = OP_DUP :: OP_HASH160 :: 0x14 :: id ++ [OP_EQUALVERIFY, OP_CHECKSIG]

/-- Of 25 bytes, with a third operation `opcode` that leaves nothing but the start of the proper ending. -/
def ThirdOperation (script : CScript) (opcode : UInt8) : Prop :=
  ∃ pc, script = OP_DUP :: OP_HASH160 :: opcode :: pc ∧ pc.length = 22 ∧ (getOp (opcode :: pc)).2 <+: [OP_EQUALVERIFY, OP_CHECKSIG]

lemma getOp_fst (opcode pc) : (getOp (opcode :: pc)).1 = opcode ∨ (getOp (opcode :: pc)).1 = OP_INVALIDOPCODE := by
  unfold getOp skipOperand
  grind

variable {script : CScript} {plain : UInt8} {i : Nat}
/-- Where the loop asks for an operation without operand, it goes on behind that byte. -/
lemma normalPaymentOps_cons (high : OP_PUSHDATA4 < plain) (valid : plain ≠ OP_INVALIDOPCODE)
    (asks : ∀ opcode, normalPaymentOp i opcode = (opcode == plain)) (left) (opcode) (pc) :
    normalPaymentOps (left + 1) i (opcode :: pc) = true ↔ opcode = plain ∧ normalPaymentOps left (i + 1) pc = true := by
  simp only [normalPaymentOps, asks, List.isEmpty_cons, Bool.false_or, Bool.and_eq_true, beq_iff_eq]
  constructor
  · rintro ⟨read, rest⟩
    rcases getOp_fst opcode pc with own | invalid
    · rw [own] at read
      rw [read, getOp, if_pos high] at rest
      exact ⟨read, rest⟩
    · exact absurd (read.symm.trans invalid) valid
  · rintro ⟨rfl, rest⟩
    rw [getOp, if_pos high]
    exact ⟨rfl, rest⟩

lemma normalPaymentOps_ending (pc) : normalPaymentOps 3 3 pc = true ↔ pc <+: [OP_EQUALVERIFY, OP_CHECKSIG] := by
  have fourth := normalPaymentOps_cons (i := 3) (show OP_PUSHDATA4 < OP_EQUALVERIFY by decide) (by decide) (fun _ => rfl) 2
  have fifth := normalPaymentOps_cons (i := 4) (show OP_PUSHDATA4 < OP_CHECKSIG by decide) (by decide) (fun _ => rfl) 1
  match pc with
  | [] => simp [normalPaymentOps]
  | [a] =>
    rw [fourth]
    simp [normalPaymentOps]
  | [a, b] =>
    rw [fourth, fifth]
    simp [normalPaymentOps]
  | a :: b :: c :: pc =>
    rw [fourth, fifth]
    simp [normalPaymentOps, normalPaymentOp]

lemma isNormalPaymentScript_iff_exists : isNormalPaymentScript script = true ↔ ∃ opcode, ThirdOperation script opcode := by
  have first := normalPaymentOps_cons (i := 0) (show OP_PUSHDATA4 < OP_DUP by decide) (by decide) (fun _ => rfl) 5
  have snd := normalPaymentOps_cons (i := 1) (show OP_PUSHDATA4 < OP_HASH160 by decide) (by decide) (fun _ => rfl) 4
  rw [isNormalPaymentScript, Bool.and_eq_true, beq_iff_eq]
  rcases script with _ | ⟨a, _ | ⟨b, _ | ⟨opcode, pc⟩⟩⟩
  iterate 3 simp [ThirdOperation]
  have third : normalPaymentOps 4 2 (opcode :: pc) = normalPaymentOps 3 3 (getOp (opcode :: pc)).2 := by
    simp [normalPaymentOps, normalPaymentOp]
  rw [first, snd, third, normalPaymentOps_ending]
  constructor
  · rintro ⟨size, rfl, rfl, ending⟩
    exact ⟨opcode, pc, rfl, by simpa using size, ending⟩
  · rintro ⟨_, _, form, size, ending⟩
    cases form
    exact ⟨by simp [size], rfl, rfl, ending⟩

lemma isPayToPubKeyHash_iff : IsPayToPubKeyHash script ↔ ThirdOperation script 0x14 := by
  have read (pc : CScript) (size : pc.length = 22) : (getOp (0x14 :: pc)).2 = pc.drop 20 := by
    rw [getOp, if_neg (by decide), if_pos (by decide), skipOperand, if_neg (by simp [size])]
    rfl
  constructor
  · rintro ⟨id, size, rfl⟩
    refine ⟨id ++ [OP_EQUALVERIFY, OP_CHECKSIG], rfl, by simp [size], ?_⟩
    have ending : (id ++ [OP_EQUALVERIFY, OP_CHECKSIG]).drop 20 = [OP_EQUALVERIFY, OP_CHECKSIG] := List.drop_left' size
    simp only [read _ (show (id ++ [OP_EQUALVERIFY, OP_CHECKSIG]).length = 22 by simp [size]), ending, List.prefix_rfl]
  · rintro ⟨pc, rfl, size, ending⟩
    rw [read pc size] at ending
    refine ⟨pc.take 20, by simp [size], ?_⟩
    rw [← ending.eq_of_length (by simp [size])]
    simp

theorem isNormalPaymentScript_iff : (isNormalPaymentScript script = true ↔ IsPayToPubKeyHash script) ↔
    ∀ opcode, ThirdOperation script opcode → opcode = 0x14 := by
  rw [isNormalPaymentScript_iff_exists, isPayToPubKeyHash_iff]
  constructor
  · intro same opcode third
    obtain ⟨pc', form', -⟩ := same.mp ⟨opcode, third⟩
    obtain ⟨pc, form, -⟩ := third
    grind
  · intro only
    constructor
    · rintro ⟨opcode, third⟩
      exact only opcode third ▸ third
    · intro third
      exact ⟨_, third⟩

theorem isNormalPaymentScript_of_long_push : isNormalPaymentScript (OP_DUP :: OP_HASH160 :: 0x16 :: List.replicate 22 0) = true ∧
    ¬IsPayToPubKeyHash (OP_DUP :: OP_HASH160 :: 0x16 :: List.replicate 22 0) := by
  refine ⟨by decide, ?_⟩
  rintro ⟨id, size, form⟩
  simp at form

end Peony
