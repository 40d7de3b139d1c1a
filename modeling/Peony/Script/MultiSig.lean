import Peony.Library.Assignment
import Peony.Library.Except
import Peony.Script.Interpreter

/-! OP_CHECKMULTISIG: the counts it reads, the calls it makes and what it decides. -/

namespace Peony
open Assignment

section
variable {flags : Nat} {stack : List valtype} {nOpCount nKeys nSigs : Nat}
lemma multiSigCounts_eq_ok : multiSigCounts flags stack nOpCount = .ok (nKeys, nSigs) ↔
      countAt flags stack 1 = .ok (nKeys : Int) ∧ countAt flags stack (2 + nKeys) = .ok (nSigs : Int) ∧ nKeys ≤ 20 ∧ nSigs ≤ nKeys ∧
        nOpCount + nKeys ≤ 201 ∧ 3 + nKeys + nSigs ≤ stack.length := by
  constructor
  · intro runs
    unfold multiSigCounts at runs
    split at runs
    · cases runs
    obtain ⟨nKeysCount, keysRead, runs⟩ := Except.bind_eq_ok.mp runs
    split at runs
    · cases runs
    next keysInRange =>
    dsimp only at runs
    split at runs
    · cases runs
    next fewOps =>
    split at runs
    · cases runs
    obtain ⟨nSigsCount, sigsRead, runs⟩ := Except.bind_eq_ok.mp runs
    split at runs
    · cases runs
    next sigsInRange => grind
  · intro ⟨keysRead, sigsRead, _, _, _, _⟩
    unfold multiSigCounts
    rw [if_neg (by omega), keysRead]
    change (if (nKeys : Int) < 0 ∨ (nKeys : Int) > 20 then _ else _) = _
    rw [if_neg (by omega), Int.toNat_natCast, if_neg (by omega), if_neg (by omega), sigsRead]
    change (if (nSigs : Int) < 0 ∨ (nSigs : Int) > nKeys then _ else _) = _
    rw [if_neg (by omega), Int.toNat_natCast, if_neg (by omega)]

lemma countAt_of_number {i n : Nat} {vch} (place : stack.getD (i - 1) [] = vch)
    (number : scriptNumOf vch (hasFlag flags SCRIPT_VERIFY_MINIMALDATA) nDefaultMaxNumSize = some (n : Int)) (small : n ≤ 20) :
    countAt flags stack i = .ok (n : Int) := by
  have inRange : getint n = n := by
    unfold getint
    rw [if_neg (by omega), if_neg (by omega)]
  unfold countAt numberAt
  rw [place, number]
  exact congrArg Except.ok inRange
end

lemma hasFlag_or (flags a b : Nat) : hasFlag flags (a ||| b) = (hasFlag flags a || hasFlag flags b) := by
  rw [Bool.eq_iff_iff]
  simp [hasFlag, Nat.and_or_distrib_left, Nat.or_eq_zero_iff, or_iff_not_imp_left]

section
variable {crypto : Crypto} {checker : SignatureChecker} {flags : Nat} {sigversion : SigVersion}
lemma checkEncodings_of_noFlag
    (noEncoding : hasFlag flags (SCRIPT_VERIFY_DERSIG ||| SCRIPT_VERIFY_LOW_S ||| SCRIPT_VERIFY_STRICTENC) = false)
    (vchSig vchPubKey) : checkEncodings crypto flags vchSig vchPubKey = .ok () := by
  have lowS : hasFlag flags SCRIPT_VERIFY_LOW_S = false := by
    rw [hasFlag_or, hasFlag_or] at noEncoding
    simp_all
  have strict : hasFlag flags SCRIPT_VERIFY_STRICTENC = false := by
    rw [hasFlag_or] at noEncoding
    simp_all
  have sigFine : checkSignatureEncoding crypto flags vchSig = .ok () := by simp [checkSignatureEncoding, noEncoding, lowS, strict]
  have keyFine : checkPubKeyEncoding flags vchPubKey = .ok () := by simp [checkPubKeyEncoding, strict]
  unfold checkEncodings
  rw [sigFine, keyFine]
  rfl

variable (crypto checker sigversion)
variable (noEncoding : hasFlag flags (SCRIPT_VERIFY_DERSIG ||| SCRIPT_VERIFY_LOW_S ||| SCRIPT_VERIFY_STRICTENC) = false)
  (scriptCode : CScript) (sigs keys : List valtype) (checked : List SigCheck)
include noEncoding scriptCode sigs keys checked

/-- Without encoding flags the loop is the greedy search for an assignment. -/
lemma multiSigLoop_eq_greedy : ∃ after, multiSigLoop crypto checker flags sigversion scriptCode sigs keys checked =
      .ok (greedy (fun vchSig vchPubKey => checker.checkSig vchSig vchPubKey scriptCode sigversion) sigs keys, after) := by
  induction keys generalizing sigs checked with
  | nil =>
    cases sigs with
    | nil => exact ⟨_, rfl⟩
    | cons vchSig sigs => exact ⟨_, rfl⟩
  | cons vchPubKey keys ih =>
    cases sigs with
    | nil => exact ⟨_, rfl⟩
    | cons vchSig sigs =>
      unfold multiSigLoop greedy
      rw [checkEncodings_of_noFlag noEncoding]
      dsimp only
      generalize (if checker.checkSig .. = true then sigs else vchSig :: sigs) = left
      split
      · exact ⟨_, rfl⟩
      · exact ih _ _

lemma multiSigLoop_decides :
    ∃ fSuccess after, multiSigLoop crypto checker flags sigversion scriptCode sigs keys checked = .ok (fSuccess, after) ∧
      (fSuccess = true ↔
        Assignment.Assigned (fun vchSig vchPubKey => checker.checkSig vchSig vchPubKey scriptCode sigversion) sigs keys) := by
  obtain ⟨after, loop⟩ := multiSigLoop_eq_greedy _ _ _ noEncoding ..
  exact ⟨_, _, loop, greedy_iff _ _⟩
end

variable {crypto : Crypto} {checker : SignatureChecker} {flags : Nat} {sigversion : SigVersion}
/-- Whether the signatures can be assigned to keys in their order, each accepted by its key. -/
theorem checkmultisig_m_of_n (s : EvalState) (keys sigs : List valtype) (vchKeys vchSigs dummy : valtype) (rest : List valtype)
    (fewKeys : keys.length ≤ 20) (fewSigs : sigs.length ≤ keys.length)
    (noEncoding : hasFlag flags (SCRIPT_VERIFY_DERSIG ||| SCRIPT_VERIFY_LOW_S ||| SCRIPT_VERIFY_STRICTENC) = false)
    (nullDummy : hasFlag flags SCRIPT_VERIFY_NULLDUMMY = false ∨ dummy = [])
    (nKeys : scriptNumOf vchKeys (hasFlag flags SCRIPT_VERIFY_MINIMALDATA) nDefaultMaxNumSize = some (keys.length : Int))
    (nSigs : scriptNumOf vchSigs (hasFlag flags SCRIPT_VERIFY_MINIMALDATA) nDefaultMaxNumSize = some (sigs.length : Int))
    (arguments : s.stack = vchKeys :: keys.reverse ++ vchSigs :: sigs.reverse ++ dummy :: rest)
    (limit : s.nOpCount + keys.length ≤ 201) :
    ∃ fSuccess checked,
      execute crypto checker flags sigversion OP_CHECKMULTISIG true s =
        .ok { s with stack := boolVch fSuccess :: rest, nOpCount := s.nOpCount + keys.length, checked } ∧
      (fSuccess = true ↔ ∃ f : Fin sigs.length ↪o Fin keys.length, ∀ i,
        checker.checkSig (sigs.get i) (keys.get (f i)) (dropSignatures s.pbegincodehash sigs.reverse) sigversion = true) := by
  have stack : s.stack = vchKeys :: (keys.reverse ++ vchSigs :: (sigs.reverse ++ dummy :: rest)) := by simp [arguments]
  have counts : multiSigCounts flags s.stack s.nOpCount = .ok (keys.length, sigs.length) := by
    refine multiSigCounts_eq_ok.mpr ⟨?_, ?_, fewKeys, fewSigs, limit, by simp [stack]; omega⟩
    · exact countAt_of_number (by simp [stack]) nKeys fewKeys
    · refine countAt_of_number ?_ nSigs (by omega)
      rw [stack, show 2 + keys.length - 1 = keys.length + 1 by omega]
      simp
  have keysTaken : (s.stack.drop 1).take keys.length = keys.reverse := by simp [stack]
  have behindKeys : s.stack.drop (2 + keys.length) = sigs.reverse ++ dummy :: rest := by
    rw [stack, show 2 + keys.length = keys.reverse.length + 1 + 1 by simp; omega]
    rw [List.drop_succ_cons, List.drop_append]
    simp
  have sigsTaken : (s.stack.drop (2 + keys.length)).take sigs.length = sigs.reverse := by simp [behindKeys]
  have left : s.stack.drop (2 + keys.length + sigs.length) = dummy :: rest := by
    rw [← List.drop_drop, behindKeys]
    simp
  have dummyFine : (hasFlag flags SCRIPT_VERIFY_NULLDUMMY && !dummy.isEmpty) = false := by
    rcases nullDummy with clear | empty
    · simp [clear]
    · simp [empty]
  obtain ⟨fSuccess, checked, loop, decides⟩ := multiSigLoop_decides crypto _ _ noEncoding
    _ _ _ s.checked
  rw [assigned_reverse, assigned_iff_embedding] at decides
  refine ⟨_, checked, ?_, decides⟩
  change opCheckMultiSig _ _ _ _ _ s = _
  unfold opCheckMultiSig
  rw [counts]
  simp only [keysTaken, sigsTaken, loop, left, dummyFine]
  rfl

def twoOfThree : EvalState where
  pc := []
  pbegincodehash := [OP_CHECKMULTISIG]
  vfExec := []
  stack := [[3], [13], [12], [11], [2], [13], [11], [], [7]]
  altstack := []
  nOpCount := 1
  checked := []

def mirrorChecker : SignatureChecker := ⟨fun vchSig vchPubKey _ _ => vchSig == vchPubKey, fun _ => true⟩
def mirrorCrypto : Crypto := ⟨id, id, id, id, id, fun _ => true⟩

theorem checkmultisig_two_of_three : ∃ fSuccess checked,
    execute mirrorCrypto mirrorChecker 0 .SIGVERSION_BASE OP_CHECKMULTISIG true twoOfThree =
      .ok { twoOfThree with stack := boolVch fSuccess :: [[7]], nOpCount := 4, checked } ∧
    (fSuccess = true ↔ ∃ f : Fin 2 ↪o Fin 3, ∀ i,
      mirrorChecker.checkSig ([[11], [13]].get i) ([[11], [12], [13]].get (f i)) (dropSignatures [OP_CHECKMULTISIG] [[13], [11]])
        .SIGVERSION_BASE = true) :=
  checkmultisig_m_of_n twoOfThree [[11], [12], [13]] [[11], [13]] [3] [2] [] [[7]] (by decide) (by decide) (by decide) (by decide)
    (by decide) (by decide) rfl (by decide)

end Peony
