import Peony.Library.EarlyReturn
import Peony.Script.SigOps
import Peony.Script.Standard

/-! `AreInputsStandard`: the policy on the inputs of a transaction (policy/policy.cpp). -/

namespace Peony
open EarlyReturn

def MAX_P2SH_SIGOPS : Nat := 15

variable (crypto : Crypto) (mapInputs : CCoinsView) (txin : CTxIn)
/-- Reading fills the cache, which no later read can tell. -/
def prevScript : CScript := (mapInputs.accessCoin txin.prevout).1.out.scriptPubKey

def pushedStack : Except ScriptError (List valtype) :=
  (evalScript crypto BaseSignatureChecker SCRIPT_VERIFY_NONE .SIGVERSION_BASE [] txin.scriptSig).outcome

def checkInputStandard : Option Bool :=
  match solver (prevScript mapInputs txin) with
  | none => some false
  | some (whichType, vSolutions) =>
    let nArgsExpected := scriptSigArgsExpected whichType vSolutions
    if nArgsExpected < 0 then some false
    else
      match pushedStack crypto txin with
      | .error _ => some false
      | .ok stack =>
        if whichType = .TX_SCRIPTHASH then
          match stack with
          | [] => some false
          | subscript :: _ =>
            match solver subscript with
            | some (whichType2, vSolutions2) =>
              let tmpExpected := scriptSigArgsExpected whichType2 vSolutions2
              if tmpExpected < 0 then some false
              else if (stack.length : Int) ≠ nArgsExpected + tmpExpected then some false else none
            | none => some (decide (getSigOpCount subscript true ≤ MAX_P2SH_SIGOPS))
        else if (stack.length : Int) ≠ nArgsExpected then some false else none

def areInputsStandard (tx : CTransaction) : Bool :=
  if tx.isCoinBase then true else firstReturn (checkInputStandard crypto mapInputs) tx.vin

/-- For a script hash one more than the redeem script expects. -/
def ExpectsArgs (whichType : txnouttype) (vSolutions stack : List valtype) (n : Int) : Prop :=
  if whichType = .TX_SCRIPTHASH then
    ∃ subscript whichType2 vSolutions2, stack.head? = some subscript ∧ solver subscript = some (whichType2, vSolutions2) ∧
      0 ≤ scriptSigArgsExpected whichType2 vSolutions2 ∧
      n = scriptSigArgsExpected whichType vSolutions + scriptSigArgsExpected whichType2 vSolutions2
  else n = scriptSigArgsExpected whichType vSolutions

/-- A script hash with an unsolvable redeem script of few enough operations. -/
def UnsolvableRedeem : Prop :=
  ∃ vSolutions stack subscript, solver (prevScript mapInputs txin) = some (.TX_SCRIPTHASH, vSolutions) ∧
    pushedStack crypto txin = .ok stack ∧ stack.head? = some subscript ∧ solver subscript = none ∧
    getSigOpCount subscript true ≤ MAX_P2SH_SIGOPS

def InputStandard : Prop :=
  (∃ whichType vSolutions stack, solver (prevScript mapInputs txin) = some (whichType, vSolutions) ∧
    0 ≤ scriptSigArgsExpected whichType vSolutions ∧ pushedStack crypto txin = .ok stack ∧
    ExpectsArgs whichType vSolutions stack stack.length) ∨
  UnsolvableRedeem crypto mapInputs txin

variable {crypto mapInputs txin}
lemma checkInputStandard_eq_true : checkInputStandard crypto mapInputs txin = some true ↔ UnsolvableRedeem crypto mapInputs txin := by
  constructor
  · intro returns
    unfold checkInputStandard at returns
    split at returns
    · cases returns
    next whichType vSolutions solved =>
    dsimp only at returns
    split at returns
    · cases returns
    split at returns
    · cases returns
    next stack pushed =>
    split at returns
    · next hash =>
      split at returns
      · cases returns
      next subscript rest =>
      split at returns
      · grind
      · next unsolvable =>
        have few : getSigOpCount subscript true ≤ MAX_P2SH_SIGOPS := by simpa using returns
        exact ⟨_, _, _, hash ▸ solved, pushed, rfl, unsolvable, few⟩
    · grind
  · intro ⟨_, _, _, solved, pushed, top, unsolvable, few⟩
    obtain ⟨rest, rfl⟩ := List.head?_eq_some_iff.mp top
    simp [checkInputStandard, solved, pushed, unsolvable, few, scriptSigArgsExpected]

lemma checkInputStandard_eq_none : checkInputStandard crypto mapInputs txin = none ↔
    ∃ whichType vSolutions stack, solver (prevScript mapInputs txin) = some (whichType, vSolutions) ∧
      0 ≤ scriptSigArgsExpected whichType vSolutions ∧ pushedStack crypto txin = .ok stack ∧
      ExpectsArgs whichType vSolutions stack stack.length := by
  constructor
  · intro goesOn
    unfold checkInputStandard at goesOn
    split at goesOn
    · cases goesOn
    next whichType vSolutions solved => grind [ExpectsArgs]
  · intro ⟨_, _, _, solved, defined, pushed, exact⟩
    unfold ExpectsArgs at exact
    split at exact
    · next hash =>
      obtain ⟨subscript, whichType2, vSolutions2, top, solved2, defined2, exact⟩ := exact
      obtain ⟨rest, rfl⟩ := List.head?_eq_some_iff.mp top
      subst hash
      rw [List.length_cons] at exact
      simp [checkInputStandard, solved, pushed, solved2, Int.not_lt.mpr defined, Int.not_lt.mpr defined2, exact]
    · next notHash => simp [checkInputStandard, solved, pushed, notHash, Int.not_lt.mpr defined, exact]

lemma inputStandard_iff : InputStandard crypto mapInputs txin ↔ checkInputStandard crypto mapInputs txin ≠ some false := by
  rw [InputStandard, ← checkInputStandard_eq_none, ← checkInputStandard_eq_true]
  cases checkInputStandard _ _ _ with
  | none => simp
  | some value => cases value <;> simp

lemma isCoinBase_eq_true {tx : CTransaction} : tx.isCoinBase = true ↔ ∃ txin, tx.vin = [txin] ∧ txin.prevout.isNull = true := by
  unfold CTransaction.isCoinBase
  split
  · next txin only => simp [only]
  · grind

lemma isCoinBase_perm {tx : CTransaction} {vin} (perm : vin.Perm tx.vin) : { tx with vin }.isCoinBase = tx.isCoinBase := by
  have same (txin : CTxIn) : vin = [txin] ↔ tx.vin = [txin] := by simpa [← List.perm_singleton] using ⟨perm.symm.trans, perm.trans⟩
  rw [Bool.eq_iff_iff, isCoinBase_eq_true, isCoinBase_eq_true]
  exact exists_congr fun txin => and_congr_left fun _ => same _

variable (crypto : Crypto) (mapInputs : CCoinsView) (tx : CTransaction)
lemma areInputsStandard_sound_iff :
    (areInputsStandard crypto mapInputs tx = true → ∀ txin ∈ tx.vin, checkInputStandard crypto mapInputs txin ≠ some false) ↔
      ∀ pre txin after, tx.vin = pre ++ txin :: after → checkInputStandard crypto mapInputs txin = some false →
        (∀ earlier ∈ pre, checkInputStandard crypto mapInputs earlier ≠ some false) →
        tx.isCoinBase = false ∧ ∀ earlier ∈ pre, checkInputStandard crypto mapInputs earlier ≠ some true := by
  unfold areInputsStandard
  cases tx.isCoinBase with
  | true =>
    constructor
    · grind
    · intro never _ txin mem fails
      obtain ⟨pre, first, after, split, failed, passed⟩ := exists_first_failure ⟨_, mem, fails⟩
      cases (never _ _ _ split failed passed).1
  | false =>
    simp only [true_and]
    exact firstReturn_sound_iff

lemma areInputsStandard_perm_iff :
    (∀ vin, vin.Perm tx.vin → areInputsStandard crypto mapInputs { tx with vin } = areInputsStandard crypto mapInputs tx) ↔
      (∀ txin ∈ tx.vin, checkInputStandard crypto mapInputs txin ≠ some false) ∨
        ∀ txin ∈ tx.vin, checkInputStandard crypto mapInputs txin ≠ some true := by
  cases coinbase : tx.isCoinBase with
  | true =>
    -- the one input of a coinbase has one order
    obtain ⟨only, alone, -⟩ := isCoinBase_eq_true.mp coinbase
    have single : (∀ txin ∈ tx.vin, checkInputStandard crypto mapInputs txin ≠ some false) ∨
        ∀ txin ∈ tx.vin, checkInputStandard crypto mapInputs txin ≠ some true := by grind
    refine iff_of_true (fun vin perm => ?_) single
    rw [alone, List.perm_singleton] at perm
    rw [perm, ← alone]
  | false =>
    rw [← firstReturn_perm_iff]
    refine forall₂_congr fun vin perm => ?_
    simp [areInputsStandard, isCoinBase_perm perm, coinbase]

/-- Acceptance means the rule for every input exactly when the first that breaks it is no coinbase's and behind no
early return; the order is irrelevant exactly when all satisfy it or none returns early. -/
theorem inputs_standard_iff : ((areInputsStandard crypto mapInputs tx = true → ∀ txin ∈ tx.vin, InputStandard crypto mapInputs txin) ↔
      ∀ before txin after, tx.vin = before ++ txin :: after → ¬InputStandard crypto mapInputs txin →
        (∀ earlier ∈ before, InputStandard crypto mapInputs earlier) →
        tx.isCoinBase = false ∧ ∀ earlier ∈ before, ¬UnsolvableRedeem crypto mapInputs earlier) ∧
    ((∀ vin, vin.Perm tx.vin → areInputsStandard crypto mapInputs { tx with vin } = areInputsStandard crypto mapInputs tx) ↔
      (∀ txin ∈ tx.vin, InputStandard crypto mapInputs txin) ∨ ∀ txin ∈ tx.vin, ¬UnsolvableRedeem crypto mapInputs txin) := by
  simp only [inputStandard_iff, ← checkInputStandard_eq_true, ne_eq, not_not]
  exact ⟨areInputsStandard_sound_iff _ _ tx, areInputsStandard_perm_iff _ _ tx⟩

def hashCoin : Coin := ⟨false, false, ⟨1, OP_HASH160 :: 0x14 :: List.replicate 20 0 ++ [OP_EQUAL]⟩, 1⟩
def bareCoin : Coin := ⟨false, false, ⟨1, [OP_1]⟩, 1⟩
def hashView : CCoinsView := .db ⟨0, ((∅ : CoinMap).insert ⟨1, 0⟩ hashCoin).insert ⟨2, 0⟩ bareCoin⟩

/-- The first input redeems `OP_1`; the coin of the second has no standard script. -/
def earlyReturnTx : CTransaction := ⟨1, [⟨⟨1, 0⟩, [1, OP_1], 0⟩, ⟨⟨2, 0⟩, [], 0⟩], [], 0⟩

theorem early_return_accepts : areInputsStandard mirrorCrypto hashView earlyReturnTx = true ∧
      ¬(∀ txin ∈ earlyReturnTx.vin, InputStandard mirrorCrypto hashView txin) ∧
      areInputsStandard mirrorCrypto hashView { earlyReturnTx with vin := earlyReturnTx.vin.reverse } = false := by
  refine ⟨by decide, ?_, by decide⟩
  have refused : checkInputStandard mirrorCrypto hashView ⟨⟨2, 0⟩, [], 0⟩ = some false := by decide
  intro all
  exact inputStandard_iff.mp (all ⟨⟨2, 0⟩, [], 0⟩ (by simp [earlyReturnTx])) refused

end Peony
