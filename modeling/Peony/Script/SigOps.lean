import Peony.Script.MultiSig
import Peony.Validation.CheckBlock

/-! `GetSigOpCount` counts signature operations without running a script. The count bounds the signature checks of every run. -/

namespace Peony
open List Nat

section
def sigOpsOf (fAccurate : Bool) (lastOpcode opcode : UInt8) : Nat :=
  if opcode = OP_CHECKSIG ∨ opcode = OP_CHECKSIGVERIFY then 1
  else if opcode = OP_CHECKMULTISIG ∨ opcode = OP_CHECKMULTISIGVERIFY then
    if fAccurate ∧ lastOpcode ≥ OP_1 ∧ lastOpcode ≤ OP_16 then decodeOpN lastOpcode else 20
  else 0

def sigOpCountFrom (fAccurate : Bool) : (fuel : Nat) → CScript → UInt8 → Nat → Nat
  | 0, _, _, n => n
  | fuel + 1, pc, lastOpcode, n =>
    let read := getOp2 pc
    if !read.fRet then n
    else sigOpCountFrom fAccurate fuel read.pc read.opcodeRet ((n + sigOpsOf fAccurate lastOpcode read.opcodeRet) % 2 ^ 32)

def getSigOpCount (script : CScript) (fAccurate : Bool) : Nat := sigOpCountFrom fAccurate script.length script OP_INVALIDOPCODE 0

def sigOpSum (fAccurate : Bool) : (fuel : Nat) → CScript → UInt8 → Nat
  | 0, _, _ => 0
  | fuel + 1, pc, lastOpcode =>
    let read := getOp2 pc
    if !read.fRet then 0 else sigOpsOf fAccurate lastOpcode read.opcodeRet + sigOpSum fAccurate fuel read.pc read.opcodeRet

def addUnsigned (n m : Nat) : Nat := (n + m) % 2 ^ 32

def getLegacySigOpCount (tx : CTransaction) : Nat :=
  let nSigOps := tx.vin.foldl (fun nSigOps txin => addUnsigned nSigOps (getSigOpCount txin.scriptSig false)) 0
  tx.vout.foldl (fun nSigOps txout => addUnsigned nSigOps (getSigOpCount txout.scriptPubKey false)) nSigOps

variable (vtx : List CTransaction)
def blockSigOpCount : Nat := vtx.foldl (fun nSigOps tx => addUnsigned nSigOps (getLegacySigOpCount tx)) 0
def scriptsOf (tx : CTransaction) : List CScript := tx.vin.map (·.scriptSig) ++ tx.vout.map (·.scriptPubKey)

variable (fAccurate : Bool)
lemma sigOpsOf_le (lastOpcode opcode : UInt8) : sigOpsOf fAccurate lastOpcode opcode ≤ 20 := by
  unfold sigOpsOf decodeOpN
  split
  · omega
  split
  · split
    · next small =>
      have le16 := UInt8.le_iff_toNat_le.mp small.2.2
      have sixteen : OP_16.toNat = 0x60 := rfl
      split <;> omega
    · omega
  · omega

lemma sigOpsOf_accurate_le {lastOpcode opcode : UInt8} : sigOpsOf true lastOpcode opcode ≤ sigOpsOf false lastOpcode opcode := by
  have atMost := sigOpsOf_le true lastOpcode opcode
  unfold sigOpsOf at atMost ⊢
  split
  · exact le_rfl
  split
  · simp_all
  · exact le_rfl

variable (fuel : Nat) (pc : CScript) (lastOpcode : UInt8)
lemma sigOpSum_le : sigOpSum fAccurate fuel pc lastOpcode ≤ 20 * fuel := by
  induction fuel generalizing pc lastOpcode with
  | zero => exact le_rfl
  | succ fuel ih =>
    unfold sigOpSum
    dsimp only
    split
    · omega
    · have here := sigOpsOf_le fAccurate lastOpcode (getOp2 pc).opcodeRet
      have later := ih (getOp2 pc).pc (getOp2 pc).opcodeRet
      omega

lemma sigOpSum_accurate_le : sigOpSum true fuel pc lastOpcode ≤ sigOpSum false fuel pc lastOpcode := by
  induction fuel generalizing pc lastOpcode with
  | zero => exact le_rfl
  | succ fuel ih =>
    unfold sigOpSum
    dsimp only
    split
    · exact le_rfl
    · exact Nat.add_le_add (sigOpsOf_accurate_le) (ih _ _)

lemma sigOpCountFrom_eq {n} (inRange : n < 2 ^ 32) :
    sigOpCountFrom fAccurate fuel pc lastOpcode n = (n + sigOpSum fAccurate fuel pc lastOpcode) % 2 ^ 32 := by
  induction fuel generalizing pc lastOpcode n with
  | zero => exact (mod_eq_of_lt inRange).symm
  | succ fuel ih =>
    unfold sigOpCountFrom sigOpSum
    dsimp only
    split
    · exact (mod_eq_of_lt inRange).symm
    · rw [ih _ _ (mod_lt _ (by decide)), mod_add_mod, add_assoc]

variable (script : CScript) (fAccurate : Bool)
lemma getSigOpCount_eq : getSigOpCount script fAccurate = sigOpSum fAccurate script.length script OP_INVALIDOPCODE % 2 ^ 32 := by
  rw [getSigOpCount, sigOpCountFrom_eq _ _ _ _ (by decide), zero_add]

lemma getSigOpCount_le : getSigOpCount script fAccurate ≤ 20 * script.length := by
  rw [getSigOpCount_eq]
  exact (mod_le _ _).trans (sigOpSum_le ..)

lemma foldl_addUnsigned {α : Type} {count : α → Nat} (items : List α) {n} (inRange : n < 2 ^ 32) :
    items.foldl (fun n item => addUnsigned n (count item)) n = (n + (items.map count).sum) % 2 ^ 32 := by
  induction items generalizing n with
  | nil => exact (mod_eq_of_lt inRange).symm
  | cons item items ih =>
    have wrapped : addUnsigned n (count item) < 2 ^ 32 := mod_lt _ (by decide)
    rw [foldl_cons, ih wrapped, addUnsigned, mod_add_mod, add_assoc]
    rfl

lemma getLegacySigOpCount_eq (tx) :
    getLegacySigOpCount tx = ((scriptsOf tx).map (getSigOpCount · false)).sum % 2 ^ 32 := by
  unfold getLegacySigOpCount scriptsOf
  rw [foldl_addUnsigned tx.vin (by decide), foldl_addUnsigned _ (mod_lt _ (by decide))]
  simp [Function.comp_def]

lemma blockSigOpCount_eq : blockSigOpCount vtx = ((vtx.flatMap scriptsOf).map (getSigOpCount · false)).sum % 2 ^ 32 := by
  rw [blockSigOpCount, foldl_addUnsigned _ (by decide), zero_add]
  induction vtx with
  | nil => rfl
  | cons tx vtx ih =>
    rw [map_cons, sum_cons, flatMap_cons, map_append, List.sum_append, add_mod, ih, getLegacySigOpCount_eq,
      mod_mod, ← add_mod]

variable {crypto : Crypto} {checker : SignatureChecker} {flags : Nat} {sigversion : SigVersion} {s : EvalState}
  {opcode lastOpcode : UInt8}
def checkedBy : EvalStep → List SigCheck
  | .ok s => s.checked
  | .error (_, checked) => checked

structure Makes (s : EvalState) (calls keys : Nat) (step : EvalStep) : Prop where
  calls_le : (checkedBy step).length ≤ s.checked.length + calls
  next : ∀ after, step = .ok after → after.pc = s.pc ∧ after.nOpCount = s.nOpCount + keys

lemma Makes.error (s e) (calls keys : Nat) : Makes s calls keys (.error (e, s.checked)) :=
  ⟨le_add_right _ _, nofun⟩

lemma Makes.ok {s after} (pc : after.pc = s.pc) (nOpCount : after.nOpCount = s.nOpCount) (chk : after.checked = s.checked) :
    Makes s 0 0 (.ok after) := by
  refine ⟨by simp [checkedBy, chk], fun other same => ?_⟩
  cases same
  exact ⟨pc, nOpCount⟩

lemma plain_makes : Makes s 0 0 (match plainOp crypto checker flags opcode s.stack s.altstack with
      | .error e => .error (e, s.checked)
      | .ok (stack, altstack) => .ok { s with stack, altstack }) := by
  split
  · exact .error s _ 0 0
  · exact .ok rfl rfl rfl

lemma opIf_makes {negate fExec : Bool} : Makes s 0 0 (opIf negate fExec s) := by
  unfold opIf
  split
  · split
    · exact .error s _ 0 0
    · exact .ok rfl rfl rfl
  · exact .ok rfl rfl rfl

lemma opElse_makes : Makes s 0 0 (opElse s) := by
  unfold opElse
  split
  · exact .error s _ 0 0
  · exact .ok rfl rfl rfl

lemma opEndIf_makes : Makes s 0 0 (opEndIf s) := by
  unfold opEndIf
  split
  · exact .error s _ 0 0
  · exact .ok rfl rfl rfl

variable (verify : Bool)
lemma opCheckSig_makes : Makes s 1 0 (opCheckSig crypto checker flags sigversion verify s) := by
  unfold opCheckSig
  split
  · split
    · exact .error s _ 1 0
    · dsimp only
      split
      · split
        · exact ⟨by simp [checkedBy], fun after same => by grind⟩
        · exact ⟨by simp [checkedBy], nofun⟩
      · exact ⟨by simp [checkedBy], fun after same => by grind⟩
  · exact .error s _ 1 0

def loopCheckedBy : Except (ScriptError × List SigCheck) (Bool × List SigCheck) → List SigCheck
  | .ok (_, checked) => checked
  | .error (_, checked) => checked

variable (crypto checker flags sigversion)
lemma multiSigLoop_calls (scriptCode sigs keys chk) :
    (loopCheckedBy (multiSigLoop crypto checker flags sigversion scriptCode sigs keys chk)).length ≤ chk.length + keys.length := by
  induction keys generalizing sigs chk with
  | nil => cases sigs <;> exact le_add_right _ _
  | cons vchPubKey keys ih =>
    cases sigs with
    | nil => exact le_add_right _ _
    | cons vchSig sigs =>
      unfold multiSigLoop
      split
      · exact le_add_right _ _
      · dsimp only
        generalize (if checker.checkSig .. = true then sigs else vchSig :: sigs) = left
        split
        · simp [loopCheckedBy]
        · grind

lemma opCheckMultiSig_makes : (∃ e, opCheckMultiSig crypto checker flags sigversion verify s = .error (e, s.checked)) ∨
      ∃ nKeys nSigs, multiSigCounts flags s.stack s.nOpCount = .ok (nKeys, nSigs) ∧
        Makes s nKeys nKeys (opCheckMultiSig crypto checker flags sigversion verify s) := by
  unfold opCheckMultiSig
  cases counts : multiSigCounts _ _ _ with
  | error e => exact .inl ⟨e, rfl⟩
  | ok counted =>
    obtain ⟨nKeys, nSigs⟩ := counted
    refine .inr ⟨_, _, rfl, ?_⟩
    dsimp only
    generalize (s.stack.drop _).take _ = sigs
    have asked := multiSigLoop_calls crypto checker flags sigversion (dropSignatures s.pbegincodehash sigs) sigs
      ((s.stack.drop 1).take nKeys) s.checked
    have taken : ((s.stack.drop 1).take nKeys).length ≤ nKeys := by simp
    split
    · next e failed =>
      rw [failed] at asked
      exact ⟨asked.trans (by omega), nofun⟩
    · next fSuccess checked ended =>
      rw [ended] at asked
      have fails (e : ScriptError) : Makes s nKeys nKeys (.error (e, checked)) := ⟨asked.trans (by omega), nofun⟩
      have passes (stack : List _) : Makes s nKeys nKeys (.ok { s with stack, nOpCount := s.nOpCount + nKeys, checked }) := by
        refine ⟨asked.trans (by omega), fun after same => ?_⟩
        cases same
        exact ⟨rfl, rfl⟩
      split
      · exact fails _
      split
      · exact fails _
      split
      · split
        · exact passes _
        · exact fails _
      · exact passes _

def Ready (s : EvalState) (lastOpcode : UInt8) : Prop :=
  s.vfExec.all id = true → OP_1 ≤ lastOpcode → lastOpcode ≤ OP_16 → ∃ stack, s.stack = serializeNum (decodeOpN lastOpcode) :: stack

lemma decodeOpN_of_small (low : OP_1 ≤ opcode) (high : opcode ≤ OP_16) : decodeOpN opcode ≤ 20 ∧
    (decodeOpN opcode : Int) = opcode.toNat - 0x50 := by
  have low := UInt8.le_iff_toNat_le.mp low
  have high := UInt8.le_iff_toNat_le.mp high
  have one : OP_1.toNat = 0x51 := rfl
  have sixteen : OP_16.toNat = 0x60 := rfl
  have notZero : opcode ≠ OP_0 := by
    intro zero
    rw [zero] at low
    exact absurd low (by decide)
  rw [decodeOpN, if_neg notZero]
  omega

lemma nKeys_le_sigOpsOf {nKeys nSigs} (ready : Ready s lastOpcode) (executed : s.vfExec.all id = true)
    (multi : opcode = OP_CHECKMULTISIG ∨ opcode = OP_CHECKMULTISIGVERIFY)
    (counts : multiSigCounts flags s.stack s.nOpCount = .ok (nKeys, nSigs)) : nKeys ≤ sigOpsOf true lastOpcode opcode := by
  obtain ⟨keysRead, -, fewKeys, -⟩ := multiSigCounts_eq_ok.mp counts
  have notSingle : ¬(opcode = OP_CHECKSIG ∨ opcode = OP_CHECKSIGVERIFY) := by
    rcases multi with rfl | rfl <;> decide
  rw [sigOpsOf, if_neg notSingle, if_pos multi]
  split
  · next small =>
    obtain ⟨-, low, high⟩ := small
    obtain ⟨stack, top⟩ := ready executed low high
    have few := (decodeOpN_of_small low high).1
    have read : countAt flags s.stack 1 = .ok (decodeOpN lastOpcode : Int) :=
      countAt_of_number (by rw [top]; rfl) (scriptNumOf_serializeNum few _) few
    rw [read] at keysRead
    have same := Except.ok.inj keysRead
    omega
  · exact fewKeys

/-- No more calls than the static count adds, and apart from its own operation than it counts. -/
def Within (s : EvalState) (lastOpcode opcode : UInt8) (step : EvalStep) : Prop :=
  ∃ calls keys, Makes s calls keys step ∧ calls ≤ sigOpsOf true lastOpcode opcode ∧
    calls ≤ keys + (if opcode > OP_16 then 1 else 0) ∧ (s.nOpCount ≤ 201 → s.nOpCount + keys ≤ 201)

lemma Makes.within {step} (makes : Makes s 0 0 step) : Within s lastOpcode opcode step :=
  ⟨0, 0, makes, zero_le _, zero_le _, id⟩

lemma opCheckSig_within (single : opcode = OP_CHECKSIG ∨ opcode = OP_CHECKSIGVERIFY) :
    Within s lastOpcode opcode (opCheckSig crypto checker flags sigversion verify s) := by
  refine ⟨1, 0, opCheckSig_makes _, ?_, ?_, id⟩
  · rw [sigOpsOf, if_pos single]
  · rcases single with rfl | rfl <;> decide

lemma opCheckMultiSig_within (ready : Ready s lastOpcode) (executed : s.vfExec.all id = true)
    (multi : opcode = OP_CHECKMULTISIG ∨ opcode = OP_CHECKMULTISIGVERIFY) :
    Within s lastOpcode opcode (opCheckMultiSig crypto checker flags sigversion verify s) := by
  rcases opCheckMultiSig_makes _ _ _ _ _ with ⟨e, failed⟩ | ⟨nKeys, nSigs, counts, makes⟩
  · rw [failed]
    exact (Makes.error s e 0 0).within
  · have limit := (multiSigCounts_eq_ok.mp counts).2.2.2.2.1
    exact ⟨_, _, makes, nKeys_le_sigOpsOf _ ready executed multi counts, le_add_right _ _, fun _ => limit⟩

lemma execute_within (ready : Ready s lastOpcode) (run : s.vfExec.all id = true ∨ opcode ≤ OP_ENDIF) :
    Within s lastOpcode opcode (execute crypto checker flags sigversion opcode (s.vfExec.all id) s) := by
  have executed (behind : OP_ENDIF < opcode) :=
    run.resolve_right fun conditional => absurd behind (UInt8.not_lt.mpr conditional)
  unfold execute
  split
  · exact (opIf_makes).within
  split
  · exact (opIf_makes).within
  split
  · exact opElse_makes.within
  split
  · exact opEndIf_makes.within
  split
  · exact Makes.within (.ok rfl rfl rfl)
  split
  · next single => exact opCheckSig_within _ _ _ _ _ (.inl single)
  split
  · next single => exact opCheckSig_within _ _ _ _ _ (.inr single)
  split
  · next multi => exact opCheckMultiSig_within _ _ _ _ _ ready (executed (multi ▸ by decide)) (.inl multi)
  split
  · next multi => exact opCheckMultiSig_within _ _ _ _ _ ready (executed (multi ▸ by decide)) (.inr multi)
  · exact plain_makes.within

lemma dispatch_within (vchPushValue) (ready : Ready s lastOpcode) :
    Within s lastOpcode opcode (dispatch crypto checker flags sigversion opcode vchPushValue s) := by
  unfold dispatch
  dsimp only
  split
  · split
    · exact (Makes.error s _ 0 0).within
    · exact Makes.within (.ok rfl rfl rfl)
  split
  · next run =>
    refine execute_within _ _ _ _ ready ?_
    simp only [Bool.or_eq_true, Bool.and_eq_true, decide_eq_true_eq] at run
    exact run.imp_right And.right
  · exact Makes.within (.ok rfl rfl rfl)

lemma execute_small (low : OP_1 ≤ opcode) (high : opcode ≤ OP_16) (fExec : Bool) :
    execute crypto checker flags sigversion opcode fExec s = .ok { s with stack := serializeNum (decodeOpN opcode) :: s.stack } := by
  have other {o : UInt8} (above : OP_16 < o) : opcode ≠ o := by
    intro same
    rw [same] at high
    exact absurd above (UInt8.not_lt.mpr high)
  have pushed : plainOp crypto checker flags opcode s.stack s.altstack = .ok (serializeNum (decodeOpN opcode) :: s.stack, s.altstack) := by
    rw [(decodeOpN_of_small low high).2]
    exact if_pos (.inr ⟨low, high⟩)
  unfold execute
  rw [if_neg (other (by decide)), if_neg (other (by decide)), if_neg (other (by decide)), if_neg (other (by decide)),
    if_neg (other (by decide)), if_neg (other (by decide)), if_neg (other (by decide)), if_neg (other (by decide)),
    if_neg (other (by decide)), pushed]

lemma dispatch_ready {vchPushValue after}
    (runs : dispatch crypto checker flags sigversion opcode vchPushValue s = .ok after) : Ready after opcode := by
  intro executed low high
  have notPush : ¬opcode ≤ OP_PUSHDATA4 := by
    intro push
    exact absurd (UInt8.le_trans low push) (by decide)
  have notConditional : ¬OP_IF ≤ opcode := by
    intro conditional
    exact absurd (UInt8.le_trans conditional high) (by decide)
  unfold dispatch at runs
  simp only [notPush, notConditional, decide_false, Bool.and_false, Bool.false_and, Bool.or_false] at runs
  rw [if_neg Bool.false_ne_true] at runs
  split at runs
  · rw [execute_small _ _ _ _ low high] at runs
    cases runs
    exact ⟨_, rfl⟩
  · grind

lemma bind_checkStackSize {step} :
    checkedBy (step >>= checkStackSize) = checkedBy step ∧ ∀ after, (step >>= checkStackSize) = .ok after → step = .ok after := by
  cases step with
  | error e => exact ⟨rfl, nofun⟩
  | ok next =>
    change checkedBy (checkStackSize _) = next.checked ∧ ∀ after, checkStackSize _ = .ok _ → _
    unfold checkStackSize
    split
    · exact ⟨rfl, nofun⟩
    · exact ⟨rfl, fun _ same => same⟩

def Accounted (s : EvalState) : Prop := s.checked.length ≤ s.nOpCount ∧ s.nOpCount ≤ 201

structure Advances (s : EvalState) (lastOpcode : UInt8) (step : EvalStep) : Prop where
  calls_le : (checkedBy step).length ≤ s.checked.length + if (getOp2 s.pc).fRet then sigOpsOf true lastOpcode (getOp2 s.pc).opcodeRet else 0
  limited : Accounted s → (checkedBy step).length ≤ 201
  next : ∀ after, step = .ok after → (getOp2 s.pc).fRet = true ∧ after.pc = (getOp2 s.pc).pc ∧ Ready after (getOp2 s.pc).opcodeRet
  accounted : Accounted s → ∀ after, step = .ok after → Accounted after

lemma Advances.error (s) (lastOpcode : UInt8) (e) : Advances s lastOpcode (.error (e, s.checked)) :=
  ⟨le_add_right _ _, fun accounted => accounted.1.trans accounted.2, nofun, fun _ => nofun⟩

lemma evalInstruction_advances (ready : Ready s lastOpcode) :
    Advances s lastOpcode (evalInstruction crypto checker flags sigversion s) := by
  unfold evalInstruction
  dsimp only
  generalize cnt : (if (getOp2 _).opcodeRet > OP_16 then s.nOpCount + 1 else s.nOpCount) = nOpCount
  split
  · exact .error s _ _
  next parsed =>
  split
  · exact .error s _ _
  split
  · exact .error s _ _
  next underLimit =>
  split
  · exact .error s _ _
  have parsed : (getOp2 s.pc).fRet = true := by simpa using parsed
  have within : Within { s with pc := (getOp2 s.pc).pc, nOpCount } lastOpcode (getOp2 s.pc).opcodeRet _ :=
    dispatch_within crypto checker flags sigversion (getOp2 s.pc).vchRet ready
  obtain ⟨calls, keys, makes, static, own, limit⟩ := within
  obtain ⟨sameCalls, passed⟩ := bind_checkStackSize
  have made := makes.calls_le
  have cnt : nOpCount = s.nOpCount + (if (getOp2 s.pc).opcodeRet > OP_16 then 1 else 0) := by
    rw [← cnt]
    split <;> rfl
  have covered : Accounted s → s.checked.length + calls ≤ nOpCount + keys ∧ nOpCount + keys ≤ 201 := by
    intro accounted
    have atLimit : nOpCount ≤ 201 := by
      split at cnt
      · grind
      · exact cnt ▸ accounted.2
    exact ⟨by have := accounted.1; omega, limit atLimit⟩
  refine ⟨?_, ?_, ?_, ?_⟩
  · rw [sameCalls, if_pos parsed]
    exact made.trans (Nat.add_le_add_left static _)
  · intro accounted
    rw [sameCalls]
    exact made.trans ((covered accounted).1.trans (covered accounted).2)
  · intro after runs
    exact ⟨parsed, (makes.next _ (passed _ runs)).1, dispatch_ready _ _ _ _ (passed _ runs)⟩
  · intro accounted after runs
    have step := passed _ runs
    rw [step] at made
    rw [Accounted, (makes.next _ step).2]
    exact ⟨made.trans (covered accounted).1, (covered accounted).2⟩

variable (crypto : Crypto) (checker : SignatureChecker) (flags : Nat) (sigversion : SigVersion) {s : EvalState} {lastOpcode : UInt8}
lemma evalLoop_calls_le (fuel : Nat) (ready : Ready s lastOpcode) :
    (checkedBy (evalLoop crypto checker flags sigversion fuel s)).length ≤ s.checked.length + sigOpSum true fuel s.pc lastOpcode := by
  induction fuel generalizing s lastOpcode with
  | zero => exact le_rfl
  | succ fuel ih =>
    rw [evalLoop]
    split
    · exact le_add_right _ _
    have advances := evalInstruction_advances crypto checker flags sigversion ready
    cases step : evalInstruction _ _ _ _ s with
    | error e =>
      rw [step] at advances
      refine advances.calls_le.trans (Nat.add_le_add_left ?_ _)
      rw [sigOpSum]
      split <;> simp_all
    | ok next =>
      rw [step] at advances
      obtain ⟨parsed, pc, ready⟩ := advances.next _ rfl
      have made := advances.calls_le
      have later := ih ready
      rw [pc] at later
      rw [if_pos parsed] at made
      simp only [sigOpSum, parsed, Bool.not_true, Bool.false_eq_true, if_false]
      exact later.trans (by rw [← Nat.add_assoc]; exact Nat.add_le_add_right made _)

lemma evalLoop_limited (fuel : Nat) (ready : Ready s lastOpcode) (accounted : Accounted s) :
    (checkedBy (evalLoop crypto checker flags sigversion fuel s)).length ≤ 201 := by
  induction fuel generalizing s lastOpcode with
  | zero => exact accounted.1.trans accounted.2
  | succ fuel ih =>
    rw [evalLoop]
    split
    · exact accounted.1.trans accounted.2
    have advances := evalInstruction_advances crypto checker flags sigversion ready
    cases step : evalInstruction _ _ _ _ s with
    | error e =>
      rw [step] at advances
      exact advances.limited accounted
    | ok next =>
      rw [step] at advances
      exact ih (advances.next _ rfl).2.2 (advances.accounted accounted _ rfl)

def EvalState.size (s : EvalState) : Nat := s.stack.length + s.altstack.length

lemma evalInstruction_size {after} (runs : evalInstruction crypto checker flags sigversion s = .ok after) : after.size ≤ 1000 := by
  unfold evalInstruction at runs
  dsimp only at runs
  split_ifs at runs
  all_goals
    obtain ⟨next, -, passes⟩ := Except.bind_eq_ok.mp runs
    grind [checkStackSize, EvalState.size]

lemma evalLoop_bounds (fuel) {final} (ready : Ready s lastOpcode) (acc : Accounted s)
    (runs : evalLoop crypto checker flags sigversion fuel s = .ok final) :
    final.size ≤ max s.size 1000 ∧ Accounted final ∧ (s.pc.length ≤ fuel → final.pc = []) := by
  induction fuel generalizing s lastOpcode with
  | zero =>
    cases runs
    exact ⟨le_max_left .., acc, eq_nil_of_length_eq_zero ∘ le_zero.mp⟩
  | succ fuel ih =>
    rw [evalLoop] at runs
    split at runs
    · next done =>
      cases runs
      exact ⟨le_max_left .., acc, fun _ => isEmpty_iff.mp done⟩
    obtain ⟨next, step, rest⟩ := Except.bind_eq_ok.mp runs
    have advances := evalInstruction_advances crypto checker flags sigversion ready
    obtain ⟨parsed, pc, ready⟩ := advances.next _ step
    obtain ⟨fits, counted, reads⟩ := ih ready (advances.accounted acc _ step) rest
    have bound := evalInstruction_size _ _ _ _ step
    have shorter : next.pc.length < s.pc.length := by
      rw [pc]
      cases it : s.pc with
      | nil => rw [it] at parsed; cases parsed
      | cons opcode tail => exact lt_succ_of_le (getOp2_takes opcode tail).suffix.length_le
    exact ⟨by omega, counted, fun enough => reads (by omega)⟩

lemma evalScript_checked (stack script) : (evalScript crypto checker flags sigversion stack script).checked =
      if script.length > MAX_SCRIPT_SIZE then []
      else checkedBy (evalLoop crypto checker flags sigversion script.length ⟨script, script, [], stack, [], 0, []⟩) := by
  unfold evalScript
  split
  · rfl
  split
  · next e chk failed => rw [failed]; rfl
  · next after runs =>
    rw [runs]
    split <;> rfl
end

structure ScriptRun where
  crypto : Crypto
  checker : SignatureChecker
  flags : Nat
  sigversion : SigVersion
  stack : List valtype
  script : CScript

def ScriptRun.calls (run : ScriptRun) : Nat :=
  (evalScript run.crypto run.checker run.flags run.sigversion run.stack run.script).checked.length

def ScriptRun.loop (run : ScriptRun) (fuel : Nat) : EvalStep :=
  evalLoop run.crypto run.checker run.flags run.sigversion fuel ⟨run.script, run.script, [], run.stack, [], 0, []⟩

lemma ScriptRun.calls_le (run : ScriptRun) :
    run.calls ≤ getSigOpCount run.script true ∧ run.calls ≤ getSigOpCount run.script false ∧ run.calls ≤ 201 := by
  unfold ScriptRun.calls
  rw [evalScript_checked]
  split
  · simp
  next small =>
  have ready : Ready ⟨run.script, run.script, [], run.stack, [], 0, []⟩ OP_INVALIDOPCODE := fun _ _ high => absurd high (by decide)
  have unbounded := evalLoop_calls_le run.crypto run.checker run.flags run.sigversion run.script.length ready
  -- a script of this size has no more operations than its type can count
  have fits (fAccurate : Bool) : sigOpSum fAccurate run.script.length run.script OP_INVALIDOPCODE < 2 ^ 32 := by
    refine (sigOpSum_le ..).trans_lt ?_
    have : MAX_SCRIPT_SIZE = 10000 := rfl
    omega
  rw [length_nil, zero_add] at unbounded
  refine ⟨?_, ?_, evalLoop_limited _ _ _ _ _ ready ⟨le_rfl, zero_le _⟩⟩
  · rw [getSigOpCount_eq, mod_eq_of_lt (fits _)]
    exact unbounded
  · rw [getSigOpCount_eq, mod_eq_of_lt (fits _)]
    exact unbounded.trans (sigOpSum_accurate_le ..)

/-- A run calls the checker at most as often as either static count says, and at most 201 times; a block's count
bounds the runs of all its scripts. -/
theorem sigops_bound_checks :
    (∀ run : ScriptRun, run.calls ≤ getSigOpCount run.script true ∧ run.calls ≤ getSigOpCount run.script false ∧ run.calls ≤ 201) ∧
    (∀ (vtx : List CTransaction) (runs : List ScriptRun), runs.map (·.script) = vtx.flatMap scriptsOf →
      ((vtx.flatMap scriptsOf).map List.length).sum ≤ MAX_BLOCK_SIZE_CURRENT →
      (runs.map (·.calls)).sum ≤ blockSigOpCount vtx) := by
  refine ⟨ScriptRun.calls_le, fun vtx runs scripts small => ?_⟩
  rw [blockSigOpCount_eq, ← scripts, map_map, mod_eq_of_lt]
  · exact sum_le_sum fun run _ => run.calls_le.2.1
  · rw [← scripts, map_map] at small
    have counts : (runs.map ((getSigOpCount · false) ∘ (·.script))).sum ≤ 20 * (runs.map (List.length ∘ (·.script))).sum := by
      clear scripts small
      induction runs with
      | nil => exact le_rfl
      | cons run runs ih =>
        have first := getSigOpCount_le run.script false
        simp only [map_cons, sum_cons, Function.comp_apply] at ih ⊢
        omega
    have : MAX_BLOCK_SIZE_CURRENT = 2000000 := rfl
    omega

/-- A signature in front of a key on the stack, checked twice. -/
def checkTwice : ScriptRun :=
  ⟨mirrorCrypto, mirrorChecker, 0, .SIGVERSION_BASE, [[7], [8], [7], [7]], [OP_CHECKSIG, OP_DROP, OP_CHECKSIG]⟩

def checkedTx : CTransaction := ⟨1, [⟨⟨1, 0⟩, [OP_1], 0⟩], [⟨1, checkTwice.script⟩], 0⟩

theorem checkedTx_bound : ([{ checkTwice with script := [OP_1] }, checkTwice].map (·.calls)).sum = 2 ∧
    ([{ checkTwice with script := [OP_1] }, checkTwice].map (·.calls)).sum ≤ blockSigOpCount [checkedTx] :=
  ⟨by decide +kernel, sigops_bound_checks.2 [checkedTx] [{ checkTwice with script := [OP_1] }, checkTwice] rfl (by decide)⟩

/-- Every state of a run (one for each `fuel`) is within the limits; with the script's length all of it is read. -/
theorem loop_within_limits (run : ScriptRun) (fuel final) (runs : run.loop fuel = .ok final) :
    final.size ≤ max run.stack.length 1000 ∧ Accounted final ∧ (run.script.length ≤ fuel → final.pc = []) := by
  have ready : Ready ⟨run.script, run.script, [], run.stack, [], 0, []⟩ OP_INVALIDOPCODE := fun _ _ high => absurd high (by decide)
  exact evalLoop_bounds _ _ _ _ fuel ready ⟨le_rfl, zero_le _⟩ runs

theorem loop_checkTwice : ∃ final, checkTwice.loop 3 = .ok final ∧ final.size ≤ 1000 ∧ Accounted final ∧ final.pc = [] ∧
    final.checked.length = 2 ∧ final.nOpCount = 3 := by
  obtain ⟨final, runs, checks, counted⟩ : ∃ final, checkTwice.loop 3 = .ok final ∧ final.checked.length = 2 ∧ final.nOpCount = 3 :=
    Except.exists_ok_of_decide (by decide +kernel)
  have limits := loop_within_limits checkTwice 3 final runs
  exact ⟨final, runs, limits.1, limits.2.1, limits.2.2 le_rfl, checks, counted⟩

end Peony
