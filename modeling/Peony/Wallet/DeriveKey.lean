import Peony.Library.Except
import Peony.Primitives.Transaction

/-! `DeriveNewChildKey`: the next key of a chain of the wallet's seed (scriptpubkeyman.cpp). -/

namespace Peony

def BIP32_HARDENED_KEY_LIMIT : BitVec 32 := 0x80000000
def BIP32_HDCHAIN : BitVec 32 := 0x348
def ECOMMERCE : BitVec 8 := 3

structure CHDChain (KeyID : Type) where
  seed_id : KeyID
  (nExternalChainCounter nInternalChainCounter nECommerceChainCounter : BitVec 32)
  deriving DecidableEq

structure CKeyMetadata (KeyID : Type) where
  hd_seed_id : Option KeyID := none
  fingerprint : Option (BitVec 32) := none
  path : List (BitVec 32) := []
  deriving DecidableEq

/-- Key derivation, and what the wallet answers: `fWritten` is whether the chain model can be written. -/
structure HDWallet (Key ExtKey KeyID : Type) where
  setSeed : Key → ExtKey
  derive : ExtKey → BitVec 32 → ExtKey
  key : ExtKey → Key
  getID : Key → KeyID
  fingerprint : KeyID → BitVec 32
  getKey : KeyID → Option Key
  haveKey : KeyID → Bool
  fWritten : Bool

variable {Key ExtKey KeyID : Type} {changeType : BitVec 8}
section
variable (hdChain : CHDChain KeyID) (type : BitVec 8)
def CHDChain.getChainCounter : Except Failure (BitVec 32) :=
  match type with
  | 0 => .ok hdChain.nExternalChainCounter
  | 1 => .ok hdChain.nInternalChainCounter
  | 3 => .ok hdChain.nECommerceChainCounter
  | _ => .error (.runtimeError "HD chain type doesn't exist.")

/-- `chainCounter++` through the reference. -/
def CHDChain.countUp : CHDChain KeyID :=
  match type with
  | 0 => { hdChain with nExternalChainCounter := hdChain.nExternalChainCounter + 1 }
  | 1 => { hdChain with nInternalChainCounter := hdChain.nInternalChainCounter + 1 }
  | 3 => { hdChain with nECommerceChainCounter := hdChain.nECommerceChainCounter + 1 }
  | _ => hdChain
end

def childIndex (changeType : BitVec 8) (n : BitVec 32) : BitVec 32 :=
  n ||| (if changeType ≠ ECOMMERCE then BIP32_HARDENED_KEY_LIMIT else 0)

def accountPath : List (BitVec 32) :=
  [44 ||| BIP32_HARDENED_KEY_LIMIT, BIP32_HDCHAIN ||| BIP32_HARDENED_KEY_LIMIT, 0 ||| BIP32_HARDENED_KEY_LIMIT]

def keyPath (changeType : BitVec 8) (chainCounter : BitVec 32) : List (BitVec 32) :=
  accountPath ++ [childIndex changeType (changeType.setWidth 32), childIndex changeType chainCounter]

namespace HDWallet
variable (wallet : HDWallet Key ExtKey KeyID)
/-- The loop over the candidates; `none` if it takes more rounds than `fuel`. -/
def nextChild (changeKey : ExtKey) (changeType : BitVec 8) :
    (fuel : Nat) → CHDChain KeyID → List (BitVec 32) → Except Failure (Option (ExtKey × CHDChain KeyID × List (BitVec 32)))
  | 0, _, _ => .ok none
  | fuel + 1, hdChain, path => do
    let chainCounter ← hdChain.getChainCounter changeType
    let childKey := wallet.derive changeKey (childIndex changeType chainCounter)
    let path := path ++ keyPath changeType chainCounter
    let hdChain := hdChain.countUp changeType
    if wallet.haveKey (wallet.getID (wallet.key childKey)) then nextChild changeKey changeType fuel hdChain path
    else return some (childKey, hdChain, path)

def changeKeyOf (seed : Key) (changeType : BitVec 8) : ExtKey :=
  (accountPath ++ [childIndex changeType (changeType.setWidth 32)]).foldl wallet.derive (wallet.setSeed seed)

def deriveNewChildKey (fuel : Nat) (hdChain : CHDChain KeyID) (metadata : CKeyMetadata KeyID) (changeType : BitVec 8) :
    Except Failure (Option (Key × CHDChain KeyID × CKeyMetadata KeyID)) :=
  match wallet.getKey hdChain.seed_id with
  | none => .error (.runtimeError "DeriveNewChildKey: seed not found")
  | some seed => do
    match ← wallet.nextChild (wallet.changeKeyOf seed changeType) changeType fuel hdChain metadata.path with
    | none => return none
    | some (childKey, hdChain, path) =>
      if wallet.fWritten then
        return some (wallet.key childKey, hdChain,
          ⟨some hdChain.seed_id, some (wallet.fingerprint (wallet.getID (wallet.key (wallet.setSeed seed)))), path⟩)
      else .error (.runtimeError "DeriveNewChildKey: Writing HD chain model failed")

/-- A new key comes with its path, and only the counter of its chain goes up. -/
def DerivesTruePath (hdChain : CHDChain KeyID) (changeType : BitVec 8) : Prop :=
  ∃ fuel secret next metadata seed before after, wallet.deriveNewChildKey fuel hdChain {} changeType = .ok (some (secret, next, metadata)) ∧
    wallet.haveKey (wallet.getID secret) = false ∧ wallet.getKey hdChain.seed_id = some seed ∧
    secret = wallet.key (metadata.path.foldl wallet.derive (wallet.setSeed seed)) ∧
    hdChain.getChainCounter changeType = .ok before ∧ next.getChainCounter changeType = .ok after ∧ before < after ∧
    (∃ n, metadata.path = keyPath changeType n) ∧ ∀ other ≠ changeType, next.getChainCounter other = hdChain.getChainCounter other

variable {changeKey childKey : ExtKey} {fuel : Nat} {hdChain next : CHDChain KeyID} {path path' : List (BitVec 32)} {n : BitVec 32}
lemma nextChild_succ (counter : hdChain.getChainCounter changeType = .ok n) :
    wallet.nextChild changeKey changeType (fuel + 1) hdChain path =
      if wallet.haveKey (wallet.getID (wallet.key (wallet.derive changeKey (childIndex changeType n)))) then
        wallet.nextChild changeKey changeType fuel (hdChain.countUp changeType) (path ++ keyPath changeType n)
      else .ok (some (wallet.derive changeKey (childIndex changeType n), hdChain.countUp changeType, path ++ keyPath changeType n)) := by
  rw [nextChild, counter]
  rfl

lemma nextChild_counter (found : wallet.nextChild changeKey changeType fuel hdChain path = .ok (some (childKey, next, path'))) :
    ∃ rounds n, fuel = rounds + 1 ∧ hdChain.getChainCounter changeType = .ok n := by
  cases fuel with
  | zero => cases found
  | succ fuel =>
    cases counter : hdChain.getChainCounter changeType with
    | ok n => exact ⟨_, n, rfl, rfl⟩
    | error failure =>
      rw [nextChild, counter] at found
      cases found

lemma length_nextChild (found : wallet.nextChild changeKey changeType fuel hdChain path = .ok (some (childKey, next, path'))) :
    path.length + 5 ≤ path'.length := by
  induction fuel generalizing hdChain path with
  | zero => cases found
  | succ fuel ih =>
    obtain ⟨_, n, -, counter⟩ := wallet.nextChild_counter found
    have five : (path ++ keyPath changeType n).length = path.length + 5 := List.length_append
    rw [wallet.nextChild_succ counter] at found
    split at found
    · have rest := ih found
      omega
    · cases found
      exact five.ge

lemma nextChild_of_derived {seed secret metadata} (seeded : wallet.getKey hdChain.seed_id = some seed)
    (derived : wallet.deriveNewChildKey fuel hdChain {} changeType = .ok (some (secret, next, metadata))) : wallet.fWritten = true ∧
      ∃ childKey, wallet.nextChild (wallet.changeKeyOf seed changeType) changeType fuel hdChain [] =
        .ok (some (childKey, next, metadata.path)) := by
  rw [deriveNewChildKey, seeded] at derived
  obtain ⟨res, found, derived⟩ := Except.bind_eq_ok.mp derived
  rcases res with - | ⟨childKey, last, path⟩
  · cases derived
  · dsimp only at derived
    split at derived
    · next wrote =>
      cases derived
      exact ⟨wrote, childKey, found⟩
    · cases derived

lemma countUp_other {other} (apart : other ≠ changeType) :
    (hdChain.countUp changeType).getChainCounter other = hdChain.getChainCounter other := by
  unfold CHDChain.countUp
  split <;> unfold CHDChain.getChainCounter <;> split <;> first | rfl | exact absurd rfl apart

lemma countUp_self (counter : hdChain.getChainCounter changeType = .ok n) :
    (hdChain.countUp changeType).getChainCounter changeType = .ok (n + 1) := by
  unfold CHDChain.getChainCounter at counter
  unfold CHDChain.countUp CHDChain.getChainCounter
  split at counter <;> first | (cases counter; rfl) | cases counter

/-- Every round writes its path behind the ones before, so that only a first candidate that is new gets its own path. -/
theorem derivesTruePath_iff (hdChain : CHDChain KeyID) (changeType : BitVec 8) :
    wallet.DerivesTruePath hdChain changeType ↔ ∃ seed n, wallet.getKey hdChain.seed_id = some seed ∧
      hdChain.getChainCounter changeType = .ok n ∧ wallet.fWritten = true ∧ n ≠ 0xffffffff ∧
      wallet.haveKey (wallet.getID (wallet.key ((keyPath changeType n).foldl wallet.derive (wallet.setSeed seed)))) = false := by
  have child (seed : Key) (n : BitVec 32) : wallet.derive (wallet.changeKeyOf seed changeType) (childIndex changeType n) =
      (keyPath changeType n).foldl wallet.derive (wallet.setSeed seed) := rfl
  constructor
  · rintro ⟨fuel, secret, next, metadata, seed, n, after, derived, -, seeded, -, counter, counted, grows, ⟨m, path⟩, -⟩
    obtain ⟨written, childKey, found⟩ := wallet.nextChild_of_derived seeded derived
    obtain ⟨rounds, _, rfl, -⟩ := wallet.nextChild_counter found
    rw [wallet.nextChild_succ counter, child] at found
    split at found
    · -- a second round leaves at least ten components
      have long : 10 ≤ metadata.path.length := wallet.length_nextChild found
      rw [path] at long
      exact absurd long (show ¬10 ≤ 5 by decide)
    · next unknown =>
      cases (Prod.mk.inj (Prod.mk.inj (Option.some.inj (Except.ok.inj found))).2).1
      rw [countUp_self counter] at counted
      cases counted
      refine ⟨seed, n, seeded, counter, written, ?_, Bool.eq_false_iff.mpr unknown⟩
      rintro rfl
      exact absurd grows (by decide)
  · rintro ⟨seed, n, seeded, counter, written, small, unknown⟩
    have first := @nextChild_succ _ _ _ _ wallet (wallet.changeKeyOf seed changeType) 0 _ [] _ counter
    rw [child, if_neg (by rw [unknown]; decide)] at first
    let origin := some (wallet.fingerprint (wallet.getID (wallet.key (wallet.setSeed seed))))
    refine ⟨1, _, _, ⟨some (hdChain.countUp changeType).seed_id, origin, keyPath changeType n⟩, seed, n, n + 1, ?_, unknown, seeded, rfl,
      counter, countUp_self counter, ?_, ⟨n, rfl⟩, ?_⟩
    · rw [deriveNewChildKey, seeded]
      simp only [first, written]
      rfl
    · bv_omega
    · intro other apart
      exact countUp_other apart

end HDWallet

/-- Extended keys that are their own paths, in a wallet that knows the key with the number 0. -/
def restoredWallet : HDWallet (List (BitVec 32)) (List (BitVec 32)) (List (BitVec 32)) where
  setSeed seed := seed
  derive key n := key ++ [n]
  key := id
  getID := id
  fingerprint _ := 0
  getKey _ := some []
  haveKey := (· == keyPath 0 0)
  fWritten := true

/-- The key with the number 1 is recorded under the path of the known key followed by its own. -/
theorem restoredWallet_path : restoredWallet.deriveNewChildKey 2 ⟨[], 0, 0, 0⟩ {} 0 =
    .ok (some (keyPath 0 1, ⟨[], 2, 0, 0⟩, ⟨some [], some 0, keyPath 0 0 ++ keyPath 0 1⟩)) := by decide

end Peony
