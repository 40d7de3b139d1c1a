import Peony.Primitives.BaseUint

namespace Peony

def setCompact (nCompact : Nat) : UInt256 :=
  let nSize := nCompact / 2 ^ 24
  let nWord := nCompact % 2 ^ 23
  if nSize ≤ 3 then BitVec.ofNat 256 (nWord / 2 ^ (8 * (3 - nSize)))
  else BitVec.ofNat 256 nWord <<< (8 * (nSize - 3))

def getCompact (n : UInt256) : Nat :=
  let bits := if n = 0 then 0 else n.toNat.log2 + 1
  let nSize := (bits + 7) / 8
  let nCompact := if nSize ≤ 3 then n.toNat <<< (8 * (3 - nSize)) else n.toNat >>> (8 * (nSize - 3))
  if nCompact &&& 0x00800000 ≠ 0 then (nCompact >>> 8) ||| ((nSize + 1) <<< 24) else nCompact ||| (nSize <<< 24)

namespace ArithUint256

def WIDTH : Nat := 8
def limbs (x : UInt256) : List Nat := @BaseUint.limbs WIDTH x

/-- `operator*=(uint32_t)`, which the overload resolution also takes for an `int64_t`. -/
def mulUInt32 (x : UInt256) (b32 : Nat) : UInt256 := @BaseUint.mulUInt32 WIDTH x (BitVec.ofNat 32 b32)

section
variable (a b : UInt256)
def mul : UInt256 := @BaseUint.mul WIDTH a b
def divide (num div : UInt256) : Except Failure UInt256 := @BaseUint.divide WIDTH num div
def compareTo : Ordering := @BaseUint.compareTo WIDTH a b

lemma mulUInt32_toNat (x) {b32} (small : b32 < 2 ^ 32) : (mulUInt32 x b32).toNat = x.toNat * b32 % 2 ^ 256 := by
  have value := @BaseUint.mulUInt32_toNat WIDTH x (BitVec.ofNat 32 b32)
  rwa [BitVec.toNat_ofNat, Nat.mod_eq_of_lt small] at value

lemma mul_eq : mul a b = a * b := @BaseUint.mul_eq WIDTH a b
end

lemma divide_eq {num div} (nz : div ≠ 0) : divide num div = .ok (num / div) :=
  (@BaseUint.divide_eq WIDTH num div).trans (if_neg nz)

lemma divide_zero (num) : divide num 0 = .error (.runtimeError "Division by zero") := @BaseUint.divide_eq WIDTH num 0

lemma compareTo_eq_lt {a b} : compareTo a b = .lt ↔ a < b := by
  rw [← not_iff_not]
  exact (@BaseUint.not_lt_iff WIDTH a b).trans BitVec.not_lt.symm

end ArithUint256

end Peony
