import Peony.Consensus.MainNet
import Peony.Stake.Kernel

namespace Peony
open ArithUint256 Int
open BitVec (ofNat allOnes)

namespace CStakeKernel

def exactTarget (nBits : Nat) (stakeValue : Int) : Int := (setCompact nBits).toNat * (stakeValue / 100)

/-- The product and the comparison of `CheckKernelHash`, word by word. -/
def checkKernelHashWords (host : Host) (kernel : CStakeKernel) : Except Failure Bool := do
  let weight ← divide (ofNat 256 (kernel.stakeValue % 2 ^ 64).toNat) 100
  return compareTo (kernel.getHash host) (mul (setCompact kernel.nBits) weight) == .lt

theorem checkKernelHashWords_eq (host) (kernel : CStakeKernel) :
    kernel.checkKernelHashWords host = .ok (kernel.checkKernelHash host) := by
  have divides : divide (ofNat 256 (kernel.stakeValue % 2 ^ 64).toNat) 100 =
      .ok (ofNat 256 (kernel.stakeValue % 2 ^ 64).toNat / 100) := divide_eq (by decide)
  have below := compareTo_eq_lt (a := kernel.getHash host) (b := kernel.target)
  rw [checkKernelHashWords, divides]
  change Except.ok _ = _
  rw [mul_eq, checkKernelHash]
  congr 1
  rw [Bool.eq_iff_iff, beq_iff_eq, decide_eq_true_iff]
  exact below

variable {stakeValue : Int}
lemma weight_toNat (nonneg : 0 ≤ stakeValue) (fits : stakeValue < 2 ^ 63) :
    ((ofNat 256 (stakeValue % 2 ^ 64).toNat / 100).toNat : Int) = stakeValue / 100 := by
  have small : (stakeValue % 2 ^ 64).toNat < 2 ^ 256 := by omega
  rw [BitVec.toNat_udiv, BitVec.toNat_ofNat, Nat.mod_eq_of_lt small]
  change (((stakeValue % 2 ^ 64).toNat / 100 : Nat) : Int) = _
  omega

lemma exactTarget_nonneg {nBits} (nonneg : 0 ≤ stakeValue) : 0 ≤ exactTarget nBits stakeValue :=
  mul_nonneg (natCast_nonneg _) (ediv_nonneg nonneg (by decide))

lemma exactTarget_mono (nBits) {smaller larger} (more : smaller ≤ larger) :
    exactTarget nBits smaller ≤ exactTarget nBits larger :=
  Int.mul_le_mul_of_nonneg_left (Int.ediv_le_ediv (by decide) more) (Int.natCast_nonneg _)

lemma checkKernelHash_of_fits (host) (kernel : CStakeKernel) (nonneg : 0 ≤ kernel.stakeValue)
    (fits : kernel.stakeValue < 2 ^ 63) (small : exactTarget kernel.nBits kernel.stakeValue < 2 ^ 256) :
    kernel.checkKernelHash host = true ↔
      ((kernel.getHash host).toNat : Int) < exactTarget kernel.nBits kernel.stakeValue := by
  have value : (kernel.target.toNat : Int) = exactTarget kernel.nBits kernel.stakeValue % 2 ^ 256 := by simp [target, BitVec.toNat_mul,
      exactTarget, ← weight_toNat nonneg fits]
  rw [emod_eq_of_lt (exactTarget_nonneg nonneg) small] at value
  rw [checkKernelHash, decide_eq_true_iff, ← value]
  exact ofNat_lt.symm

/-- What the weighted target promises, for a difficulty and a coin's value. -/
structure StakeCounts (nBits : Nat) (stakeValue : Int) : Prop where
  exact : ∀ (host : Host) (kernel : CStakeKernel), kernel.nBits = nBits → kernel.stakeValue = stakeValue →
    (kernel.checkKernelHash host = true ↔ ((kernel.getHash host).toNat : Int) < exactTarget nBits stakeValue)
  monotone : ∀ (host : Host) (kernel : CStakeKernel) (smaller : Int), kernel.nBits = nBits → 0 ≤ smaller →
    smaller ≤ stakeValue → { kernel with stakeValue := smaller }.checkKernelHash host = true →
    { kernel with stakeValue := stakeValue }.checkKernelHash host = true

lemma StakeCounts.of_fits {nBits} (nonneg : 0 ≤ stakeValue) (fits : stakeValue < 2 ^ 63)
    (small : exactTarget nBits stakeValue < 2 ^ 256) : StakeCounts nBits stakeValue where
  exact := by
    rintro host kernel rfl rfl
    exact checkKernelHash_of_fits _ _ nonneg fits small
  monotone := by
    rintro host kernel smaller rfl nonneg' less accepts
    have more := exactTarget_mono kernel.nBits less
    have below := (checkKernelHash_of_fits _ { kernel with stakeValue := smaller } nonneg'
      (lt_of_le_of_lt less fits) (lt_of_le_of_lt more small)).mp accepts
    exact (checkKernelHash_of_fits _ { kernel with stakeValue := stakeValue } nonneg fits small).mpr
      (lt_of_lt_of_le below more)

def constantHost (hash : UInt256) : Host := { permissiveHost with hash := fun _ => hash }
def kernelOf (nBits : Nat) (stakeValue : Int) : CStakeKernel := ⟨[], 0, [], 0, nBits, stakeValue⟩

lemma constantHost_getHash (hash) (kernel : CStakeKernel) : kernel.getHash (constantHost hash) = hash := rfl

/-- The largest hash is below exactly the targets that do not fit in 256 bits. -/
lemma StakeCounts.fits {nBits} (counts : StakeCounts nBits stakeValue) : exactTarget nBits stakeValue < 2 ^ 256 := by
  by_contra large
  have top : (allOnes 256).toNat = 2 ^ 256 - 1 := BitVec.toNat_allOnes
  have accepts := (counts.exact (constantHost (allOnes _)) (kernelOf _ _) rfl rfl).mpr (by omega)
  rw [checkKernelHash, decide_eq_true_iff, constantHost_getHash, BitVec.lt_def] at accepts
  omega

theorem stakeCounts_iff {nBits : Nat} {stakeValue : Int} (nonneg : 0 ≤ stakeValue) (fits : stakeValue < 2 ^ 63) :
    StakeCounts nBits stakeValue ↔ exactTarget nBits stakeValue < 2 ^ 256 := by
  constructor
  · intro counts
    exact counts.fits
  · intro small
    exact StakeCounts.of_fits nonneg fits small

theorem stakeCounts_one_coin : StakeCounts 0x1e0fffff COIN := (stakeCounts_iff (by decide) (by decide)).mpr (by decide)

/-- A stake of some 1.1 million coins has the target zero, and a hash fit for a hundred satoshi is refused. -/
theorem largeStake_loses : getCompact (allOnes 256 >>> 20) = 0x1e0fffff ∧ mainConsensus.moneyRange (100 * 2 ^ 40) = true ∧
      (kernelOf 0x1e0fffff 100).checkKernelHash (constantHost 1) = true ∧
      (kernelOf 0x1e0fffff (100 * 2 ^ 40)).checkKernelHash (constantHost 1) = false ∧
      ((kernelOf 0x1e0fffff (100 * 2 ^ 40)).getHash (constantHost 1)).toNat < exactTarget 0x1e0fffff (100 * 2 ^ 40) ∧
      ¬ StakeCounts 0x1e0fffff (100 * 2 ^ 40) := by
  have large : ¬ exactTarget 0x1e0fffff (100 * 2 ^ 40) < 2 ^ 256 := by decide
  exact ⟨by decide, by decide, by decide, by decide, by decide, fun counts => large counts.fits⟩

end CStakeKernel

end Peony
