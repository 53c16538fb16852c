import Mathlib.Data.BitVec
import Mathlib.Algebra.Order.Ring.Nat
import Mathlib.Algebra.Ring.Divisibility.Basic

/-!
# Alignment of machine words

Words are rounded to multiples of a power of two with a mask: down by clearing the low bits, and up
by an addition before that. The addition wraps. So a size that is rounded up covers the size that
was asked for only if that size, in exact arithmetic, is not in the last block of the address space.

## Main definitions

* `alignDown k x`, `alignUp k x`: `x` rounded to a multiple of `2 ^ k`

## Main results

* `toNat_alignDown`, `toNat_sub_alignDown`: the quotient and the remainder
* `le_alignUp_iff`: when a size that is rounded up covers what was asked for
-/

namespace Foundations

variable {w k : ℕ}

/-- Round down to a multiple of `2 ^ k`: clear the low bits. -/
def alignDown (k : ℕ) (x : BitVec w) : BitVec w := x &&& ~~~(BitVec.ofNat w (2 ^ k - 1))

/-- Round up to a multiple of `2 ^ k`, in words that wrap. -/
def alignUp (k : ℕ) (x : BitVec w) : BitVec w := alignDown k (x + BitVec.ofNat w (2 ^ k - 1))

theorem alignDown_eq_shift (k : ℕ) (x : BitVec w) : alignDown k x = x >>> k <<< k := by
  ext i hi
  have hmask : (BitVec.ofNat w (2 ^ k - 1))[i] = decide (i < k) := by
    rw [BitVec.getElem_eq_testBit_toNat, BitVec.testBit_toNat, BitVec.getLsbD_ofNat,
      Nat.testBit_two_pow_sub_one, decide_eq_true hi, Bool.true_and]
  by_cases hik : i < k
  · simp [alignDown, hmask, hik]
  · simp [alignDown, hmask, hik, Nat.add_sub_cancel' (Nat.not_lt.mp hik),
      BitVec.getLsbD_eq_getElem hi]

/-- **Rounding down** keeps the quotient. -/
theorem toNat_alignDown (k : ℕ) (x : BitVec w) :
    (alignDown k x).toNat = x.toNat / 2 ^ k * 2 ^ k := by
  have hle : x.toNat / 2 ^ k * 2 ^ k ≤ x.toNat := Nat.div_mul_le_self _ _
  rw [alignDown_eq_shift, BitVec.toNat_shiftLeft, BitVec.toNat_ushiftRight, Nat.shiftLeft_eq,
    Nat.shiftRight_eq_div_pow]
  exact Nat.mod_eq_of_lt (hle.trans_lt x.isLt)

/-- **What rounding down takes away** is the remainder. -/
theorem toNat_sub_alignDown (k : ℕ) (x : BitVec w) :
    (x - alignDown k x).toNat = x.toNat % 2 ^ k := by
  have hdown := toNat_alignDown k x
  have hdiv := Nat.div_add_mod' x.toNat (2 ^ k)
  rw [BitVec.toNat_sub_of_le (BitVec.le_def.mpr (by omega)), hdown]
  omega

theorem dvd_toNat_alignUp (k : ℕ) (x : BitVec w) : 2 ^ k ∣ (alignUp k x).toNat := by
  rw [alignUp, toNat_alignDown]
  exact Nat.dvd_mul_left _ _

/-- A multiple of the block is not in the last block, so it is at most the start of it. -/
theorem toNat_alignUp_le (hk : k ≤ w) (x : BitVec w) : (alignUp k x).toNat ≤ 2 ^ w - 2 ^ k := by
  obtain ⟨q, hq⟩ := dvd_toNat_alignUp k x
  have hlt : (alignUp k x).toNat < 2 ^ w := (alignUp k x).isLt
  have hpow : 2 ^ k * 2 ^ (w - k) = 2 ^ w := by rw [← pow_add, Nat.add_sub_cancel' hk]
  rw [hq, ← hpow] at hlt
  have hq' : q + 1 ≤ 2 ^ (w - k) := Nat.lt_of_mul_lt_mul_left hlt
  have hmul : 2 ^ k * (q + 1) ≤ 2 ^ w := hpow ▸ Nat.mul_le_mul_left _ hq'
  rw [hq]
  rw [Nat.mul_succ] at hmul
  omega

/-- **When a size that is rounded up covers what was asked for**: if that, in exact arithmetic, ends
before the last block. -/
theorem le_alignUp_iff (hk : k ≤ w) (n : ℕ) :
    n ≤ (alignUp k (BitVec.ofNat w n)).toNat ↔ n ≤ 2 ^ w - 2 ^ k := by
  constructor
  · exact fun h => h.trans (toNat_alignUp_le hk _)
  · intro hn
    have hpos : 0 < 2 ^ k := Nat.two_pow_pos k
    have hle : 2 ^ k ≤ 2 ^ w := Nat.pow_le_pow_right (by decide) hk
    -- Nothing wraps.
    have hsum : (BitVec.ofNat w n + BitVec.ofNat w (2 ^ k - 1)).toNat = n + (2 ^ k - 1) := by
      rw [← BitVec.ofNat_add, BitVec.toNat_ofNat, Nat.mod_eq_of_lt (by omega)]
    have hdiv := Nat.lt_div_mul_add (a := n + (2 ^ k - 1)) hpos
    rw [alignUp, toNat_alignDown, hsum]
    omega

end Foundations
