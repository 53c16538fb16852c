import LinuxTest.Foundations.FullPeriod
import Mathlib.Data.BitVec

/-!
# The generator shared by the host and the board

`smyrand` and `myrand` of `preloader-uboot/test-lib/myrand.c`, a linear congruential generator over
the static word `rseed`. The product and the sum wrap to 32 bits, and `MYRAND_MAX` clears the sign
bit. The low bits of the returned values follow the integer recurrence, so that they have full
period at every width.

## Main definitions

* `smyrand`, `myrand`: seed the generator, and draw from it
* `value seed n`: what the `n`-th call returns after seeding, counting from zero

## Main results

* `value_modEq`: the values follow the integer recurrence modulo `2 ^ 31`
* `exactPeriod_lowBits`: the low `j` bits have exact period `2 ^ j`
* `existsUnique_lowBits`: every window of `2 ^ j` values takes each `j`-bit value once
-/

namespace LinuxTest.Uboot

open Foundations

/-- The largest value, `(1U << 31) - 1`. -/
def myrandMax : BitVec 32 := (1#32 <<< 31) - 1#32

/-- Seed the generator: the static word `rseed` afterwards. -/
def smyrand (x : BitVec 32) : BitVec 32 := x

/-- Draw a value: the value, and the static word `rseed` afterwards. -/
def myrand (rseed : BitVec 32) : BitVec 32 × BitVec 32 :=
  let rseed := (rseed * 1103515245#32 + 12345#32) &&& myrandMax
  (rseed, rseed)

/-- The static word after seeding and `n` draws. -/
def rseedAfter (seed : BitVec 32) (n : ℕ) : BitVec 32 := (fun r => (myrand r).2)^[n] (smyrand seed)

/-- What the `n`-th draw after seeding returns, counting from zero. -/
def value (seed : BitVec 32) (n : ℕ) : BitVec 32 := (myrand (rseedAfter seed n)).1

theorem rseedAfter_succ (seed : BitVec 32) (n : ℕ) : rseedAfter seed (n + 1) = value seed n :=
  Function.iterate_succ_apply' _ n _

/-- One draw is one step of the recurrence modulo `2 ^ 31`. -/
theorem toNat_myrand (rseed : BitVec 32) :
    (myrand rseed).1.toNat = (1103515245 * rseed.toNat + 12345) % 2 ^ 31 := by
  have hmask : myrandMax.toNat = 2 ^ 31 - 1 := by decide
  rw [myrand, BitVec.toNat_and, hmask, Nat.and_two_pow_sub_one_eq_mod, BitVec.toNat_add,
    BitVec.toNat_mul, BitVec.toNat_ofNat, BitVec.toNat_ofNat]
  omega

theorem myrand_modEq (rseed : BitVec 32) :
    ((myrand rseed).1.toNat : ℤ) ≡ affine 1103515245 12345 rseed.toNat [ZMOD 2 ^ 31] := by
  rw [toNat_myrand]
  push_cast
  exact Int.mod_modEq _ _

/-- **The values follow the integer recurrence** modulo `2 ^ 31`, from any seed. -/
theorem value_modEq (seed : BitVec 32) (n : ℕ) :
    ((value seed n).toNat : ℤ) ≡ (affine 1103515245 12345)^[n + 1] seed.toNat [ZMOD 2 ^ 31] := by
  induction n with
  | zero => exact myrand_modEq seed
  | succ n ih =>
    rw [value, rseedAfter_succ, Function.iterate_succ_apply']
    exact (myrand_modEq (value seed n)).trans (affine_modEq _ _ ih)

theorem toNat_lowBits (seed : BitVec 32) (j n : ℕ) :
    ((value seed n).setWidth j).toNat = (value seed n).toNat % 2 ^ j :=
  BitVec.toNat_setWidth j _

/-- Two values agree in their low `j` bits exactly when the iterates of the recurrence do. -/
theorem lowBits_eq_iff {j : ℕ} (hj : j ≤ 31) (seed : BitVec 32) (m n : ℕ) :
    (value seed m).setWidth j = (value seed n).setWidth j ↔
      (affine 1103515245 12345)^[m + 1] seed.toNat ≡
        (affine 1103515245 12345)^[n + 1] seed.toNat [ZMOD 2 ^ j] := by
  have hdvd : (2 : ℤ) ^ j ∣ 2 ^ 31 := pow_dvd_pow 2 hj
  have hm := (value_modEq seed m).of_dvd hdvd
  have hn := (value_modEq seed n).of_dvd hdvd
  have hcast : (value seed m).setWidth j = (value seed n).setWidth j ↔
      ((value seed m).toNat : ℤ) ≡ (value seed n).toNat [ZMOD 2 ^ j] := by
    rw [← BitVec.toNat_inj, toNat_lowBits, toNat_lowBits, Int.ModEq]
    norm_cast
  rw [hcast]
  constructor
  · intro h
    exact hm.symm.trans (h.trans hn)
  · intro h
    exact hm.trans (h.trans hn.symm)

/-- **The low `j` bits have exact period `2 ^ j`.** -/
theorem exactPeriod_lowBits {j : ℕ} (hj : j ≤ 31) (seed : BitVec 32) :
    ExactPeriod (2 ^ j) fun n => (value seed n).setWidth j := by
  intro m n
  -- The multiplier is one modulo four, and the increment is odd.
  have ha : (1103515245 : ℤ) ≡ 1 [ZMOD 4] := by decide
  have hc : Odd (12345 : ℤ) := by decide
  rw [lowBits_eq_iff hj, modEq_iterate_affine_iff ha hc]
  exact Nat.ModEq.add_iff_right rfl

/-- **Every window of `2 ^ j` values takes each `j`-bit value once** in its low bits. -/
theorem existsUnique_lowBits {j : ℕ} (hj : j ≤ 31) (seed : BitVec 32) (n : ℕ) (v : BitVec j) :
    ∃! i, i < 2 ^ j ∧ (value seed (n + i)).setWidth j = v := by
  have hperiod : ExactPeriod (2 ^ j) fun n => ((value seed n).setWidth j).toNat := by
    intro m n
    rw [BitVec.toNat_inj]
    exact exactPeriod_lowBits hj seed m n
  have hwindow := hperiod.existsUnique_window (fun n => BitVec.isLt _) n v.isLt
  simpa only [BitVec.toNat_inj] using hwindow

/-- The values fit in 31 bits. -/
theorem toNat_lowBits_31 (seed : BitVec 32) (n : ℕ) :
    ((value seed n).setWidth 31).toNat = (value seed n).toNat := by
  rw [toNat_lowBits, value, toNat_myrand, Nat.mod_mod]

theorem value_eq_iff (seed : BitVec 32) (m n : ℕ) :
    value seed m = value seed n ↔ (value seed m).setWidth 31 = (value seed n).setWidth 31 := by
  rw [← BitVec.toNat_inj, ← BitVec.toNat_inj, toNat_lowBits_31, toNat_lowBits_31]

end LinuxTest.Uboot
