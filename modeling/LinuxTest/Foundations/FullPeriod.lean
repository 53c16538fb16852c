import Mathlib.Algebra.Field.GeomSum
import Mathlib.Algebra.Order.Ring.GeomSum
import Mathlib.Data.Fintype.EquivFin
import Mathlib.Data.Int.ModEq
import Mathlib.RingTheory.Coprime.Lemmas
import Mathlib.RingTheory.Int.Basic
import Mathlib.Tactic.Ring

/-!
# Sequences of exact period, and affine maps modulo powers of two

A sequence has exact period `N` when its values at two indices agree exactly when the indices agree
modulo `N`. If it takes at most `N` values, every window of `N` consecutive indices meets each value
once. The iterates of `x ↦ a * x + c` modulo `2 ^ j` are such a sequence for every `j`, as soon as
`a` is one modulo four and `c` is odd: the difference of two iterates is a geometric sum times an odd
number, and the geometric sum is divisible by exactly the powers of two that divide its length.

## Main definitions

* `ExactPeriod N u`: the values of `u` agree exactly at indices that agree modulo `N`
* `affine a c`: the map `x ↦ a * x + c`

## Main results

* `ExactPeriod.shift_iff`: the periods are the multiples of `N`
* `ExactPeriod.existsUnique_window`: every window meets each value once
* `two_pow_dvd_geom_sum`: the powers of two in a geometric sum
* `modEq_iterate_affine_iff`: the affine map has full period modulo every power of two
-/

namespace Foundations

/-! ## Exact periods -/

section ExactPeriod

variable {α : Type*} {N : ℕ} {u : ℕ → α}

/-- The values agree exactly at indices that agree modulo `N`. -/
def ExactPeriod (N : ℕ) (u : ℕ → α) : Prop := ∀ m n, u m = u n ↔ m ≡ n [MOD N]

/-- **The periods are the multiples of `N`.** -/
theorem ExactPeriod.shift_iff (h : ExactPeriod N u) (T : ℕ) :
    (∀ n, u (n + T) = u n) ↔ N ∣ T := by
  constructor
  · intro hT
    -- Read the period at index zero.
    exact (Nat.modEq_zero_iff_dvd).mp (by simpa using (h (0 + T) 0).mp (hT 0))
  · intro hdvd n
    apply (h (n + T) n).mpr
    simpa using ((Nat.modEq_zero_iff_dvd).mpr hdvd).add_left n

/-- Two indices of one window with the same value are equal. -/
theorem ExactPeriod.injective_window (h : ExactPeriod N u) (n : ℕ) :
    Function.Injective fun i : Fin N => u (n + i) := by
  intro i k hik
  have hmod : (i : ℕ) ≡ k [MOD N] := (Nat.ModEq.add_iff_left rfl).mp ((h _ _).mp hik)
  exact Fin.ext (hmod.eq_of_lt_of_lt i.isLt k.isLt)

/-- **Every window meets each value once**, for a sequence with values below its period. -/
theorem ExactPeriod.existsUnique_window {u : ℕ → ℕ} (h : ExactPeriod N u) (hlt : ∀ n, u n < N)
    (n : ℕ) {v : ℕ} (hv : v < N) : ∃! i, i < N ∧ u (n + i) = v := by
  -- An injective map of `Fin N` to itself is surjective.
  have hinj : Function.Injective fun i : Fin N => (⟨u (n + i), hlt _⟩ : Fin N) := by
    intro i k hik
    exact h.injective_window n (Fin.mk.inj hik)
  obtain ⟨i, hi⟩ := Finite.surjective_of_injective hinj ⟨v, hv⟩
  have hiv : u (n + i) = v := Fin.mk.inj hi
  refine ⟨i, ⟨i.isLt, hiv⟩, ?_⟩
  rintro k ⟨hk, hkv⟩
  have hki : (⟨k, hk⟩ : Fin N) = i := h.injective_window n (hkv.trans hiv.symm)
  exact congrArg Fin.val hki

end ExactPeriod

/-! ## Affine maps modulo powers of two -/

section Affine

variable {a c : ℤ}

/-- The map `x ↦ a * x + c`. -/
def affine (a c x : ℤ) : ℤ := a * x + c

/-- An affine map respects congruence. -/
theorem affine_modEq {m x y : ℤ} (a c : ℤ) (h : x ≡ y [ZMOD m]) :
    affine a c x ≡ affine a c y [ZMOD m] :=
  (h.mul_left a).add_right c

theorem iterate_affine (a c x : ℤ) (n : ℕ) :
    (affine a c)^[n] x = a ^ n * x + (∑ i ∈ Finset.range n, a ^ i) * c := by
  induction n with
  | zero => simp
  | succ n ih =>
    rw [Function.iterate_succ_apply', ih, geom_sum_succ, affine]
    ring

/-- The difference of two iterates is a geometric sum times the first increment. -/
theorem iterate_affine_add_sub (a c x : ℤ) (n k : ℕ) :
    (affine a c)^[k + n] x - (affine a c)^[n] x =
      (∑ i ∈ Finset.range k, a ^ i) * ((a - 1) * (affine a c)^[n] x + c) := by
  have hpow : a ^ k = 1 + (∑ i ∈ Finset.range k, a ^ i) * (a - 1) := by
    rw [geom_sum_mul]
    ring
  rw [Function.iterate_add_apply, iterate_affine a c _ k, hpow]
  ring

theorem geom_sum_two_mul (a : ℤ) (k : ℕ) :
    ∑ i ∈ Finset.range (2 * k), a ^ i = (1 + a ^ k) * ∑ i ∈ Finset.range k, a ^ i := by
  rw [two_mul, Finset.sum_range_add, Finset.sum_congr rfl fun i _ => pow_add a k i,
    ← Finset.mul_sum]
  ring

/-- A power of a number that is one modulo four is one modulo four. -/
theorem pow_modEq_one (ha : a ≡ 1 [ZMOD 4]) (k : ℕ) : a ^ k ≡ 1 [ZMOD 4] := by
  simpa using ha.pow k

/-- An odd factor does not matter for divisibility by a power of two. -/
theorem two_pow_dvd_mul_iff {b : ℤ} (hb : Odd b) (j : ℕ) (m : ℤ) :
    (2 : ℤ) ^ j ∣ m * b ↔ (2 : ℤ) ^ j ∣ m := by
  have hcop : IsCoprime ((2 : ℤ) ^ j) b := (Int.isCoprime_two_left.mpr hb).pow_left
  exact ⟨hcop.dvd_of_dvd_mul_right, fun h => h.mul_right b⟩

/-- **The powers of two in a geometric sum** are those in its length. -/
theorem two_pow_dvd_geom_sum (ha : a ≡ 1 [ZMOD 4]) (j k : ℕ) :
    (2 : ℤ) ^ j ∣ ∑ i ∈ Finset.range k, a ^ i ↔ 2 ^ j ∣ k := by
  have hodd : Odd a := by
    unfold Int.ModEq at ha
    exact Int.odd_iff.mpr (by omega)
  -- Halve the length with each factor of two.
  induction j generalizing k with
  | zero => simp
  | succ j ih =>
    rcases Nat.even_or_odd' k with ⟨k, rfl | rfl⟩
    · -- The extra factor `1 + a ^ k` is twice an odd number.
      obtain ⟨r, hr⟩ : ∃ r, 1 + a ^ k = 2 * (2 * r + 1) := by
        have := pow_modEq_one ha k
        unfold Int.ModEq at this
        exact ⟨(1 + a ^ k) / 4, by omega⟩
      have hsum : ∑ i ∈ Finset.range (2 * k), a ^ i =
          2 * ((∑ i ∈ Finset.range k, a ^ i) * (2 * r + 1)) := by
        rw [geom_sum_two_mul, hr]
        ring
      rw [hsum, pow_succ', mul_dvd_mul_iff_left (two_ne_zero' ℤ), two_pow_dvd_mul_iff ⟨r, rfl⟩,
        pow_succ', Nat.mul_dvd_mul_iff_left two_pos]
      exact ih k
    · -- A sum of an odd number of odd terms is odd.
      have hsum : Odd (∑ i ∈ Finset.range (2 * k + 1), a ^ i) := by
        rw [geom_sum_succ, geom_sum_two_mul]
        obtain ⟨r, hr⟩ : Even (1 + a ^ k) := (odd_one).add_odd hodd.pow
        rw [hr]
        exact ⟨a * r * ∑ i ∈ Finset.range k, a ^ i, by ring⟩
      constructor
      · intro hdvd
        have htwo : (2 : ℤ) ∣ _ := (dvd_pow_self 2 j.succ_ne_zero).trans hdvd
        exact absurd (even_iff_two_dvd.mpr htwo) (Int.not_even_iff_odd.mpr hsum)
      · intro hdvd
        have htwo : 2 ∣ 2 * k + 1 := (dvd_pow_self 2 j.succ_ne_zero).trans hdvd
        omega

/-- **Full period.** Modulo every power of two, iterates agree exactly when their numbers do. -/
theorem modEq_iterate_affine_iff (ha : a ≡ 1 [ZMOD 4]) (hc : Odd c) (x : ℤ) (j m n : ℕ) :
    (affine a c)^[m] x ≡ (affine a c)^[n] x [ZMOD 2 ^ j] ↔ m ≡ n [MOD 2 ^ j] := by
  -- By symmetry the first index is the larger one.
  wlog hle : n ≤ m generalizing m n with H
  · rw [Int.modEq_comm, Nat.ModEq.comm]
    exact H n m (by omega)
  obtain ⟨k, rfl⟩ : ∃ k, m = k + n := ⟨m - n, by omega⟩
  have heven : Even (a - 1) := by
    unfold Int.ModEq at ha
    exact Int.even_iff.mpr (by omega)
  have hodd : Odd ((a - 1) * (affine a c)^[n] x + c) := (heven.mul_right _).add_odd hc
  rw [Int.modEq_comm, Int.modEq_iff_dvd, iterate_affine_add_sub, two_pow_dvd_mul_iff hodd,
    two_pow_dvd_geom_sum ha, Nat.ModEq.comm, Nat.modEq_iff_dvd' (by omega)]
  simp

end Affine

end Foundations
