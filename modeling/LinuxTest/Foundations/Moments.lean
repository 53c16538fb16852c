import Mathlib.Algebra.BigOperators.Intervals
import Mathlib.Algebra.CharZero.Defs
import Mathlib.Algebra.Field.Basic
import Mathlib.Data.Nat.Choose.Sum
import Mathlib.Tactic.FieldSimp
import Mathlib.Tactic.Ring

/-!
# Power sums and central moments of a list

The power sums of a list about a centre, the mean, and the central power sums. Moving the centre
expands binomially; with it the central power sums of a list extended by one element are those of
the list and a polynomial in the step of the mean. These are the one-pass update formulas.

## Main definitions

* `powerSum k c xs`: the sum of `(x - c) ^ k`
* `mean xs`, `centralSum k xs`: the mean, and the power sum about it
* `meanStep xs x`: by how much the mean moves when `x` is appended

## Main results

* `powerSum_add_centre`: the binomial expansion
* `mean_snoc`, `powerSum_one_mean`: the mean moves by `meanStep`, and is the balanced centre
* `centralSum_snoc`, and `centralSum_two_snoc` to `centralSum_four_snoc`: the one-pass updates
-/

namespace Foundations

open Finset

variable {K : Type*} [Field K]

/-- The sum of the `k`-th powers of the deviations from `c`. -/
def powerSum (k : ℕ) (c : K) (xs : List K) : K := (xs.map fun x => (x - c) ^ k).sum

/-- The arithmetic mean; zero for the empty list. -/
def mean (xs : List K) : K := xs.sum / xs.length

/-- The power sum about the mean. -/
def centralSum (k : ℕ) (xs : List K) : K := powerSum k (mean xs) xs

@[simp] theorem powerSum_nil (k : ℕ) (c : K) : powerSum k c [] = 0 := rfl

theorem powerSum_append (k : ℕ) (c : K) (xs ys : List K) :
    powerSum k c (xs ++ ys) = powerSum k c xs + powerSum k c ys := by
  simp [powerSum]

@[simp] theorem powerSum_cons (k : ℕ) (c x : K) (xs : List K) :
    powerSum k c (x :: xs) = (x - c) ^ k + powerSum k c xs := by
  simp [powerSum]

@[simp] theorem powerSum_zero (c : K) (xs : List K) : powerSum 0 c xs = xs.length := by
  simp [powerSum]

theorem powerSum_one (c : K) (xs : List K) : powerSum 1 c xs = xs.sum - xs.length * c := by
  induction xs with
  | nil => simp
  | cons x xs ih =>
    rw [powerSum_cons, ih, List.sum_cons, List.length_cons]
    push_cast
    ring

/-- **Moving the centre**: the power sums about `c + d` expand binomially in those about `c`. -/
theorem powerSum_add_centre (k : ℕ) (c d : K) (xs : List K) :
    powerSum k (c + d) xs =
      ∑ j ∈ range (k + 1), powerSum j c xs * (-d) ^ (k - j) * (k.choose j : K) := by
  induction xs with
  | nil => simp
  | cons x xs ih =>
    have hpow : (x - (c + d)) ^ k =
        ∑ j ∈ range (k + 1), (x - c) ^ j * (-d) ^ (k - j) * (k.choose j : K) := by
      rw [← add_pow]
      ring
    rw [powerSum_cons, ih, hpow, ← sum_add_distrib]
    refine sum_congr rfl fun j _ => ?_
    rw [powerSum_cons]
    ring

section Mean

variable [CharZero K]

/-- The deviations from the mean cancel. -/
theorem powerSum_one_mean (xs : List K) : powerSum 1 (mean xs) xs = 0 := by
  rw [powerSum_one, mean]
  rcases eq_or_ne xs [] with rfl | hne
  · simp
  · have hlen : (xs.length : K) ≠ 0 := by simpa using hne
    rw [mul_div_cancel₀ _ hlen, sub_self]

/-- By how much the mean moves when `x` is appended. -/
def meanStep (xs : List K) (x : K) : K := (x - mean xs) / (xs.length + 1)

theorem length_add_one_ne_zero (xs : List K) : (xs.length : K) + 1 ≠ 0 := by
  exact_mod_cast Nat.succ_ne_zero xs.length

theorem mean_snoc (xs : List K) (x : K) : mean (xs ++ [x]) = mean xs + meanStep xs x := by
  have hsucc := length_add_one_ne_zero xs
  unfold meanStep mean
  rw [List.sum_append, List.sum_singleton, List.length_append, List.length_singleton]
  push_cast
  rcases eq_or_ne xs [] with rfl | hne
  · simp
  · have hlen : (xs.length : K) ≠ 0 := by simpa using hne
    field_simp
    ring

/-- The deviation of the appended element from the new mean. -/
theorem sub_mean_snoc (xs : List K) (x : K) :
    x - (mean xs + meanStep xs x) = xs.length * meanStep xs x := by
  have hsucc := length_add_one_ne_zero xs
  unfold meanStep
  field_simp
  ring

/-- **The update of a central power sum**: the old elements about the moved mean, expanded about the
old one, and the deviation of the new element. -/
theorem centralSum_snoc (k : ℕ) (xs : List K) (x : K) :
    centralSum k (xs ++ [x]) =
      ∑ j ∈ range (k + 1), powerSum j (mean xs) xs * (-meanStep xs x) ^ (k - j) * (k.choose j : K) +
        (xs.length * meanStep xs x) ^ k := by
  rw [centralSum, mean_snoc, powerSum_append, powerSum_cons, powerSum_nil, add_zero, sub_mean_snoc,
    powerSum_add_centre]

/-- The update of the second moment. -/
theorem centralSum_two_snoc (xs : List K) (x : K) :
    centralSum 2 (xs ++ [x]) =
      centralSum 2 xs + (xs.length + 1) * xs.length * meanStep xs x ^ 2 := by
  rw [centralSum_snoc]
  simp only [sum_range_succ, range_zero, sum_empty, powerSum_zero, powerSum_one_mean, centralSum]
  norm_num [Nat.choose]
  ring

/-- The update of the third moment. -/
theorem centralSum_three_snoc (xs : List K) (x : K) :
    centralSum 3 (xs ++ [x]) =
      centralSum 3 xs +
        ((xs.length + 1) * xs.length * (xs.length - 1) * meanStep xs x ^ 3 -
          3 * meanStep xs x * centralSum 2 xs) := by
  rw [centralSum_snoc]
  simp only [sum_range_succ, range_zero, sum_empty, powerSum_zero, powerSum_one_mean, centralSum]
  norm_num [Nat.choose]
  ring

/-- The update of the fourth moment. -/
theorem centralSum_four_snoc (xs : List K) (x : K) :
    centralSum 4 (xs ++ [x]) =
      centralSum 4 xs +
        ((xs.length + 1) * xs.length * (xs.length ^ 2 - xs.length + 1) * meanStep xs x ^ 4 +
          6 * meanStep xs x ^ 2 * centralSum 2 xs - 4 * meanStep xs x * centralSum 3 xs) := by
  rw [centralSum_snoc]
  simp only [sum_range_succ, range_zero, sum_empty, powerSum_zero, powerSum_one_mean, centralSum]
  norm_num [Nat.choose]
  ring

end Mean

end Foundations
