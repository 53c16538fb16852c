import Mathlib.Algebra.BigOperators.Group.List.Basic
import Mathlib.Data.BitVec
import Mathlib.Tactic.NormNum
import Mathlib.Tactic.Ring

/-!
# Integers in signed words

A signed word of `w + 1` bits holds the integers from `-2 ^ w` to `2 ^ w - 1`; every other integer
is reduced modulo `2 ^ (w + 1)` into this range.

## Main results

* `bmod_of_mem`, `toInt_ofInt_of_mem`: an integer in range is not changed
* `bmod_of_ge`, `bmod_of_lt`: one beyond the range, by less than its width, wraps around once
* `bmod_eq_iff`: when a word read as a signed one is a given number
* `foldl_add_word`: a sum in words is the word of the exact sum
-/

namespace Foundations

variable {x : ℤ}

theorem bmod_of_mem (w : ℕ) (hlo : -2 ^ w ≤ x) (hhi : x < 2 ^ w) : x.bmod (2 ^ (w + 1)) = x := by
  have hhalf : ((2 ^ (w + 1) : ℕ) : ℤ) = 2 * 2 ^ w := by
    push_cast
    ring
  exact Int.bmod_eq_of_le (by omega) (by omega)

theorem toInt_ofInt_of_mem (w : ℕ) (hlo : -2 ^ w ≤ x) (hhi : x < 2 ^ w) :
    (BitVec.ofInt (w + 1) x).toInt = x := by
  rw [BitVec.toInt_ofInt]
  exact bmod_of_mem w hlo hhi

theorem bmod_of_ge (w : ℕ) (hlo : 2 ^ w ≤ x) (hhi : x < 3 * 2 ^ w) :
    x.bmod (2 ^ (w + 1)) = x - 2 ^ (w + 1) := by
  have hwidth : ((2 ^ (w + 1) : ℕ) : ℤ) = 2 ^ (w + 1) := by push_cast; rfl
  have hpow : (2 : ℤ) ^ (w + 1) = 2 * 2 ^ w := by ring
  rw [← Int.sub_bmod_right x (2 ^ (w + 1)), hwidth]
  exact bmod_of_mem w (by omega) (by omega)

theorem bmod_of_lt (w : ℕ) (hlo : -(3 * 2 ^ w) ≤ x) (hhi : x < -2 ^ w) :
    x.bmod (2 ^ (w + 1)) = x + 2 ^ (w + 1) := by
  have hwidth : ((2 ^ (w + 1) : ℕ) : ℤ) = 2 ^ (w + 1) := by push_cast; rfl
  have hpow : (2 : ℤ) ^ (w + 1) = 2 * 2 ^ w := by ring
  rw [← Int.add_bmod_right x (2 ^ (w + 1)), hwidth]
  exact bmod_of_mem w (by omega) (by omega)

/-- A word without wrap, read as a signed one, is a nonnegative number exactly when it is that number
and in the range of signed ones. -/
theorem bmod_eq_iff (w : ℕ) {y : ℤ} (hlo : -2 ^ w ≤ x) (hhi : x < 2 ^ (w + 1)) (hy : 0 ≤ y) :
    x.bmod (2 ^ (w + 1)) = y ↔ x = y ∧ x < 2 ^ w := by
  have hpow : (2 : ℤ) ^ (w + 1) = 2 * 2 ^ w := by ring
  by_cases hx : x < 2 ^ w
  · rw [bmod_of_mem w hlo hx]
    exact ⟨fun h => ⟨h, hx⟩, fun h => h.1⟩
  · rw [bmod_of_ge w (not_lt.mp hx) (by omega)]
    exact ⟨fun h => by omega, fun h => absurd h.2 hx⟩

/-- **A sum in words** is the word of the exact sum, if every summand is that of its value. -/
theorem foldl_add_word {I : Type*} {w : ℕ} {f : I → BitVec w} {g : I → ℤ}
    (hfg : ∀ i, f i = BitVec.ofInt w (g i)) (a : BitVec w) (is : List I) :
    is.foldl (fun s i => s + f i) a = a + BitVec.ofInt w (is.map g).sum := by
  induction is generalizing a with
  | nil => simp
  | cons i is ih =>
    rw [List.foldl_cons, ih, List.map_cons, List.sum_cons, BitVec.ofInt_add, hfg, BitVec.add_assoc]

end Foundations
