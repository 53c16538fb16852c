import Mathlib.Data.Nat.ModEq

/-!
# Sums in ones' complement

A sum of words of `w` bits is folded to one word by adding what is above `w` bits to the rest. The
result is the sum modulo `2 ^ w - 1`, where zero is represented by itself only for an empty sum, and
by `2 ^ w - 1` otherwise. So a sum to which the complement of its own fold is added folds to all
ones.

## Main definitions

* `onesFold m n`: the representative of `n` modulo `m`, which is zero for zero alone
* `foldCarry b n`: what is above `b` is added to the rest, twice

## Main results

* `foldCarry_mod`: the two additions give the representative
* `onesFold_add_complement`: a sum with its own complement
* `onesFold_eq_self_iff`: the sums that fold to all ones
-/

namespace Foundations

/-- The representative of `n` modulo `m` between one and `m`; zero for zero alone. -/
def onesFold (m n : ℕ) : ℕ := if n = 0 then 0 else (n - 1) % m + 1

/-- What is above `b` is added to the rest, twice. -/
def foldCarry (b n : ℕ) : ℕ := n / b + n % b + (n / b + n % b) / b

section Fold

variable {m n : ℕ}

theorem onesFold_le (hm : 0 < m) : onesFold m n ≤ m := by
  unfold onesFold
  split_ifs
  · exact Nat.zero_le m
  · exact Nat.mod_lt _ hm

/-- **The sums that fold to all ones.** -/
theorem onesFold_eq_self_iff (hm : 0 < m) : onesFold m n = m ↔ n ≠ 0 ∧ m ∣ n := by
  unfold onesFold
  split_ifs with hn
  · exact iff_of_false hm.ne fun h => h.1 hn
  · obtain ⟨k, rfl⟩ := Nat.exists_eq_succ_of_ne_zero hn
    have hlt := Nat.mod_lt k hm
    rw [Nat.succ_sub_one, Nat.succ_eq_add_one]
    constructor
    · intro h
      refine ⟨hn, Nat.dvd_of_mod_eq_zero ?_⟩
      rw [Nat.add_mod, show k % m = m - 1 by omega]
      rcases Nat.lt_or_ge 1 m with hone | hone
      · rw [Nat.mod_eq_of_lt hone, Nat.sub_add_cancel hm, Nat.mod_self]
      · rw [show m = 1 by omega, Nat.mod_one]
    · rintro ⟨-, q, hq⟩
      have hk : k = m - 1 + m * (q - 1) := by
        cases q with
        | zero => simp at hq
        | succ q =>
          rw [Nat.mul_succ] at hq
          rw [Nat.add_sub_cancel]
          omega
      rw [hk, Nat.add_mul_mod_self_left, Nat.mod_eq_of_lt (Nat.sub_lt hm Nat.one_pos),
        Nat.sub_add_cancel hm]

/-- **A sum with its own complement** folds to all ones. -/
theorem onesFold_add_complement (hm : 0 < m) (n : ℕ) :
    onesFold m (n + (m - onesFold m n)) = m := by
  rw [onesFold_eq_self_iff hm]
  by_cases hn : n = 0
  · rw [hn, onesFold, if_pos rfl, Nat.zero_add, Nat.sub_zero]
    exact ⟨hm.ne', Nat.dvd_refl m⟩
  · have hfold : onesFold m n = (n - 1) % m + 1 := if_neg hn
    refine ⟨by omega, ⟨(n - 1) / m + 1, ?_⟩⟩
    have hdiv := Nat.div_add_mod (n - 1) m
    have hlt := Nat.mod_lt (n - 1) hm
    rw [hfold, Nat.mul_succ]
    omega

theorem onesFold_mul_add {k v : ℕ} (hv : 0 < v) (hle : v ≤ m) : onesFold m (m * k + v) = v := by
  have hne : m * k + v ≠ 0 := by omega
  rw [onesFold, if_neg hne, Nat.add_sub_assoc hv, Nat.mul_add_mod, Nat.mod_eq_of_lt (by omega)]
  exact Nat.sub_add_cancel hv

/-- **The two additions give the representative**, for a sum that is less than the square. -/
theorem foldCarry_mod {b : ℕ} (hn : n < b * b) : foldCarry b n % b = onesFold (b - 1) n := by
  have hb : 0 < b := Nat.pos_of_ne_zero fun hzero => by simp [hzero] at hn
  have hdiv := Nat.div_add_mod n b
  have hr := Nat.mod_lt n hb
  have hq : n / b < b := Nat.div_lt_of_lt_mul hn
  unfold foldCarry
  generalize n / b = q at *
  generalize n % b = r at *
  -- The sum is a multiple of `b - 1` and the sum of its two parts.
  have hsum : n = (b - 1) * q + (q + r) := by
    rw [← hdiv, ← Nat.add_assoc, Nat.sub_one_mul]
    have := Nat.le_mul_of_pos_left q hb
    omega
  rcases Nat.eq_zero_or_pos (q + r) with hzero | hpos
  · obtain ⟨rfl, rfl⟩ := Nat.add_eq_zero_iff.mp hzero
    rw [hsum]
    simp [onesFold]
  · rcases Nat.lt_or_ge (q + r) b with hlt | hge
    · rw [hsum, onesFold_mul_add hpos (by omega), Nat.div_eq_of_lt hlt]
      exact Nat.mod_eq_of_lt hlt
    · -- The addition of the two parts has a carry.
      have hcarry : (q + r) / b = 1 := Nat.div_eq_of_lt_le (by omega) (by omega)
      have hsplit : n = (b - 1) * (q + 1) + (q + r + 1 - b) := by
        rw [Nat.mul_succ, hsum]
        omega
      rw [hcarry, hsplit, onesFold_mul_add (by omega) (by omega), Nat.mod_eq_sub_mod (by omega)]
      exact Nat.mod_eq_of_lt (by omega)

end Fold

end Foundations
