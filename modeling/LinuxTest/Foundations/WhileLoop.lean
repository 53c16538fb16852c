import Mathlib.Data.Nat.ModEq
import Mathlib.Logic.Function.Iterate
import Mathlib.Tactic.Ring

/-!
# Loops that step through the multiples of a number

A `while` loop is run with a bound on its iterations, so that a loop that does not stop has no
result for any bound. Whether it stops, and where, is a statement about the iterates of its body.
For a loop that adds a constant `d` modulo `N`, these are the multiples of `d` modulo `N`, and the
largest of them is `N` less the greatest common divisor.

## Main definitions

* `whileLoop test body fuel s`: the state in which the loop stops, within `fuel` iterations

## Main results

* `exists_whileLoop_iff`: the loop stops at the first iterate that fails the test
* `whileLoop_invariant`: what every iteration keeps
* `exists_whileLoop_of_measure`: a loop whose iterations decrease a measure stops
* `exists_le_mul_mod_iff`: the multiples of `d` modulo `N` that are at least `a`
-/

namespace Foundations

section Loop

variable {S : Type*} (test : S → Prop) [DecidablePred test] (body : S → S)

/-- The state in which `while (test) body` stops, if it does so within `fuel` iterations. -/
def whileLoop : ℕ → S → Option S
  | 0, s => if test s then none else some s
  | fuel + 1, s => if test s then whileLoop fuel (body s) else some s

variable {test body}

theorem whileLoop_of_not {s : S} (h : ¬ test s) (fuel : ℕ) :
    whileLoop test body fuel s = some s := by
  cases fuel <;> exact if_neg h

theorem whileLoop_succ {s : S} (h : test s) (fuel : ℕ) :
    whileLoop test body (fuel + 1) s = whileLoop test body fuel (body s) :=
  if_pos h

/-- A loop that stopped did so at the first iterate that fails the test. -/
theorem exists_iterate_of_whileLoop {fuel : ℕ} {s t : S}
    (h : whileLoop test body fuel s = some t) :
    ∃ k, t = body^[k] s ∧ ¬ test t ∧ ∀ j < k, test (body^[j] s) := by
  induction fuel generalizing s with
  | zero =>
    by_cases hs : test s
    · simp [whileLoop, hs] at h
    · rw [whileLoop_of_not hs, Option.some_inj] at h
      exact ⟨0, h.symm, h ▸ hs, fun j hj => absurd hj (Nat.not_lt_zero j)⟩
  | succ fuel ih =>
    by_cases hs : test s
    · rw [whileLoop_succ hs] at h
      obtain ⟨k, hk, ht, hall⟩ := ih h
      refine ⟨k + 1, hk, ht, fun j hj => ?_⟩
      -- The first iteration is at `s`, the others are those of the rest of the loop.
      cases j with
      | zero => exact hs
      | succ j => exact hall j (Nat.lt_of_succ_lt_succ hj)
    · rw [whileLoop_of_not hs, Option.some_inj] at h
      exact ⟨0, h.symm, h ▸ hs, fun j hj => absurd hj (Nat.not_lt_zero j)⟩

/-- **What every iteration keeps** holds where the loop stops. -/
theorem whileLoop_invariant {I : S → Prop} (hbody : ∀ s, test s → I s → I (body s)) {fuel : ℕ}
    {s t : S} (hs : I s) (h : whileLoop test body fuel s = some t) : I t ∧ ¬ test t := by
  induction fuel generalizing s with
  | zero =>
    by_cases htest : test s
    · simp [whileLoop, htest] at h
    · rw [whileLoop_of_not htest, Option.some_inj] at h
      exact h ▸ ⟨hs, htest⟩
  | succ fuel ih =>
    by_cases htest : test s
    · rw [whileLoop_succ htest] at h
      exact ih (hbody s htest hs) h
    · rw [whileLoop_of_not htest, Option.some_inj] at h
      exact h ▸ ⟨hs, htest⟩

/-- **A loop whose iterations decrease a measure stops.** Both the decrease and the invariant are
asked only where the loop goes on. -/
theorem exists_whileLoop_of_measure {I : S → Prop} (μ : S → ℕ)
    (hbody : ∀ s, test s → I s → I (body s)) (hlt : ∀ s, test s → I s → μ (body s) < μ s) {s : S}
    (hs : I s) : ∃ fuel t, whileLoop test body fuel s = some t := by
  -- A bound on the measure is a bound on the iterations.
  suffices hbound : ∀ n s, I s → μ s ≤ n → ∃ t, whileLoop test body n s = some t from
    ⟨μ s, hbound (μ s) s hs (Nat.le_refl _)⟩
  intro n
  induction n with
  | zero =>
    intro s hs hn
    have htest : ¬ test s := fun htest => by
      have := hlt s htest hs
      omega
    exact ⟨s, whileLoop_of_not htest 0⟩
  | succ n ih =>
    intro s hs hn
    by_cases htest : test s
    · have hless := hlt s htest hs
      rw [whileLoop_succ htest]
      exact ih (body s) (hbody s htest hs) (by omega)
    · exact ⟨s, whileLoop_of_not htest (n + 1)⟩

/-- As many iterations as pass the test are enough. -/
theorem whileLoop_iterate {k : ℕ} {s : S} (hk : ¬ test (body^[k] s))
    (hall : ∀ j < k, test (body^[j] s)) : whileLoop test body k s = some (body^[k] s) := by
  induction k generalizing s with
  | zero => exact whileLoop_of_not hk 0
  | succ k ih =>
    have hs : test s := hall 0 (Nat.succ_pos k)
    rw [whileLoop_succ hs]
    exact ih hk fun j hj => hall (j + 1) (Nat.succ_lt_succ hj)

/-- **Where a loop stops**: at the first iterate that fails the test. -/
theorem exists_whileLoop_iff {s t : S} :
    (∃ fuel, whileLoop test body fuel s = some t) ↔
      ∃ k, t = body^[k] s ∧ ¬ test t ∧ ∀ j < k, test (body^[j] s) := by
  constructor
  · rintro ⟨fuel, h⟩
    exact exists_iterate_of_whileLoop h
  · rintro ⟨k, rfl, hk, hall⟩
    exact ⟨k, whileLoop_iterate hk hall⟩

/-- **When a loop stops**: if some iterate fails the test. -/
theorem exists_whileLoop_isSome_iff {s : S} :
    (∃ fuel t, whileLoop test body fuel s = some t) ↔ ∃ k, ¬ test (body^[k] s) := by
  constructor
  · rintro ⟨fuel, t, h⟩
    obtain ⟨k, rfl, hk, -⟩ := exists_iterate_of_whileLoop h
    exact ⟨k, hk⟩
  · rintro ⟨k, hk⟩
    classical
    have hex : ∃ k, ¬ test (body^[k] s) := ⟨k, hk⟩
    exact ⟨_, _, whileLoop_iterate (Nat.find_spec hex) fun j hj => not_not.mp (Nat.find_min hex hj)⟩

end Loop

section Multiples

variable {N d a : ℕ}

/-- A multiple of `d` modulo `N` is at most `N` less the greatest common divisor. -/
theorem mul_mod_le (hN : 0 < N) (k : ℕ) : k * d % N ≤ N - Nat.gcd d N := by
  have hdvd : Nat.gcd d N ∣ k * d % N :=
    (Nat.dvd_mod_iff (Nat.gcd_dvd_right d N)).mpr ((Nat.gcd_dvd_left d N).mul_left k)
  have hlt : k * d % N < N := Nat.mod_lt _ hN
  -- Both are multiples of the divisor, so the smaller one is smaller by at least the divisor.
  have hsub : Nat.gcd d N ∣ N - k * d % N := Nat.dvd_sub (Nat.gcd_dvd_right d N) hdvd
  have := Nat.le_of_dvd (by omega) hsub
  omega

/-- The largest multiple is attained. -/
theorem exists_mul_mod_eq (hN : 0 < N) : ∃ k, (k + 1) * d % N = N - Nat.gcd d N := by
  have hpos : 0 < Nat.gcd d N := Nat.gcd_pos_of_pos_right d hN
  by_cases hlt : Nat.gcd d N < N
  · obtain ⟨u, -, hu⟩ := Nat.exists_mul_mod_eq_gcd hlt
    -- The divisor is a multiple of `d`, and so is its opposite.
    have hmod : d * u ≡ Nat.gcd d N [MOD N] := by
      rw [Nat.ModEq, hu, Nat.mod_eq_of_lt hlt]
    have hopp : ((N - 1) * u + (N - 1) + 1) * d ≡ N - Nat.gcd d N [MOD N] := by
      calc ((N - 1) * u + (N - 1) + 1) * d
          = (N - 1) * (d * u) + N * d := by
            rw [Nat.add_assoc, Nat.sub_add_cancel hN]
            ring
        _ ≡ (N - 1) * (d * u) [MOD N] := by simp [Nat.ModEq]
        _ ≡ (N - 1) * Nat.gcd d N [MOD N] := hmod.mul_left _
        _ = N - Nat.gcd d N + N * (Nat.gcd d N - 1) := by
            have hle : N ≤ N * Nat.gcd d N := Nat.le_mul_of_pos_right N hpos
            rw [Nat.sub_mul, Nat.mul_sub]
            omega
        _ ≡ N - Nat.gcd d N [MOD N] := by simp [Nat.ModEq]
    exact ⟨_, Eq.trans hopp (Nat.mod_eq_of_lt (by omega))⟩
  · have hdvd : N ∣ d := by
      have hle : Nat.gcd d N ≤ N := Nat.le_of_dvd hN (Nat.gcd_dvd_right d N)
      have heq : Nat.gcd d N = N := by omega
      exact heq ▸ Nat.gcd_dvd_left d N
    refine ⟨0, ?_⟩
    rw [Nat.zero_add, Nat.one_mul, Nat.mod_eq_zero_of_dvd hdvd]
    omega

/-- **The multiples of `d` modulo `N`** reach `a` exactly when it is at most `N` less the greatest
common divisor. -/
theorem exists_le_mul_mod_iff (hN : 0 < N) :
    (∃ k, a ≤ (k + 1) * d % N) ↔ a ≤ N - Nat.gcd d N := by
  constructor
  · rintro ⟨k, hk⟩
    exact hk.trans (mul_mod_le hN (k + 1))
  · intro ha
    obtain ⟨k, hk⟩ := exists_mul_mod_eq (d := d) hN
    exact ⟨k, hk ▸ ha⟩

end Multiples

end Foundations
