import Mathlib.Data.List.Range

/-!
# Loops over an index

A `for` loop that runs an index from zero up to a bound, and a sequence of checks that stops at the
first one that fails. A loop often treats each index once: its body at an index finishes what
belongs to that index, and leaves alone what belongs to the others.

## Main definitions

* `forLoop n body s`: the state after the rounds `0, .., n - 1`
* `untilFailure checks s`: run the checks in order, up to the first that does not return zero

## Main results

* `forLoop_invariant`: what every round keeps
* `forLoop_each`: a loop that treats each index once
* `untilFailure_of_invariant`, `untilFailure_map_eq_zero_iff`: when all checks pass
* `exists_untilFailure_concat`: what is left if they do
-/

namespace Foundations

variable {S : Type*}

/-! ## Rounds -/

/-- `for (i = 0; i < n; i++) s = body(i, s)`: the last state. -/
def forLoop (n : ℕ) (body : ℕ → S → S) (s : S) : S := (List.range n).foldl (fun s i => body i s) s

@[simp] theorem forLoop_zero (body : ℕ → S → S) (s : S) : forLoop 0 body s = s := rfl

@[simp] theorem forLoop_succ (n : ℕ) (body : ℕ → S → S) (s : S) :
    forLoop (n + 1) body s = body n (forLoop n body s) := by
  rw [forLoop, List.range_succ, List.foldl_append]
  rfl

section Rules

variable {n : ℕ} {body : ℕ → S → S} {s : S}

/-- **What every round keeps** holds at the end. -/
theorem forLoop_invariant {I : ℕ → S → Prop} (hbody : ∀ i < n, ∀ s, I i s → I (i + 1) (body i s))
    (hs : I 0 s) : I n (forLoop n body s) := by
  induction n with
  | zero => exact hs
  | succ n ih =>
    rw [forLoop_succ]
    exact hbody n (Nat.lt_succ_self n) _ (ih fun i hi => hbody i (Nat.lt_succ_of_lt hi))

/-- **A loop that treats each index once**: the round of an index turns `P` into `Q` there, and the
other rounds keep both. -/
theorem forLoop_each {P Q : ℕ → S → Prop} (hbody : ∀ i < n, ∀ s, P i s → Q i (body i s))
    (hP : ∀ i < n, ∀ k < n, i ≠ k → ∀ s, P k s → P k (body i s))
    (hQ : ∀ i < n, ∀ k < n, i ≠ k → ∀ s, Q k s → Q k (body i s))
    (hs : ∀ k < n, P k s) : ∀ k < n, Q k (forLoop n body s) := by
  -- After `i` rounds the indices below `i` are finished and the others are untouched.
  have hall : (∀ k < n, k < n → Q k (forLoop n body s)) ∧
      ∀ k < n, n ≤ k → P k (forLoop n body s) := by
    refine forLoop_invariant
      (I := fun i s => (∀ k < n, k < i → Q k s) ∧ ∀ k < n, i ≤ k → P k s) ?_
      ⟨fun k _ hk => absurd hk (Nat.not_lt_zero k), fun k hk _ => hs k hk⟩
    rintro i hi s ⟨hdone, htodo⟩
    constructor
    · intro k hk hki
      by_cases hik : i = k
      · exact hik ▸ hbody i hi s (htodo i hi (Nat.le_refl i))
      · exact hQ i hi k hk hik s (hdone k hk (by omega))
    · intro k hk hik
      exact hP i hi k hk (by omega) s (htodo k hk (by omega))
  exact fun k hk => hall.1 k hk hk

end Rules

/-! ## Checks -/

/-- Run checks in order; the first that does not return zero ends the sequence with `-1`. -/
def untilFailure : List (S → ℤ × S) → S → ℤ × S
  | [], s => (0, s)
  | check :: checks, s =>
    if (check s).1 = 0 then untilFailure checks (check s).2 else (-1, (check s).2)

section Checks

variable {check : S → ℤ × S} {checks : List (S → ℤ × S)} {s : S}

theorem untilFailure_cons_of_eq_zero (h : (check s).1 = 0) (checks : List (S → ℤ × S)) :
    untilFailure (check :: checks) s = untilFailure checks (check s).2 := if_pos h

theorem untilFailure_cons_of_ne_zero (h : (check s).1 ≠ 0) (checks : List (S → ℤ × S)) :
    untilFailure (check :: checks) s = (-1, (check s).2) := if_neg h

/-- **Checks that pass whenever an invariant holds**, and keep it. -/
theorem untilFailure_of_invariant {I : S → Prop}
    (hcheck : ∀ check ∈ checks, ∀ s, I s → (check s).1 = 0 ∧ I (check s).2) (hs : I s) :
    (untilFailure checks s).1 = 0 ∧ I (untilFailure checks s).2 := by
  induction checks generalizing s with
  | nil => exact ⟨rfl, hs⟩
  | cons check checks ih =>
    obtain ⟨hzero, hI⟩ := hcheck check List.mem_cons_self s hs
    rw [untilFailure_cons_of_eq_zero hzero]
    exact ih (fun c hc => hcheck c (List.mem_cons_of_mem check hc)) hI

/-- **When a family of checks passes**, if what each one returns does not depend on the state. -/
theorem untilFailure_map_eq_zero_iff {A : Type*} {check : A → S → ℤ × S} {as : List A}
    {passes : A → Prop} (hcheck : ∀ a ∈ as, ∀ s, (check a s).1 = 0 ↔ passes a) (s : S) :
    (untilFailure (as.map check) s).1 = 0 ↔ ∀ a ∈ as, passes a := by
  induction as generalizing s with
  | nil => exact ⟨fun _ a ha => absurd ha List.not_mem_nil, fun _ => rfl⟩
  | cons a as ih =>
    have hfirst := hcheck a List.mem_cons_self s
    rw [List.map_cons, List.forall_mem_cons]
    by_cases hzero : (check a s).1 = 0
    · rw [untilFailure_cons_of_eq_zero hzero,
        ih (fun a' ha' => hcheck a' (List.mem_cons_of_mem a ha'))]
      exact ⟨fun h => ⟨hfirst.mp hzero, h⟩, fun h => h.2⟩
    · rw [untilFailure_cons_of_ne_zero hzero]
      constructor
      · intro h
        exact absurd h (Int.negSucc_ne_zero 0)
      · intro h
        exact absurd (hfirst.mpr h.1) hzero

/-- If all checks pass, the last one has the last word. -/
theorem exists_untilFailure_concat {last : S → ℤ × S}
    (h : (untilFailure (checks ++ [last]) s).1 = 0) :
    ∃ s', untilFailure (checks ++ [last]) s = (0, (last s').2) := by
  induction checks generalizing s with
  | nil =>
    rw [List.nil_append] at h ⊢
    by_cases hzero : (last s).1 = 0
    · exact ⟨s, untilFailure_cons_of_eq_zero hzero []⟩
    · rw [untilFailure_cons_of_ne_zero hzero] at h
      exact absurd h (Int.negSucc_ne_zero 0)
  | cons check checks ih =>
    rw [List.cons_append] at h ⊢
    by_cases hzero : (check s).1 = 0
    · rw [untilFailure_cons_of_eq_zero hzero] at h ⊢
      exact ih h
    · rw [untilFailure_cons_of_ne_zero hzero] at h
      exact absurd h (Int.negSucc_ne_zero 0)

end Checks

end Foundations
