import Mathlib.Data.List.Basic

/-!
# Fail-stop scripts

A script performs actions one after another and stops at the first that fails. The world changes
while it runs: the `k`-th action meets the `k`-th of a sequence of worlds.

## Main definitions

* `execute perform world k as`: the actions `as`, the first of them at time `k`

## Main results

* `execute_ok_iff`: a script succeeds if and only if each of its actions does
-/

namespace Foundations

variable {A E W : Type*}

/-- Perform actions until one fails, the first of them at time `k`. -/
def execute (perform : W → A → Except E Unit) (world : ℕ → W) : ℕ → List A → Except E Unit
  | _, [] => .ok ()
  | k, a :: as =>
    match perform (world k) a with
    | .error e => .error e
    | .ok () => execute perform world (k + 1) as

/-- **A script succeeds if and only if each of its actions does**, in the world it meets. -/
theorem execute_ok_iff {perform : W → A → Except E Unit} {world : ℕ → W} {k : ℕ} {as : List A} :
    execute perform world k as = .ok () ↔
      ∀ i a, as[i]? = some a → perform (world (k + i)) a = .ok () := by
  induction as generalizing k with
  | nil => simp [execute]
  | cons a as ih =>
    -- The first action is the one at index zero; the others are shifted by one.
    have hsplit : (∀ i b, (a :: as)[i]? = some b → perform (world (k + i)) b = .ok ()) ↔
        perform (world k) a = .ok () ∧
          ∀ i b, as[i]? = some b → perform (world (k + 1 + i)) b = .ok () := by
      constructor
      · intro h
        refine ⟨h 0 a rfl, fun i b hb => ?_⟩
        have := h (i + 1) b hb
        rwa [← Nat.add_assoc, Nat.add_right_comm] at this
      · rintro ⟨hfirst, hrest⟩ i b hb
        cases i with
        | zero =>
          cases hb
          exact hfirst
        | succ i =>
          have := hrest i b hb
          rwa [Nat.add_right_comm, Nat.add_assoc] at this
    rw [hsplit, ← ih, execute]
    cases perform (world k) a with
    | error e => simp
    | ok u => simp

end Foundations
