import Mathlib.Data.List.Basic

/-!
# Programs that exit early

A step of a program goes through with a new state, or ends the program with an outcome. A step is
described by the exact condition under which it goes through, and by what holds of the outcome and
of the new state. Two steps in a row, and the rounds of a loop, are described from their parts.

## Main definitions

* `Decides c r Q R`: the condition `c` decides whether the step `r` goes through

## Main results

* `Decides.bind`: two steps in a row go through if both do
* `Decides.foldlM`: a loop goes through if each of its rounds does
-/

namespace Foundations

universe u

variable {E A : Type*} {S T : Type u}

/-! ## The first of several steps -/

section FirstStep

variable {r : Except E S} {step : S → A → Except E S} {s s' : S} {a : A} {e : E}

theorem bind_of_error (h : r = .error e) (f : S → Except E T) : (r >>= f) = .error e := by
  rw [h]
  rfl

theorem bind_of_ok (h : r = .ok s) (f : S → Except E T) : (r >>= f) = f s := by
  rw [h]
  rfl

theorem bind_eq_ok {f : S → Except E T} {t : T} :
    (r >>= f) = .ok t ↔ ∃ s, r = .ok s ∧ f s = .ok t := by
  cases r with
  | error e =>
    rw [bind_of_error rfl]
    constructor
    · rintro ⟨⟩
    · rintro ⟨s, ⟨⟩, -⟩
  | ok s =>
    rw [bind_of_ok rfl]
    constructor
    · exact fun h => ⟨s, rfl, h⟩
    · rintro ⟨s, ⟨⟩, h⟩
      exact h

theorem foldlM_cons_of_error (h : step s a = .error e) (as : List A) :
    (a :: as).foldlM step s = .error e := by
  rw [List.foldlM_cons, bind_of_error h]

theorem foldlM_cons_of_ok (h : step s a = .ok s') (as : List A) :
    (a :: as).foldlM step s = as.foldlM step s' := by
  rw [List.foldlM_cons, bind_of_ok h]

end FirstStep

/-! ## Conditions -/

/-- The condition `c` decides whether the step `r` goes through. Without it the program ends, with an
outcome that has `Q`; with it there is a new state, which has `R`. -/
def Decides (c : Prop) (r : Except E S) (Q : E → Prop) (R : S → Prop) : Prop :=
  (¬ c ∧ ∃ e, r = .error e ∧ Q e) ∨ (c ∧ ∃ s, r = .ok s ∧ R s)

namespace Decides

variable {c d : Prop} {r : Except E S} {Q : E → Prop} {R : S → Prop}

theorem error {e : E} (hc : ¬ c) (he : Q e) : Decides c (.error e) Q R := Or.inl ⟨hc, e, rfl, he⟩

theorem ok {s : S} (hc : c) (hs : R s) : Decides c (.ok s) Q R := Or.inr ⟨hc, s, rfl, hs⟩

theorem of_iff (h : Decides c r Q R) (hcd : c ↔ d) : Decides d r Q R := by
  unfold Decides at h ⊢
  rwa [← hcd]

theorem imp {P : S → Prop} (h : Decides c r Q R) (hRP : ∀ s, R s → P s) : Decides c r Q P := by
  rcases h with hend | ⟨hc, s, hs, hR⟩
  · exact Or.inl hend
  · exact Or.inr ⟨hc, s, hs, hRP s hR⟩

/-- **Two steps in a row** go through if both do. -/
theorem bind {f : S → Except E T} {P : T → Prop} (h : Decides c r Q R)
    (hf : ∀ s, R s → Decides d (f s) Q P) : Decides (c ∧ d) (r >>= f) Q P := by
  rcases h with ⟨hc, e, he, hQ⟩ | ⟨hc, s, hs, hR⟩
  · rw [bind_of_error he]
    exact error (fun h => hc h.1) hQ
  · rw [bind_of_ok hs]
    exact (hf s hR).of_iff ⟨fun hd => ⟨hc, hd⟩, fun h => h.2⟩

/-- **A loop** goes through if each of its rounds does. The invariant may speak of what is still to
come. -/
theorem foldlM {step : S → A → Except E S} {c : A → Prop} {I : List A → S → Prop}
    (hstep : ∀ a as s, I (a :: as) s → Decides (c a) (step s a) Q (I as)) {as : List A} {s : S}
    (hs : I as s) : Decides (∀ a ∈ as, c a) (as.foldlM step s) Q (I []) := by
  induction as generalizing s with
  | nil => exact ok (fun a ha => absurd ha List.not_mem_nil) hs
  | cons a as ih =>
    rw [List.foldlM_cons]
    exact ((hstep a as s hs).bind fun s' hs' => ih hs').of_iff List.forall_mem_cons.symm

end Decides

end Foundations
