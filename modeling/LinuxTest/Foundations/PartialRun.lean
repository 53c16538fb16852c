import Mathlib.Data.List.Induction
import Mathlib.Data.List.Nodup

/-!
# Runs of a partial step function

A machine with states `S` and events `E` is a step function `S → E → Option S`, undefined where
the program it models has no result. A run folds the step over a list of events. This module
states the induction principles that the properties of whole runs are derived from.

## Main definitions

* `run step s es`: the state after the events `es`, if every step is defined

## Main results

* `run_snoc`, `run_append`: a run is extended one event, or one list of events, at a time
* `exists_run_of_history`: an invariant of the history and the state, kept by every step, holds
  after every run, and every run is defined
* `run_preserves`: a property kept by every step of a run holds at its end
* `exists_run_of_simulation`: runs from related states stay related
* `run_map_of_equivariant`: a map of states and events that commutes with the step commutes with
  the runs
* `run_update_of_forall`: a loop that updates every cell of an array once
-/

namespace Foundations

variable {S S' E E' : Type*}

/-- The state after the events `es`, if every step is defined. -/
def run (step : S → E → Option S) (s : S) (es : List E) : Option S :=
  es.foldlM step s

variable {step : S → E → Option S}

@[simp] theorem run_nil (s : S) : run step s [] = some s := rfl

@[simp] theorem run_cons (s : S) (e : E) (es : List E) :
    run step s (e :: es) = (step s e).bind fun s' => run step s' es := rfl

theorem run_append (s : S) (es es' : List E) :
    run step s (es ++ es') = (run step s es).bind fun s' => run step s' es' := by
  unfold run
  rw [List.foldlM_append]
  rfl

theorem run_snoc (s : S) (es : List E) (e : E) :
    run step s (es ++ [e]) = (run step s es).bind fun s' => step s' e := by
  rw [run_append]
  refine congrArg _ (funext fun s' => ?_)
  cases h : step s' e <;> simp [h]

/-- **The invariant rule**: a relation between the history and the state that holds initially,
and that every event extends to a defined step, holds after every run. -/
theorem exists_run_of_history {Inv : List E → S → Prop} {s : S} (hinit : Inv [] s)
    (hstep : ∀ h s, Inv h s → ∀ e, ∃ s', step s e = some s' ∧ Inv (h ++ [e]) s') (es : List E) :
    ∃ s', run step s es = some s' ∧ Inv es s' := by
  induction es using List.reverseRecOn with
  | nil => exact ⟨s, rfl, hinit⟩
  | append_singleton es e ih =>
    obtain ⟨s₁, hrun, hinv⟩ := ih
    obtain ⟨s₂, he, hinv'⟩ := hstep es s₁ hinv e
    exact ⟨s₂, by rw [run_snoc, hrun]; exact he, hinv'⟩

/-- **The preservation rule**: a property of states that every step of a run keeps holds at its
end. -/
theorem run_preserves {P : S → Prop} {s s' : S} {es : List E}
    (hstep : ∀ e ∈ es, ∀ s s', P s → step s e = some s' → P s') (hs : P s)
    (hrun : run step s es = some s') : P s' := by
  induction es generalizing s with
  | nil =>
    cases hrun
    exact hs
  | cons e es ih =>
    obtain ⟨s₁, he, hrun⟩ := Option.bind_eq_some_iff.mp hrun
    exact ih (fun e' he' => hstep e' (List.mem_cons_of_mem e he'))
      (hstep e List.mem_cons_self s s₁ hs he) hrun

/-- **The simulation rule**: a relation such that every step from one state is matched from a
related one lifts to whole runs. -/
theorem exists_run_of_simulation {R : S → S → Prop}
    (hstep : ∀ s t e s', R s t → step s e = some s' → ∃ t', step t e = some t' ∧ R s' t')
    {s t s' : S} {es : List E} (hst : R s t) (hrun : run step s es = some s') :
    ∃ t', run step t es = some t' ∧ R s' t' := by
  induction es generalizing s t with
  | nil =>
    cases hrun
    exact ⟨t, rfl, hst⟩
  | cons e es ih =>
    obtain ⟨s₁, he, hrun⟩ := Option.bind_eq_some_iff.mp hrun
    obtain ⟨t₁, he', hst'⟩ := hstep s t e s₁ hst he
    obtain ⟨t', hrun', hst''⟩ := ih hst' hrun
    exact ⟨t', by rw [run_cons, he']; exact hrun', hst''⟩

/-- **Equivariance of runs**: maps of states and events that commute with one step from the states
of an invariant commute with every run from such a state. -/
theorem run_map_of_equivariant {step' : S' → E' → Option S'} (Inv : S → Prop) (f : S → S')
    (g : E → E') (hinv : ∀ s e s', Inv s → step s e = some s' → Inv s')
    (hstep : ∀ s e, Inv s → step' (f s) (g e) = (step s e).map f) {s : S} (hs : Inv s)
    (es : List E) : run step' (f s) (es.map g) = (run step s es).map f := by
  induction es generalizing s with
  | nil => rfl
  | cons e es ih =>
    rw [List.map_cons, run_cons, run_cons, hstep s e hs]
    cases he : step s e with
    | none => rfl
    | some s' => exact ih (hinv s e s' hs he)

/-! ## Loops over the cells of an array -/

/-- A loop over different cells, each updated from its own value, leaves the updated value in
every cell it visits. -/
theorem run_update_of_forall {ι α : Type*} [DecidableEq ι] {f : α → Option α} {s t : ι → α}
    (h : ∀ i, f (s i) = some (t i)) {l : List ι} (hl : l.Nodup) :
    run (fun s i => (f (s i)).map (Function.update s i)) s l =
      some fun i => if i ∈ l then t i else s i := by
  induction l using List.reverseRecOn with
  | nil => simp
  | append_singleton l i ih =>
    rw [List.nodup_append] at hl
    have hi : i ∉ l := fun hi => hl.2.2 i hi i (List.mem_singleton.mpr rfl) rfl
    have hcell : (fun i => if i ∈ l then t i else s i) i = s i := if_neg hi
    rw [run_snoc, ih hl.1, Option.bind_some, hcell, h i, Option.map_some]
    -- The visited cells are those of `l`, and cell `i`.
    congr 1
    funext j
    by_cases hj : j = i
    · subst hj
      simp
    · simp [hj]

end Foundations
