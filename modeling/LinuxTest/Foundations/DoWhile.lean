import Mathlib.Data.List.Basic

/-!
# Loops that read their input

A `do .. while` loop that reads one input in every round: the results of a system call, or the
readings of a clock. Whether the loop goes on depends on the input of the round. The loop is run on
a list of inputs, and has no result if they run out before it stops.

## Main definitions

* `doWhile body again s is`: the state in which the loop stops
* `Stops again is`: the loop stops at the last of the inputs `is`

## Main results

* `doWhile_of_stops`: a loop that stops at the last input folds its body over all of them
* `doWhile_append_cons`: a loop stops at the first input that tells it to
* `doWhile_eq_none`: a loop that is never told to stop has no result
-/

namespace Foundations

variable {S I : Type*} (body : S → I → S) (again : I → Prop)

/-- `do s = body(s, input) while (again(input))`: the last state. -/
def doWhile [DecidablePred again] (s : S) : List I → Option S
  | [] => none
  | i :: is => if again i then doWhile (body s i) is else some (body s i)

/-- The loop stops at the last of the inputs, and not before. -/
inductive Stops : List I → Prop
  | last {i : I} (h : ¬ again i) : Stops [i]
  | next {i : I} {is : List I} (h : again i) (hs : Stops is) : Stops (i :: is)

variable {body again}

/-- **A loop that stops at the last input** folds its body over all of them. -/
theorem doWhile_of_stops [DecidablePred again] {is : List I} (h : Stops again is) (s : S) :
    doWhile body again s is = some (is.foldl body s) := by
  induction h generalizing s with
  | last h => exact if_neg h
  | next h _ ih => exact (if_pos h).trans (ih _)

/-- **A loop stops at the first input that tells it to**, and leaves the others alone. -/
theorem doWhile_append_cons [DecidablePred again] {before : List I} {i : I}
    (hbefore : ∀ j ∈ before, again j) (hi : ¬ again i) (s : S) (after : List I) :
    doWhile body again s (before ++ i :: after) = some ((before ++ [i]).foldl body s) := by
  induction before generalizing s with
  | nil => exact if_neg hi
  | cons j before ih =>
    rw [List.cons_append, doWhile, if_pos (hbefore j List.mem_cons_self)]
    exact ih (fun j' hj' => hbefore j' (List.mem_cons_of_mem j hj')) (body s j)

/-- **A loop that is never told to stop** has no result. -/
theorem doWhile_eq_none [DecidablePred again] {is : List I} (h : ∀ i ∈ is, again i) (s : S) :
    doWhile body again s is = none := by
  induction is generalizing s with
  | nil => rfl
  | cons i is ih =>
    rw [doWhile, if_pos (h i List.mem_cons_self)]
    exact ih (fun i' hi' => h i' (List.mem_cons_of_mem i hi')) (body s i)

end Foundations
