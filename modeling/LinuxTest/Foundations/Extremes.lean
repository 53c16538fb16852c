import Mathlib.Order.Bounds.Basic
import Mathlib.Order.MinMax
import Mathlib.Data.List.Basic

/-!
# The extremes of a growing list

The least and the greatest element of a list, as elements of the list, when one element is
appended; and how often five sorted elements take their extreme values.

## Main results

* `isLeast_snoc`, `isGreatest_snoc`: the running minimum and maximum
* `first_eq_third_iff_count`, `third_eq_last_iff_count`: the middle of five sorted elements is an
  extreme one exactly when at least three of them are
-/

namespace Foundations

variable {α : Type*} [LinearOrder α] {l : List α} {a : α}

/-- The running minimum. -/
theorem isLeast_snoc (ha : IsLeast {x | x ∈ l} a) (b : α) :
    IsLeast {x | x ∈ l ++ [b]} (min a b) := by
  constructor
  · rcases min_choice a b with he | he
    · rw [he]
      exact List.mem_append_left _ ha.1
    · rw [he]
      exact List.mem_append_right _ (List.mem_singleton.mpr rfl)
  · intro x hx
    rcases List.mem_append.mp hx with hx | hx
    · exact (min_le_left _ _).trans (ha.2 hx)
    · rw [List.mem_singleton.mp hx]
      exact min_le_right _ _

/-- The running maximum: the running minimum in the dual order. -/
theorem isGreatest_snoc (ha : IsGreatest {x | x ∈ l} a) (b : α) :
    IsGreatest {x | x ∈ l ++ [b]} (max a b) :=
  isLeast_snoc (α := αᵒᵈ) ha b

/-! ## Five sorted elements -/

section Five

variable {a b c d e : α}

theorem first_eq_third_iff_count (hab : a ≤ b) (hbc : b ≤ c) (hcd : c ≤ d) (hde : d ≤ e) :
    a = c ↔ 3 ≤ [a, b, c, d, e].count a := by
  constructor
  · rintro rfl
    obtain rfl : b = a := le_antisymm hbc hab
    rw [List.count_cons_self, List.count_cons_self, List.count_cons_self]
    omega
  · intro h
    by_contra hne
    -- The last three elements are above the first, so it occurs at most twice.
    have hac : a < c := lt_of_le_of_ne (hab.trans hbc) hne
    have hd : d ≠ a := (hac.trans_le hcd).ne'
    have he : e ≠ a := (hac.trans_le (hcd.trans hde)).ne'
    rw [List.count_cons_self, List.count_cons, List.count_cons_of_ne hac.ne',
      List.count_cons_of_ne hd, List.count_cons_of_ne he, List.count_nil] at h
    split_ifs at h <;> omega

/-- The reversed elements are sorted in the dual order. -/
theorem third_eq_last_iff_count (hab : a ≤ b) (hbc : b ≤ c) (hcd : c ≤ d) (hde : d ≤ e) :
    c = e ↔ 3 ≤ [a, b, c, d, e].count e := by
  have hdual : e = c ↔ 3 ≤ [e, d, c, b, a].count e :=
    first_eq_third_iff_count (α := αᵒᵈ) hde hcd hbc hab
  have hperm : [e, d, c, b, a].Perm [a, b, c, d, e] := List.reverse_perm [a, b, c, d, e]
  rw [← hperm.count_eq, ← hdual, eq_comm]

end Five

end Foundations
