import Mathlib.Data.Finset.Card
import Mathlib.Data.Nat.ModEq

/-!
# A window for duplicates

Numbers are handed out in order, and each may come back any number of times, in any order. A table
with a flag for each residue modulo `M` is to tell those that come back for the first time: a flag
is cleared when its number is handed out, and set when it comes back. The table knows the last `M`
numbers, so it is right about each number that comes back before `M` more were handed out.

A number that comes back later is taken for a newer one. Even so, no more numbers are told to be new
than were handed out, because each time a flag is set it has been cleared before.

## Main definitions

* `Remembers M n s tbl`: the flags after `n` numbers were handed out and those in `s` came back
* `openSlots M n tbl`: the number of flags that belong to a number and are not set

## Main results

* `Remembers.iff_mem`: the flag of a number in the window
* `Remembers.succ`, `Remembers.insert`: a number is handed out, or comes back
* `openSlots_succ_le`, `openSlots_set`: how the open flags change
-/

namespace Foundations

variable {M n k : ℕ} {s : Finset ℕ} {tbl tbl' : ℕ → Bool}

/-- The flags after `n` numbers were handed out and those in `s` came back. -/
def Remembers (M n : ℕ) (s : Finset ℕ) (tbl : ℕ → Bool) : Prop :=
  ∀ r < M, tbl r = true ↔ ∃ k ∈ s, k % M = r ∧ n ≤ k + M

/-- Two numbers of one window with the same flag are the same. -/
theorem eq_of_mod_eq_of_window {k' : ℕ} (hmod : k % M = k' % M) (hk : k < n) (hk' : k' < n)
    (hwindow : n ≤ k + M) (hwindow' : n ≤ k' + M) : k = k' := by
  rcases Nat.le_total k k' with hle | hle
  · have hdvd : M ∣ k' - k := (Nat.modEq_iff_dvd' hle).mp hmod
    have hzero : k' - k = 0 := Nat.eq_zero_of_dvd_of_lt hdvd (by omega)
    omega
  · have hdvd : M ∣ k - k' := (Nat.modEq_iff_dvd' hle).mp hmod.symm
    have hzero : k - k' = 0 := Nat.eq_zero_of_dvd_of_lt hdvd (by omega)
    omega

namespace Remembers

theorem empty (htbl : ∀ r < M, tbl r = false) : Remembers M 0 ∅ tbl := by
  intro r hr
  rw [htbl r hr]
  exact iff_of_false Bool.false_ne_true fun ⟨k, hk, _⟩ => Finset.notMem_empty k hk

/-- **The flag of a number in the window.** -/
theorem iff_mem (h : Remembers M n s tbl) (hs : ∀ k ∈ s, k < n) (hk : k < n)
    (hwindow : n ≤ k + M) : tbl (k % M) = true ↔ k ∈ s := by
  rw [h (k % M) (Nat.mod_lt k (by omega))]
  constructor
  · rintro ⟨k', hmem, hmod, hwindow'⟩
    exact eq_of_mod_eq_of_window hmod (hs k' hmem) hk hwindow' hwindow ▸ hmem
  · intro hmem
    exact ⟨k, hmem, rfl, hwindow⟩

/-- **A number is handed out**, and its flag is cleared. -/
theorem succ (h : Remembers M n s tbl) (hs : ∀ k ∈ s, k < n)
    (htbl : ∀ r < M, tbl' r = (tbl r && decide (n % M ≠ r))) : Remembers M (n + 1) s tbl' := by
  intro r hr
  rw [htbl r hr, Bool.and_eq_true, decide_eq_true_eq, h r hr]
  constructor
  · rintro ⟨⟨k, hmem, hmod, hwindow⟩, hne⟩
    refine ⟨k, hmem, hmod, Nat.lt_of_le_of_ne hwindow ?_⟩
    rintro rfl
    exact hne ((Nat.add_mod_right k M).trans hmod)
  · rintro ⟨k, hmem, hmod, hwindow⟩
    refine ⟨⟨k, hmem, hmod, by omega⟩, fun heq => ?_⟩
    have hlt := hs k hmem
    have := eq_of_mod_eq_of_window (heq.trans hmod.symm) (Nat.lt_succ_self n) (by omega)
      (by omega) hwindow
    omega

/-- **A number comes back**, and its flag is set. -/
theorem insert (h : Remembers M n s tbl) (hwindow : n ≤ k + M)
    (htbl : ∀ r < M, tbl' r = (tbl r || decide (k % M = r))) :
    Remembers M n (insert k s) tbl' := by
  intro r hr
  rw [htbl r hr, Bool.or_eq_true, decide_eq_true_eq, h r hr]
  constructor
  · rintro (⟨k', hmem, hk'⟩ | hmod)
    · exact ⟨k', Finset.mem_insert_of_mem hmem, hk'⟩
    · exact ⟨k, Finset.mem_insert_self k s, hmod, hwindow⟩
  · rintro ⟨k', hmem, hmod, hwindow'⟩
    rcases Finset.mem_insert.mp hmem with rfl | hmem
    · exact Or.inr hmod
    · exact Or.inl ⟨k', hmem, hmod, hwindow'⟩

end Remembers

/-! ## Without a window -/

/-- The number of flags that belong to a number that was handed out and are not set. -/
def openSlots (M n : ℕ) (tbl : ℕ → Bool) : ℕ :=
  ((Finset.range (min n M)).filter fun r => tbl r = false).card

/-- A number that is handed out opens at most one flag. -/
theorem openSlots_succ_le (htbl : ∀ r < M, tbl' r = (tbl r && decide (n % M ≠ r))) :
    openSlots M (n + 1) tbl' ≤ openSlots M n tbl + 1 := by
  refine (Finset.card_le_card (t := Insert.insert (n % M)
    ((Finset.range (min n M)).filter fun r => tbl r = false)) ?_).trans (Finset.card_insert_le _ _)
  intro r hr
  rw [Finset.mem_filter, Finset.mem_range] at hr
  obtain ⟨hlt, hclear⟩ := hr
  rw [htbl r (by omega)] at hclear
  rw [Finset.mem_insert, Finset.mem_filter, Finset.mem_range]
  by_cases hne : n % M = r
  · exact Or.inl hne.symm
  · refine Or.inr ⟨?_, by simpa [hne] using hclear⟩
    -- The flag `n` itself is the one of the number that is handed out.
    have hrn : r ≠ n := by
      rintro rfl
      exact hne (Nat.mod_eq_of_lt (by omega))
    omega

/-- A flag that is set is not open any more. -/
theorem openSlots_set (hlt : k % M < min n M) (hclear : tbl (k % M) = false)
    (htbl : ∀ r < M, tbl' r = (tbl r || decide (k % M = r))) :
    openSlots M n tbl' + 1 = openSlots M n tbl := by
  have herase : (Finset.range (min n M)).filter (fun r => tbl' r = false) =
      ((Finset.range (min n M)).filter fun r => tbl r = false).erase (k % M) := by
    ext r
    rw [Finset.mem_erase, Finset.mem_filter, Finset.mem_filter, Finset.mem_range]
    constructor
    · rintro ⟨hr, hclear'⟩
      rw [htbl r (by omega), Bool.or_eq_false_iff, decide_eq_false_iff_not] at hclear'
      exact ⟨Ne.symm hclear'.2, hr, hclear'.1⟩
    · rintro ⟨hne, hr, hclear'⟩
      refine ⟨hr, ?_⟩
      rw [htbl r (by omega), Bool.or_eq_false_iff, decide_eq_false_iff_not]
      exact ⟨hclear', Ne.symm hne⟩
  have hmem : k % M ∈ (Finset.range (min n M)).filter fun r => tbl r = false :=
    Finset.mem_filter.mpr ⟨Finset.mem_range.mpr hlt, hclear⟩
  rw [openSlots, herase]
  exact Finset.card_erase_add_one hmem

end Foundations
