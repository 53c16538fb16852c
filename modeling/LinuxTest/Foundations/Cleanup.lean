import Mathlib.Data.Finset.Basic

/-!
# Cleaning up by a record

A program acquires resources, keeps a record of names, and releases every recorded one at its end.
Released is what was recorded, whether or not the program had acquired it itself.

## Main definitions

* `Tracks initial held record`: whatever is held beyond the initial resources is recorded
* `releaseAll held record`: what is held after the release of a record

## Main results

* `Tracks.note`, `Tracks.acquire`: the two ways in which a record grows
* `Tracks.releaseAll_eq`: the initial resources that are not recorded are left
* `sdiff_toFinset_eq_iff`: the initial resources are restored if and only if none of them was recorded
-/

namespace Foundations

variable {A : Type*}

/-- The initial resources are still held, and whatever else is held is recorded. -/
structure Tracks (initial held : Finset A) (record : List A) : Prop where
  kept : initial ⊆ held
  recorded : ∀ a ∈ held, a ∉ initial → a ∈ record

namespace Tracks

variable {initial held : Finset A} {record : List A}

theorem init (initial : Finset A) : Tracks initial initial [] :=
  ⟨Finset.Subset.refl initial, fun _ ha hnot => absurd ha hnot⟩

/-- A resource that is recorded without being acquired. -/
theorem note (h : Tracks initial held record) (a : A) : Tracks initial held (a :: record) :=
  ⟨h.kept, fun b hb hnot => List.mem_cons_of_mem a (h.recorded b hb hnot)⟩

variable [DecidableEq A]

/-- A resource that is acquired and recorded. -/
theorem acquire (h : Tracks initial held record) (a : A) :
    Tracks initial (insert a held) (a :: record) := by
  refine ⟨h.kept.trans (Finset.subset_insert a held), fun b hb hnot => ?_⟩
  rcases Finset.mem_insert.mp hb with rfl | hb
  · exact List.mem_cons_self
  · exact List.mem_cons_of_mem a (h.recorded b hb hnot)

end Tracks

variable [DecidableEq A]

/-- What is held after all recorded resources are released, one after another. -/
def releaseAll (held : Finset A) (record : List A) : Finset A := record.foldl Finset.erase held

theorem mem_releaseAll {held : Finset A} {record : List A} {a : A} :
    a ∈ releaseAll held record ↔ a ∈ held ∧ a ∉ record := by
  induction record generalizing held with
  | nil => simp [releaseAll]
  | cons b record ih =>
    change a ∈ releaseAll (held.erase b) record ↔ _
    rw [ih, Finset.mem_erase, List.mem_cons, not_or]
    tauto

namespace Tracks

variable {initial held : Finset A} {record : List A}

/-- **What a release leaves**: the initial resources that are not recorded. -/
theorem releaseAll_eq (h : Tracks initial held record) :
    releaseAll held record = initial \ record.toFinset := by
  ext a
  rw [mem_releaseAll, Finset.mem_sdiff, List.mem_toFinset]
  constructor
  · rintro ⟨hheld, hnot⟩
    by_contra hcontra
    exact hnot (h.recorded a hheld fun hinit => hcontra ⟨hinit, hnot⟩)
  · rintro ⟨hinit, hnot⟩
    exact ⟨h.kept hinit, hnot⟩

end Tracks

/-- **A release restores the initial resources** if and only if none of them was recorded. -/
theorem sdiff_toFinset_eq_iff {initial : Finset A} {record : List A} :
    initial \ record.toFinset = initial ↔ ∀ a ∈ record, a ∉ initial := by
  rw [Finset.sdiff_eq_self_iff_disjoint, Finset.disjoint_right]
  simp only [List.mem_toFinset]

end Foundations
