import Mathlib.Data.BitVec

/-!
# Checking sequence numbers

A receiver expects each number to follow the one before it. A number that does not is reported, and
the receiver goes on from there. What is reported is a property of the neighbours in the list of
numbers alone.

With a counter of `w` bits, numbers that were sent in order and not lost follow each other. If some
between two of them were lost, this is seen unless it was a multiple of `2 ^ w`.

## Main definitions

* `breaks follows a l`: the neighbours in `a :: l` that do not follow each other

## Main results

* `breaks_map`: numbers that are seen through a function
* `ofNat_eq_succ_iff`: what a counter of `w` bits shows of a loss
-/

namespace Foundations

variable {A B : Type*}

/-- The neighbours in `a :: l` that do not follow each other. -/
def breaks (follows : A → A → Prop) [DecidableRel follows] : A → List A → List (A × A)
  | _, [] => []
  | a, b :: l => if follows a b then breaks follows b l else (a, b) :: breaks follows b l

section Breaks

variable {follows : A → A → Prop} [DecidableRel follows]

theorem breaks_cons_of_follows {a b : A} (h : follows a b) (l : List A) :
    breaks follows a (b :: l) = breaks follows b l := if_pos h

theorem breaks_cons_of_not_follows {a b : A} (h : ¬ follows a b) (l : List A) :
    breaks follows a (b :: l) = (a, b) :: breaks follows b l := if_neg h

/-- **Numbers that are seen through a function**, if they follow each other as the numbers do. -/
theorem breaks_map {precedes : B → B → Prop} [DecidableRel precedes] {f : B → A}
    {R : B → B → Prop} (hR : ∀ i k, R i k → (follows (f i) (f k) ↔ precedes i k)) {i : B}
    {l : List B} (hl : List.IsChain R (i :: l)) :
    breaks follows (f i) (l.map f) = (breaks precedes i l).map (Prod.map f f) := by
  induction l generalizing i with
  | nil => rfl
  | cons k l ih =>
    rw [List.isChain_cons_cons] at hl
    have hiff := hR i k hl.1
    rw [List.map_cons]
    by_cases h : precedes i k
    · rw [breaks_cons_of_follows (hiff.mpr h), breaks_cons_of_follows h, ih hl.2]
    · rw [breaks_cons_of_not_follows fun h' => h (hiff.mp h'), breaks_cons_of_not_follows h,
        ih hl.2, List.map_cons]
      rfl

end Breaks

/-- **What a counter of `w` bits shows of a loss**: if it is not a multiple of `2 ^ w`. -/
theorem ofNat_eq_succ_iff (w : ℕ) {i k : ℕ} (h : i < k) :
    BitVec.ofNat w k = BitVec.ofNat w i + 1 ↔ 2 ^ w ∣ k - i - 1 := by
  have hsucc : BitVec.ofNat w i + 1 = BitVec.ofNat w (i + 1) := (BitVec.ofNat_add i 1).symm
  rw [hsucc, ← BitVec.toNat_inj, BitVec.toNat_ofNat, BitVec.toNat_ofNat]
  rw [show k - i - 1 = k - (i + 1) by omega]
  exact eq_comm.trans (Nat.modEq_iff_dvd' h)

end Foundations
