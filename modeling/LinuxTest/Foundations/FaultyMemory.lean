import LinuxTest.Foundations.ForLoop
import Mathlib.Data.BitVec

/-!
# Memories with faults

A memory has a decoder, which selects the cell for an address, and cells of `w` bits, some of which
may be stuck. Two addresses that select one cell are aliases of each other: a word that is written
at one of them is read at the other. A memory without either fault is read as it was written.

What a cell holds after a range was written is what its last writer wrote. So a range that was
written with distinct words is read back unchanged exactly when no two of its addresses are aliases
and no cell changes its word.

## Main definitions

* `Ram`: the decoder and the bits that are stuck
* `Ram.hold`: what a cell makes of a word
* `Ram.read`, `Ram.write`, `Ram.writeMasked`: the accesses
* `Ram.fill`: a range is written in order

## Main results

* `Ram.intact_iff`: a cell that keeps a word and its complement has no stuck bits
* `Ram.hold_eq_hold_iff`: cells that agree on all ones and on all zeros have the same faults
* `Ram.forall_read_fill_iff`: when a range is read back as it was written
-/

namespace Foundations

/-- A memory: the cell that an address selects, and the bits of a cell that are stuck. -/
structure Ram (A C : Type*) (w : ℕ) where
  decode : A → C
  stuckZero : C → BitVec w
  stuckOne : C → BitVec w

namespace Ram

variable {A C : Type*} {w : ℕ} (R : Ram A C w)

/-! ## Cells -/

/-- What a cell makes of a word. -/
def hold (c : C) (v : BitVec w) : BitVec w := v &&& ~~~R.stuckZero c ||| R.stuckOne c

/-- No bit of a cell is stuck. -/
def Intact (c : C) : Prop := R.stuckZero c = 0 ∧ R.stuckOne c = 0

variable {R} {c c' : C}

theorem getElem_hold (v : BitVec w) (i : ℕ) (hi : i < w) :
    (R.hold c v)[i] = (v[i] && !(R.stuckZero c)[i] || (R.stuckOne c)[i]) := by
  simp [hold]

theorem Intact.hold (h : R.Intact c) (v : BitVec w) : R.hold c v = v := by
  rw [Ram.hold, h.1, h.2]
  simp

/-- **A cell that keeps a word and its complement** has no stuck bits. -/
theorem intact_iff (v : BitVec w) :
    R.Intact c ↔ R.hold c v = v ∧ R.hold c (~~~v) = ~~~v := by
  constructor
  · exact fun h => ⟨h.hold v, h.hold (~~~v)⟩
  · rintro ⟨hv, hnot⟩
    -- Each bit is once a zero and once a one.
    have hbits : ∀ i (hi : i < w), (R.stuckZero c)[i] = false ∧ (R.stuckOne c)[i] = false := by
      intro i hi
      have hbit : (R.hold c v)[i] = v[i] := by rw [hv]
      have hbitnot : (R.hold c (~~~v))[i] = (~~~v)[i] := by rw [hnot]
      rw [getElem_hold] at hbit hbitnot
      rw [BitVec.getElem_not] at hbitnot
      revert hbit hbitnot
      cases v[i] <;> cases (R.stuckZero c)[i] <;> cases (R.stuckOne c)[i] <;> decide
    constructor
    · ext i hi
      rw [(hbits i hi).1]
      simp
    · ext i hi
      rw [(hbits i hi).2]
      simp

/-- **Cells that agree on all ones and on all zeros** have the same faults. -/
theorem hold_eq_hold_iff :
    R.hold c = R.hold c' ↔ R.hold c (BitVec.allOnes w) = R.hold c' (BitVec.allOnes w) ∧
      R.hold c 0 = R.hold c' 0 := by
  constructor
  · intro h
    rw [h]
    exact ⟨rfl, rfl⟩
  · rintro ⟨hones, hzeros⟩
    funext v
    ext i hi
    have hone : (R.hold c (BitVec.allOnes w))[i] = (R.hold c' (BitVec.allOnes w))[i] := by
      rw [hones]
    have hzero : (R.hold c 0)[i] = (R.hold c' 0)[i] := by rw [hzeros]
    rw [getElem_hold, getElem_hold, BitVec.getElem_allOnes] at hone
    rw [getElem_hold, getElem_hold, BitVec.ofNat_eq_ofNat, BitVec.getElem_zero] at hzero
    rw [getElem_hold, getElem_hold]
    cases v[i] with
    | false => exact hzero
    | true => exact hone

/-! ## Accesses -/

section Accesses

variable [DecidableEq C] (R)

/-- The word that is read at an address. -/
def read (m : C → BitVec w) (a : A) : BitVec w := R.hold (R.decode a) (m (R.decode a))

/-- A word is written at an address. -/
def write (m : C → BitVec w) (a : A) (v : BitVec w) : C → BitVec w :=
  Function.update m (R.decode a) v

/-- Some bits of a word are written at an address. -/
def writeMasked (m : C → BitVec w) (a : A) (mask v : BitVec w) : C → BitVec w :=
  R.write m a (m (R.decode a) &&& ~~~mask ||| v &&& mask)

/-- The words at `addr 0`, .., `addr (n - 1)` are written in order. -/
def fill (addr : ℕ → A) (v : ℕ → BitVec w) (n : ℕ) (m : C → BitVec w) : C → BitVec w :=
  forLoop n (fun i m => R.write m (addr i) (v i)) m

variable {R} {m : C → BitVec w} {a : A}

@[simp] theorem write_decode (m : C → BitVec w) (a : A) (v : BitVec w) :
    R.write m a v (R.decode a) = v := Function.update_self ..

theorem write_of_ne (h : c ≠ R.decode a) (m : C → BitVec w) (v : BitVec w) :
    R.write m a v c = m c := Function.update_of_ne h ..

/-- The bits that are written one mask after the other. -/
theorem writeMasked_writeMasked (m : C → BitVec w) (a : A) (mask mask' v : BitVec w) :
    R.writeMasked (R.writeMasked m a mask v) a mask' v =
      R.writeMasked m a (mask ||| mask') v := by
  have hword : ∀ x : BitVec w, (x &&& ~~~mask ||| v &&& mask) &&& ~~~mask' ||| v &&& mask' =
      x &&& ~~~(mask ||| mask') ||| v &&& (mask ||| mask') := by
    intro x
    ext i hi
    simp only [BitVec.getElem_or, BitVec.getElem_and, BitVec.getElem_not]
    cases x[i] <;> cases v[i] <;> cases mask[i] <;> cases mask'[i] <;> decide
  rw [writeMasked, writeMasked, writeMasked, write_decode, hword]
  exact Function.update_idem ..

theorem writeMasked_allOnes (m : C → BitVec w) (a : A) (v : BitVec w) :
    R.writeMasked m a (BitVec.allOnes w) v = R.write m a v := by
  rw [writeMasked]
  simp

/-! ## Ranges -/

variable {addr : ℕ → A} {v : ℕ → BitVec w} {n : ℕ}

/-- **A cell holds what its last writer wrote.** -/
theorem exists_fill_eq {i : ℕ} (hi : i < n) (m : C → BitVec w) :
    ∃ l < n, R.decode (addr l) = R.decode (addr i) ∧
      (∀ k < n, R.decode (addr k) = R.decode (addr i) → k ≤ l) ∧
      R.fill addr v n m (R.decode (addr i)) = v l := by
  induction n with
  | zero => exact absurd hi (Nat.not_lt_zero i)
  | succ n ih =>
    rw [fill, forLoop_succ]
    by_cases hlast : R.decode (addr n) = R.decode (addr i)
    · -- The last address selects the cell.
      refine ⟨n, Nat.lt_succ_self n, hlast, fun k hk _ => Nat.le_of_lt_succ hk, ?_⟩
      rw [← hlast, write_decode]
    · have hin : i < n := by
        refine Nat.lt_of_le_of_ne (Nat.le_of_lt_succ hi) ?_
        rintro rfl
        exact hlast rfl
      obtain ⟨l, hl, hdecode, hmax, hvalue⟩ := ih hin
      refine ⟨l, Nat.lt_succ_of_lt hl, hdecode, fun k hk hkdecode => ?_, ?_⟩
      · refine hmax k (Nat.lt_of_le_of_ne (Nat.le_of_lt_succ hk) ?_) hkdecode
        rintro rfl
        exact hlast hkdecode
      · rw [write_of_ne (Ne.symm hlast)]
        exact hvalue

/-- **When a range is read back as it was written**, with a different word at each address: if no
two addresses are aliases, and each cell keeps its word. -/
theorem forall_read_fill_iff (hv : ∀ i < n, ∀ k < n, v i = v k → i = k) (m : C → BitVec w) :
    (∀ i < n, R.read (R.fill addr v n m) (addr i) = v i) ↔
      (∀ i < n, ∀ k < n, R.decode (addr i) = R.decode (addr k) → i = k) ∧
        ∀ i < n, R.hold (R.decode (addr i)) (v i) = v i := by
  constructor
  · intro hread
    -- An address and the last writer of its cell are read alike, so they are the same.
    have hlast : ∀ i < n, ∀ k < n, R.decode (addr k) = R.decode (addr i) → k ≤ i := by
      intro i hi k hk hdecode
      obtain ⟨l, hl, hldecode, hmax, hvalue⟩ := exists_fill_eq (v := v) hi m
      have hreadi := hread i hi
      have hreadl := hread l hl
      rw [read, hvalue] at hreadi
      rw [read, hldecode, hvalue] at hreadl
      have hil : i = l := hv i hi l hl (hreadi.symm.trans hreadl)
      exact hil ▸ hmax k hk hdecode
    refine ⟨fun i hi k hk hdecode => ?_, fun i hi => ?_⟩
    · exact Nat.le_antisymm (hlast k hk i hi hdecode) (hlast i hi k hk hdecode.symm)
    · obtain ⟨l, hl, hldecode, hmax, hvalue⟩ := exists_fill_eq (v := v) hi m
      have hil : i = l := Nat.le_antisymm (hmax i hi rfl) (hlast i hi l hl hldecode)
      have hreadi := hread i hi
      rw [read, hvalue, ← hil] at hreadi
      exact hreadi
  · rintro ⟨hinj, hhold⟩ i hi
    obtain ⟨l, hl, hldecode, -, hvalue⟩ := exists_fill_eq (v := v) hi m
    rw [read, hvalue, hinj l hl i hi hldecode]
    exact hhold i hi

end Accesses

end Ram

end Foundations
