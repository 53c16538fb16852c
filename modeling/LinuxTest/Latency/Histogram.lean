import LinuxTest.Foundations.SignedWords
import Mathlib.Algebra.BigOperators.Group.Finset.Basic
import Mathlib.Algebra.BigOperators.Intervals
import Mathlib.Data.Int.ConditionallyCompleteOrder
import Mathlib.Data.Int.Interval
import Mathlib.Logic.Function.Basic
import Mathlib.Tactic.NormNum
import Mathlib.Tactic.Linarith
import Mathlib.Tactic.Ring

/-!
# The histogram of the latency test

The class `Histogram` of `rt_test/latency/latency.cpp`: `2 * n` counters for the values from `-n` to
`n - 1`, and two more for the values above and below. An `int` is a 32-bit word, and a `size_t` has
`w` bits. The array lies in a memory of `int` cells, addressed relative to its first one: an index
outside the array is a cell next to it.

A value above the range is counted and dropped. A value below it is counted, but `Acc` then goes on
and increments the cell at its negative index. The index itself is computed in an `int`, so that a
value near the upper limit wraps around to a negative one.

## Main definitions

* `Histogram`, `Histogram.new`, `Histogram.acc`: the class
* `Histogram.inArray`: the increment for a value is in the array
* `Histogram.accAll`: the object after a list of values, and the indices written
* `Histogram.Accounts n vs`: every value is counted once and in bounds

## Main results

* `Histogram.accAll_counts`: what the counters of every run hold
* `Histogram.accounts_iff`: when every value is accounted for
-/

namespace LinuxTest.Latency

/-- The members; `hist` is the memory around the array. -/
structure Histogram where
  buckets : BitVec 32
  hist : ℤ → BitVec 32
  overflow : BitVec 32
  underflow : BitVec 32

namespace Histogram

open Foundations

/-- The constructor, on a memory that holds `memory`: `sz` bytes of the array are zeroed. -/
def new (w : ℕ) (memory : ℤ → BitVec 32) (n : BitVec 32) : Histogram :=
  let sz := 4 * n.toInt * 2 % 2 ^ w
  { buckets := n * 2
    hist := fun k => if 0 ≤ k ∧ k < sz / 4 then 0 else memory k
    overflow := 0
    underflow := 0 }

/-- The index `ndx = val + buckets/2` of a value, in an `int`. -/
def index (buckets val : BitVec 32) : ℤ := (val + buckets.sdiv 2).toInt

/-- `Acc`: the object after the value, and the index that was incremented. -/
def acc (h : Histogram) (val : BitVec 32) : Option ℤ × Histogram :=
  let ndx := index h.buckets val
  if ndx ≥ h.buckets.toInt then (none, { h with overflow := h.overflow + 1 })
  else
    -- There is no `return` after the underflow is counted.
    let h := if ndx < 0 then { h with underflow := h.underflow + 1 } else h
    (some ndx, { h with hist := Function.update h.hist ndx (h.hist ndx + 1) })

/-- The cell that `Acc` increments for a value, if any, is one of the array. -/
def inArray (h : Histogram) (val : BitVec 32) : Bool :=
  (h.acc val).1.all fun k => 0 ≤ k ∧ k < h.buckets.toInt

/-- The object after the values `vs`, and the indices written in order. -/
def accAll (h : Histogram) : List (BitVec 32) → List ℤ × Histogram
  | [] => ([], h)
  | v :: vs =>
    let (write, h) := h.acc v
    let (writes, h) := h.accAll vs
    (write.toList ++ writes, h)

/-- **Every value is accounted for once and in bounds**: the writes stay in the array, each bucket
holds the number of its value, the two other counters those of the values outside, and together
they hold the number of values. -/
structure Accounts (n : ℤ) (vs : List (BitVec 32)) (writes : List ℤ) (h : Histogram) : Prop where
  inBounds : ∀ k ∈ writes, 0 ≤ k ∧ k < 2 * n
  bucket : ∀ k, 0 ≤ k → k < 2 * n → (h.hist k).toInt = vs.countP (fun v => v.toInt = k - n)
  above : h.overflow.toInt = vs.countP (fun v => n ≤ v.toInt)
  below : h.underflow.toInt = vs.countP (fun v => v.toInt < -n)
  total : ∑ k ∈ Finset.Ico 0 (2 * n), (h.hist k).toInt + h.overflow.toInt + h.underflow.toInt =
    vs.length

/-! ## What a run counts -/

section Runs

variable (h : Histogram)

/-- The values that are counted above the range. -/
def Over (val : BitVec 32) : Prop := h.buckets.toInt ≤ index h.buckets val

instance (val : BitVec 32) : Decidable (h.Over val) := inferInstanceAs (Decidable (_ ≤ _))

variable {h}

/-- A value above the range is counted and dropped. -/
theorem acc_of_over {v : BitVec 32} (hv : h.Over v) :
    h.acc v = (none, { h with overflow := h.overflow + 1 }) :=
  if_pos hv

/-- Any other value increments the cell of its index, be it negative or not. -/
theorem acc_of_not_over {v : BitVec 32} (hv : ¬ h.Over v) :
    h.acc v = (some (index h.buckets v),
      { h with
        hist := fun k => h.hist k + if index h.buckets v = k then 1 else 0
        underflow := h.underflow + if index h.buckets v < 0 then 1 else 0 }) := by
  have hhist : Function.update h.hist (index h.buckets v) (h.hist (index h.buckets v) + 1) =
      fun k => h.hist k + if index h.buckets v = k then 1 else 0 := by
    funext k
    by_cases hk : index h.buckets v = k
    · rw [if_pos hk, ← hk, Function.update_self]
    · rw [if_neg hk, Function.update_of_ne (Ne.symm hk)]
      exact (BitVec.add_zero _).symm
  have hnot : ¬ index h.buckets v ≥ h.buckets.toInt := hv
  rw [← hhist]
  by_cases hneg : index h.buckets v < 0
  · simp only [acc, if_neg hnot, if_pos hneg]
  · simp only [acc, if_neg hnot, if_neg hneg]
    rw [show h.underflow + 0 = h.underflow from BitVec.add_zero _]

theorem accAll_cons (v : BitVec 32) (vs : List (BitVec 32)) :
    h.accAll (v :: vs) =
      ((h.acc v).1.toList ++ ((h.acc v).2.accAll vs).1, ((h.acc v).2.accAll vs).2) := rfl

theorem accAll_snoc (h : Histogram) (vs : List (BitVec 32)) (v : BitVec 32) :
    (h.accAll (vs ++ [v])).2 = ((h.accAll vs).2.acc v).2 := by
  induction vs generalizing h with
  | nil => rfl
  | cons u vs ih => exact ih (h.acc u).2

theorem buckets_acc (h : Histogram) (v : BitVec 32) : (h.acc v).2.buckets = h.buckets := by
  by_cases hv : h.Over v
  · rw [acc_of_over hv]
  · rw [acc_of_not_over hv]

theorem buckets_accAll (h : Histogram) (vs : List (BitVec 32)) :
    (h.accAll vs).2.buckets = h.buckets := by
  induction vs generalizing h with
  | nil => rfl
  | cons v vs ih => exact (ih (h.acc v).2).trans (buckets_acc h v)

/-- One more event of a counter of 32 bits. -/
theorem add_countP_cons (c : BitVec 32) (P : BitVec 32 → Prop) [DecidablePred P] (v : BitVec 32)
    (vs : List (BitVec 32)) :
    (c + if P v then 1 else 0) + BitVec.ofNat 32 (vs.countP P) =
      c + BitVec.ofNat 32 ((v :: vs).countP P) := by
  rw [List.countP_cons, BitVec.ofNat_add, BitVec.add_assoc, BitVec.add_comm (BitVec.ofNat 32 _)]
  by_cases hv : P v <;> simp [hv]

/-- **What the counters of every run hold**, whatever the values: the number of values above the
range, of those below it, and at every cell, inside the array or not, of those with this index. -/
theorem accAll_counts (h : Histogram) (vs : List (BitVec 32)) :
    (h.accAll vs).2.overflow = h.overflow + BitVec.ofNat 32 (vs.countP fun v => h.Over v) ∧
    (h.accAll vs).2.underflow = h.underflow +
      BitVec.ofNat 32 (vs.countP fun v => ¬ h.Over v ∧ index h.buckets v < 0) ∧
    (∀ k, (h.accAll vs).2.hist k = h.hist k +
      BitVec.ofNat 32 (vs.countP fun v => ¬ h.Over v ∧ index h.buckets v = k)) ∧
    ∀ k, k ∈ (h.accAll vs).1 ↔ ∃ v ∈ vs, ¬ h.Over v ∧ index h.buckets v = k := by
  induction vs generalizing h with
  | nil => simp [accAll]
  | cons v vs ih =>
    rw [accAll_cons]
    obtain ⟨hover, hunder, hhist, hwrites⟩ := ih (h.acc v).2
    -- Neither case of `Acc` changes the number of buckets, so the counted events stay the same.
    by_cases hv : h.Over v
    · rw [acc_of_over hv] at hover hunder hhist hwrites ⊢
      refine ⟨?_, ?_, fun k => ?_, fun k => ?_⟩
      · rw [hover, ← add_countP_cons, if_pos hv]
        rfl
      · rw [hunder, List.countP_cons_of_neg (by simp [hv])]
        rfl
      · rw [hhist, List.countP_cons_of_neg (by simp [hv])]
        rfl
      · rw [Option.toList_none, List.nil_append, hwrites, List.exists_mem_cons_iff]
        exact (or_iff_right fun hc => hc.1 hv).symm
    · rw [acc_of_not_over hv] at hover hunder hhist hwrites ⊢
      refine ⟨?_, ?_, fun k => ?_, fun k => ?_⟩
      · rw [hover, List.countP_cons_of_neg (by simp [hv])]
        rfl
      · rw [hunder, ← add_countP_cons]
        simp only [hv, not_false_eq_true, true_and]
        rfl
      · rw [hhist, ← add_countP_cons]
        simp only [hv, not_false_eq_true, true_and]
        rfl
      · rw [Option.toList_some, List.singleton_append, List.mem_cons, hwrites,
          List.exists_mem_cons_iff]
        exact or_congr ⟨fun hk => ⟨hv, hk.symm⟩, fun hk => hk.2.symm⟩ Iff.rfl

end Runs

/-! ## The index of a value -/

theorem toInt_mem (v : BitVec 32) : -2 ^ 31 ≤ v.toInt ∧ v.toInt < 2 ^ 31 :=
  ⟨BitVec.le_toInt v, BitVec.toInt_lt⟩

section Index

variable {n : BitVec 32}

theorem index_eq_bmod (buckets v : BitVec 32) :
    index buckets v = (v.toInt + (buckets.toInt.tdiv 2).bmod (2 ^ 32)).bmod (2 ^ 32) := by
  rw [index, BitVec.toInt_add, BitVec.toInt_sdiv]
  rfl

theorem index_of_half {half : ℤ} (hbuckets : (n * 2).toInt = half * 2) (hlo : -2 ^ 31 ≤ half)
    (hhi : half < 2 ^ 31) (v : BitVec 32) : index (n * 2) v = (v.toInt + half).bmod (2 ^ 32) := by
  have hhalf : ((n * 2).toInt.tdiv 2).bmod (2 ^ 32) = half := by
    rw [hbuckets, Int.mul_tdiv_cancel _ (by decide)]
    exact bmod_of_mem 31 hlo hhi
  rw [index_eq_bmod, hhalf]

/-- Fewer than `2 ^ 30` buckets on either side: the index is the value plus `n`, unless this
exceeds an `int`. -/
theorem index_of_lt (h1 : 1 ≤ n.toInt) (hn : n.toInt < 2 ^ 30) (v : BitVec 32) :
    (n * 2).toInt = 2 * n.toInt ∧
      index (n * 2) v = if v.toInt + n.toInt < 2 ^ 31 then v.toInt + n.toInt
        else v.toInt + n.toInt - 2 ^ 32 := by
  obtain ⟨hlo, hhi⟩ := toInt_mem v
  have hbuckets : (n * 2).toInt = n.toInt * 2 := by
    rw [BitVec.toInt_mul]
    exact bmod_of_mem 31 (x := n.toInt * 2) (by omega) (by omega)
  rw [index_of_half hbuckets (by omega) (by omega)]
  refine ⟨by omega, ?_⟩
  split_ifs with hsum
  · exact bmod_of_mem 31 (by omega) hsum
  · exact bmod_of_ge 31 (by omega) (by omega)

/-- From `2 ^ 30` on the number of buckets wraps around to a negative one, and so does its half. -/
theorem index_of_ge (hn : 2 ^ 30 ≤ n.toInt) (v : BitVec 32) :
    (n * 2).toInt = 2 * n.toInt - 2 ^ 32 ∧
      index (n * 2) v = if 0 ≤ v.toInt + n.toInt then v.toInt + n.toInt - 2 ^ 31
        else v.toInt + n.toInt + 2 ^ 31 := by
  obtain ⟨hlo, hhi⟩ := toInt_mem v
  obtain ⟨-, hn'⟩ := toInt_mem n
  have hbuckets : (n * 2).toInt = (n.toInt - 2 ^ 31) * 2 := by
    rw [BitVec.toInt_mul]
    exact (bmod_of_ge 31 (x := n.toInt * 2) (by omega) (by omega)).trans (by ring)
  rw [index_of_half hbuckets (by omega) (by omega)]
  refine ⟨by omega, ?_⟩
  split_ifs with hsum
  · exact (bmod_of_mem 31 (by omega) (by omega)).trans (by ring)
  · exact (bmod_of_lt 31 (by omega) (by omega)).trans (by ring)

/-- **The values whose write is in the array**: those that are not below the range, unless their
index exceeds an `int`. -/
theorem inArray_iff {h : Histogram} (hbuckets : h.buckets = n * 2) (h1 : 1 ≤ n.toInt)
    (hn : n.toInt < 2 ^ 30) (v : BitVec 32) :
    h.inArray v = true ↔ -n.toInt ≤ v.toInt ∧ v.toInt + n.toInt < 2 ^ 31 := by
  obtain ⟨-, hhi⟩ := toInt_mem v
  obtain ⟨hb, hi⟩ := index_of_lt h1 hn v
  rw [inArray]
  by_cases hv : h.Over v
  · -- Nothing is written above the range.
    have hge : (n * 2).toInt ≤ index (n * 2) v := hbuckets ▸ hv
    rw [hb, hi] at hge
    rw [acc_of_over hv]
    refine iff_of_true rfl ?_
    split_ifs at hge <;> omega
  · have hlt : ¬ (n * 2).toInt ≤ index (n * 2) v := hbuckets ▸ hv
    rw [acc_of_not_over hv, Option.all_some, decide_eq_true_iff, hbuckets, hb, hi]
    rw [hb, hi] at hlt
    split_ifs at hlt ⊢ <;> omega

end Index

/-! ## When every value is accounted for -/

/-- The values that `Histogram(n)` can count: the size of the array fits a `size_t` of `w` bits, the
values are not below the range and their indices fit an `int`, and so do the counters. With `2 ^ 30`
buckets or more on either side the number of buckets does not fit an `int` any more, and only the
values above the range are counted. -/
structure Fits (w : ℕ) (n : ℤ) (vs : List (BitVec 32)) : Prop where
  size : 8 * n < 2 ^ w
  small : n < 2 ^ 30 → ∀ v ∈ vs, -n ≤ v.toInt ∧ v.toInt + n < 2 ^ 31
  large : 2 ^ 30 ≤ n → ∀ v ∈ vs, n ≤ v.toInt
  count : ∀ v ∈ vs, v.toInt < n → vs.count v < 2 ^ 31
  countOver : vs.countP (fun v => n ≤ v.toInt) < 2 ^ 31

section Accounts

variable {w : ℕ} {n : BitVec 32} {vs : List (BitVec 32)} {memory : ℤ → BitVec 32}

/-- The cells of the array are zeroed, if its size fits. -/
theorem new_hist_of_size (h1 : 1 ≤ n.toInt) (hsize : 8 * n.toInt < 2 ^ w) {k : ℤ} (h0 : 0 ≤ k)
    (hk : k < 2 * n.toInt) : (new w memory n).hist k = 0 := by
  have hsz : 4 * n.toInt * 2 % 2 ^ w / 4 = 2 * n.toInt := by
    rw [Int.emod_eq_of_lt (by omega) (by linarith)]
    omega
  refine if_pos ⟨h0, ?_⟩
  rw [hsz]
  exact hk

/-- Where the values fit, exactly those above the range are dropped, and the others go to the
bucket of their value. -/
theorem Fits.value (hf : Fits w n.toInt vs) (memory : ℤ → BitVec 32) (h1 : 1 ≤ n.toInt)
    {v : BitVec 32} (hv : v ∈ vs) :
    -n.toInt ≤ v.toInt ∧ ((new w memory n).Over v ↔ n.toInt ≤ v.toInt) ∧
      (¬ (new w memory n).Over v → index (n * 2) v = v.toInt + n.toInt) := by
  change _ ∧ ((n * 2).toInt ≤ index (n * 2) v ↔ _) ∧ (¬ (n * 2).toInt ≤ index (n * 2) v → _)
  obtain ⟨-, hhi⟩ := toInt_mem v
  obtain ⟨-, hhi'⟩ := toInt_mem n
  by_cases hn : n.toInt < 2 ^ 30
  · obtain ⟨hlow, hsum⟩ := hf.small hn v hv
    obtain ⟨hb, hi⟩ := index_of_lt h1 hn v
    rw [hb, hi, if_pos hsum]
    exact ⟨hlow, by constructor <;> omega, fun _ => rfl⟩
  · have hge := hf.large (not_lt.mp hn) v hv
    obtain ⟨hb, hi⟩ := index_of_ge (not_lt.mp hn) v
    rw [hb, hi, if_pos (by omega)]
    exact ⟨by omega, iff_of_true (by omega) hge, fun hc => absurd (by omega) hc⟩

theorem toInt_ofNat_of_lt {c : ℕ} (hc : c < 2 ^ 31) : (BitVec.ofNat 32 c).toInt = c := by
  rw [BitVec.toInt_ofNat']
  exact bmod_of_mem 31 (by omega) (by exact_mod_cast hc)

/-- The values are in one of the buckets, above the range, or below it. -/
theorem sum_countP_buckets (n : ℤ) (hn : 1 ≤ n) (vs : List (BitVec 32)) :
    ∑ k ∈ Finset.Ico 0 (2 * n), (vs.countP (fun v => v.toInt = k - n) : ℤ) +
      vs.countP (fun v => n ≤ v.toInt) + vs.countP (fun v => v.toInt < -n) = vs.length := by
  induction vs with
  | nil => simp
  | cons v vs ih =>
    have hself : ∑ k ∈ Finset.Ico 0 (2 * n), (if v.toInt = k - n then (1 : ℤ) else 0) =
        if v.toInt + n ∈ Finset.Ico 0 (2 * n) then 1 else 0 := by
      rw [← Finset.sum_ite_eq (Finset.Ico 0 (2 * n)) (v.toInt + n) fun _ => (1 : ℤ)]
      refine Finset.sum_congr rfl fun k _ => if_congr ?_ rfl rfl
      constructor <;> intro h <;> omega
    simp only [List.countP_cons, decide_eq_true_eq, List.length_cons]
    push_cast
    rw [Finset.sum_add_distrib, hself]
    simp only [Finset.mem_Ico]
    split_ifs <;> omega

theorem countP_toInt_eq (vs : List (BitVec 32)) (v : BitVec 32) :
    vs.countP (fun u => u.toInt = v.toInt) = vs.count v := by
  rw [List.count_eq_countP]
  exact List.countP_congr fun u _ => by simp [BitVec.toInt_inj]

/-- The number of values of one bucket fits an `int`. -/
theorem Fits.countP_lt (hf : Fits w n.toInt vs) {k : ℤ} (hk : k < 2 * n.toInt) :
    vs.countP (fun v => v.toInt = k - n.toInt) < 2 ^ 31 := by
  by_cases hex : ∃ v ∈ vs, v.toInt = k - n.toInt
  · obtain ⟨v, hv, heq⟩ := hex
    rw [← heq, countP_toInt_eq]
    exact hf.count v hv (by omega)
  · have hzero : vs.countP (fun v => v.toInt = k - n.toInt) = 0 :=
      List.countP_eq_zero.mpr fun v hv heq => hex ⟨v, hv, of_decide_eq_true heq⟩
    omega

/-- The buckets of values that fit. -/
theorem Fits.bucket_eq (hf : Fits w n.toInt vs) (h1 : 1 ≤ n.toInt) {k : ℤ} (h0 : 0 ≤ k)
    (hk : k < 2 * n.toInt) : (((new w memory n).accAll vs).2.hist k).toInt =
      vs.countP (fun v => v.toInt = k - n.toInt) := by
  have hcount : vs.countP (fun v => ¬ (new w memory n).Over v ∧
      index (new w memory n).buckets v = k) = vs.countP (fun v => v.toInt = k - n.toInt) := by
    refine List.countP_congr fun v hv => ?_
    obtain ⟨-, hiff, hindex⟩ := hf.value memory h1 hv
    rw [decide_eq_true_iff, decide_eq_true_iff]
    refine ⟨fun ⟨hnot, heq⟩ => ?_, fun heq => ?_⟩
    · have := (hindex hnot).symm.trans heq
      omega
    · have hnot : ¬ (new w memory n).Over v := fun ho => by
        have := hiff.mp ho
        omega
      exact ⟨hnot, (hindex hnot).trans (by omega)⟩
  rw [(accAll_counts (new w memory n) vs).2.2.1, new_hist_of_size h1 hf.size h0 hk, hcount]
  exact (congrArg BitVec.toInt (BitVec.zero_add _)).trans (toInt_ofNat_of_lt (hf.countP_lt hk))

theorem Fits.overflow_eq (hf : Fits w n.toInt vs) (h1 : 1 ≤ n.toInt) :
    ((new w memory n).accAll vs).2.overflow.toInt = vs.countP (fun v => n.toInt ≤ v.toInt) := by
  have hcount : vs.countP (fun v => (new w memory n).Over v) =
      vs.countP (fun v => n.toInt ≤ v.toInt) := by
    refine List.countP_congr fun v hv => ?_
    rw [decide_eq_true_iff, decide_eq_true_iff]
    exact (hf.value memory h1 hv).2.1
  rw [(accAll_counts (new w memory n) vs).1, hcount]
  exact (congrArg BitVec.toInt (BitVec.zero_add _)).trans (toInt_ofNat_of_lt hf.countOver)

/-- Values that fit are not below the range, and none is counted there. -/
theorem Fits.underflow_eq (hf : Fits w n.toInt vs) (h1 : 1 ≤ n.toInt) :
    ((new w memory n).accAll vs).2.underflow.toInt = vs.countP (fun v => v.toInt < -n.toInt) := by
  have hzero : vs.countP (fun v => ¬ (new w memory n).Over v ∧
      index (new w memory n).buckets v < 0) = 0 := by
    refine List.countP_eq_zero.mpr fun v hv hc => ?_
    obtain ⟨hlow, -, hindex⟩ := hf.value memory h1 hv
    obtain ⟨hnot, hneg⟩ := of_decide_eq_true hc
    have := (hindex hnot).symm.trans_lt hneg
    omega
  have hzero' : vs.countP (fun v => v.toInt < -n.toInt) = 0 := by
    refine List.countP_eq_zero.mpr fun v hv hc => ?_
    have := (hf.value memory h1 hv).1
    have := of_decide_eq_true hc
    omega
  rw [(accAll_counts (new w memory n) vs).2.1, hzero, hzero']
  rfl

/-- **Where the values fit, every one is accounted for**, whatever the memory held before. -/
theorem Fits.accounts (hf : Fits w n.toInt vs) (h1 : 1 ≤ n.toInt) :
    Accounts n.toInt vs ((new w memory n).accAll vs).1 ((new w memory n).accAll vs).2 := by
  refine ⟨fun k hk => ?_, fun k => hf.bucket_eq h1, hf.overflow_eq h1, hf.underflow_eq h1, ?_⟩
  · obtain ⟨v, hv, hnot, rfl⟩ := ((accAll_counts (new w memory n) vs).2.2.2 k).mp hk
    obtain ⟨hlow, hiff, hindex⟩ := hf.value memory h1 hv
    have := hindex hnot
    have hlt := mt hiff.mpr hnot
    change 0 ≤ index (n * 2) v ∧ index (n * 2) v < _
    omega
  · rw [hf.overflow_eq h1, hf.underflow_eq h1, ← sum_countP_buckets n.toInt h1 vs]
    refine congrArg (· + _ + _) (Finset.sum_congr rfl fun k hk => ?_)
    obtain ⟨h0, hk⟩ := Finset.mem_Ico.mp hk
    exact hf.bucket_eq h1 h0 hk

/-- An array whose size does not fit is not zeroed to its end. -/
theorem new_hist_of_not_size (hsize : 2 ^ w ≤ 8 * n.toInt) :
    (new w memory n).hist (2 * n.toInt - 1) = memory (2 * n.toInt - 1) := by
  refine if_neg fun hc => ?_
  have hlt : 4 * n.toInt * 2 % 2 ^ w < 2 ^ w := Int.emod_lt_of_pos _ (by positivity)
  have := hc.2
  omega

/-- If every value is accounted for in every memory, the array is zeroed to its end. -/
theorem size_of_accounts (h1 : 1 ≤ n.toInt)
    (hall : ∀ memory, Accounts n.toInt vs ((new w memory n).accAll vs).1
      ((new w memory n).accAll vs).2) : 8 * n.toInt < 2 ^ w := by
  by_contra hsize
  -- The last cell keeps what the memory held, and is counted up from there.
  have hcell : ∀ b : BitVec 32, (b + BitVec.ofNat 32 (vs.countP fun v =>
      ¬ (n * 2).toInt ≤ index (n * 2) v ∧ index (n * 2) v = 2 * n.toInt - 1)).toInt =
      vs.countP (fun v => v.toInt = 2 * n.toInt - 1 - n.toInt) := fun b => by
    have hbucket := (hall fun _ => b).bucket (2 * n.toInt - 1) (by omega) (by omega)
    rw [(accAll_counts (new w (fun _ => b) n) vs).2.2.1,
      new_hist_of_not_size (not_lt.mp hsize)] at hbucket
    exact hbucket
  have heq := BitVec.toInt_inj.mp ((hcell 0).trans (hcell 1).symm)
  generalize BitVec.ofNat 32 _ = c at heq
  bv_omega

/-- If the writes stay in the array, no value is below the range or near the limit of an `int`. -/
theorem small_of_inBounds (h1 : 1 ≤ n.toInt) (hn : n.toInt < 2 ^ 30)
    (hin : ∀ k ∈ ((new w memory n).accAll vs).1, 0 ≤ k ∧ k < 2 * n.toInt) {v : BitVec 32}
    (hv : v ∈ vs) : -n.toInt ≤ v.toInt ∧ v.toInt + n.toInt < 2 ^ 31 := by
  obtain ⟨-, hhi⟩ := toInt_mem v
  obtain ⟨hb, hi⟩ := index_of_lt h1 hn v
  by_contra hcon
  have hneg : index (n * 2) v < 0 := by
    rw [hi]
    split_ifs <;> omega
  have hnot : ¬ (new w memory n).Over v := fun ho => by
    have : (n * 2).toInt ≤ index (n * 2) v := ho
    omega
  have := (hin _ (((accAll_counts (new w memory n) vs).2.2.2 _).mpr ⟨v, hv, hnot, rfl⟩)).1
  exact absurd hneg (not_lt.mpr this)

/-- With too many buckets for an `int` every write is outside the array, so if the writes stay in
it there are none: neither the buckets nor the underflow are ever counted up. -/
theorem large_of_accounts (hn : 2 ^ 30 ≤ n.toInt) (hsize : 8 * n.toInt < 2 ^ w)
    (hacc : Accounts n.toInt vs ((new w memory n).accAll vs).1 ((new w memory n).accAll vs).2)
    {v : BitVec 32} (hv : v ∈ vs) : n.toInt ≤ v.toInt := by
  obtain ⟨-, hunder, hhist, hwrites⟩ := accAll_counts (new w memory n) vs
  obtain ⟨-, hhi⟩ := toInt_mem n
  have hover : ∀ u ∈ vs, (new w memory n).Over u := fun u hu => by
    by_contra hnot
    have hlt : index (n * 2) u < (n * 2).toInt := not_le.mp hnot
    have hge : 0 ≤ index (n * 2) u := (hacc.inBounds _ ((hwrites _).mpr ⟨u, hu, hnot, rfl⟩)).1
    rw [(index_of_ge hn u).1] at hlt
    omega
  have hnone : ∀ (P : BitVec 32 → Prop) [DecidablePred P],
      vs.countP (fun u => ¬ (new w memory n).Over u ∧ P u) = 0 := fun P _ =>
    List.countP_eq_zero.mpr fun u hu hc => (of_decide_eq_true hc).1 (hover u hu)
  have hzero : ((0 : BitVec 32) + BitVec.ofNat 32 0).toInt = 0 := by decide
  by_contra hlt
  by_cases hlow : v.toInt < -n.toInt
  · have hpos : 0 < vs.countP (fun u => u.toInt < -n.toInt) :=
      List.countP_pos_iff.mpr ⟨v, hv, decide_eq_true hlow⟩
    have hcount := hacc.below
    rw [hunder, hnone] at hcount
    have := hzero.symm.trans hcount
    omega
  · have hpos : 0 < vs.countP (fun u => u.toInt = v.toInt + n.toInt - n.toInt) :=
      List.countP_pos_iff.mpr ⟨v, hv, decide_eq_true (by omega)⟩
    have hcount := hacc.bucket (v.toInt + n.toInt) (by omega) (by omega)
    rw [hhist, new_hist_of_size (by omega) hsize (by omega) (by omega), hnone] at hcount
    have := hzero.symm.trans hcount
    omega

/-- **When every value is accounted for once and in bounds**, whatever the memory held before: only
when the values fit. -/
theorem accounts_iff (w : ℕ) (n : BitVec 32) (h1 : 1 ≤ n.toInt) (vs : List (BitVec 32)) :
    (∀ memory, Accounts n.toInt vs ((new w memory n).accAll vs).1 ((new w memory n).accAll vs).2) ↔
      Fits w n.toInt vs := by
  refine ⟨fun hall => ?_, fun hf memory => hf.accounts h1⟩
  have hacc := hall fun _ => 0
  have hsize := size_of_accounts h1 hall
  have hsmall := fun hn v hv => small_of_inBounds (v := v) h1 hn hacc.inBounds hv
  have hlarge := fun hn v hv => large_of_accounts (v := v) hn hsize hacc hv
  refine ⟨hsize, hsmall, hlarge, fun v hv hlt => ?_, ?_⟩
  · have hlow : -n.toInt ≤ v.toInt := by
      by_cases hn : n.toInt < 2 ^ 30
      · exact (hsmall hn v hv).1
      · exact absurd (hlarge (not_lt.mp hn) v hv) (not_le.mpr hlt)
    have hcount := hacc.bucket (v.toInt + n.toInt) (by omega) (by omega)
    rw [add_sub_cancel_right, countP_toInt_eq] at hcount
    have := (toInt_mem (((new w (fun _ => 0) n).accAll vs).2.hist (v.toInt + n.toInt))).2
    omega
  · have := (toInt_mem ((new w (fun _ => 0) n).accAll vs).2.overflow).2
    have := hacc.above
    omega

/-- A latency histogram of a thousand microseconds, at the lower end of its range and above it. -/
theorem accounts_thousand :
    Accounts (1000 : BitVec 32).toInt [-1000, 2000]
      ((new 32 (fun _ => 7) 1000).accAll [-1000, 2000]).1
      ((new 32 (fun _ => 7) 1000).accAll [-1000, 2000]).2 := by
  have hn : (1000 : BitVec 32).toInt = 1000 := by decide
  have hlow : (-1000 : BitVec 32).toInt = -1000 := by decide
  have hhigh : (2000 : BitVec 32).toInt = 2000 := by decide
  have hlen : [-1000, (2000 : BitVec 32)].length < 2 ^ 31 := by norm_num
  have hfits : Fits 32 (1000 : BitVec 32).toInt [-1000, 2000] := by
    refine ⟨?_, ?_, ?_, ?_, ?_⟩
    · rw [hn]
      norm_num
    · intro _ v hv
      rw [hn]
      rcases List.mem_pair.mp hv with rfl | rfl
      · rw [hlow]
        norm_num
      · rw [hhigh]
        norm_num
    · intro h
      rw [hn] at h
      norm_num at h
    · exact fun v _ _ => List.count_le_length.trans_lt hlen
    · exact List.countP_le_length.trans_lt hlen
  exact (accounts_iff 32 1000 (by decide) [-1000, 2000]).mpr hfits fun _ => 7

/-- One value below the range is written to the cell before the array. -/
theorem below_range_out_of_bounds :
    ¬ ∀ memory, Accounts (1000 : BitVec 32).toInt [-1001] ((new 32 memory 1000).accAll [-1001]).1
      ((new 32 memory 1000).accAll [-1001]).2 := by
  intro hall
  have hmem : (-1 : ℤ) ∈ ((new 32 (fun _ => 0) 1000).accAll [-1001]).1 := by decide
  exact absurd ((hall fun _ => 0).inBounds (-1) hmem).1 (by decide)

end Accounts

end Histogram

end LinuxTest.Latency
