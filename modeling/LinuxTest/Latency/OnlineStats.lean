import LinuxTest.Foundations.Extremes
import LinuxTest.Foundations.Moments
import LinuxTest.Foundations.SignedWords
import Mathlib.Analysis.SpecialFunctions.Pow.Real

/-!
# One-pass statistics of the latency test

`OnlineStats` of `rt_test/latency/OnlineStats.h`: the number of samples, the mean, the second to
fourth central power sums and the extremes, updated at every push and read at query time. Doubles
are exact rationals, and reals where a square root is taken. The number of samples is a
`long long`, and so are the products formed from it: they are wrapped to 64 bits.

## Main definitions

* `longlong`: an integer wrapped to a signed 64-bit word
* `OnlineStats`, `new`, `zeroStats`, `push`: the object and its updates
* `values`, `mean`, `variance`, `stdDeviation`, `skew`, `kurtosis`, `max`, `min`: the queries
* `Call`, `afterCalls`: interleavings of `zeroStats` and `push`
* `window calls`: the samples pushed since construction or the last `zeroStats`
* `Exact w s`: the object holds the statistics of the samples `w`

## Main results

* `coefficient_eq`, `coefficient_ne`: the coefficient of the fourth moment is exact up to
  `sampleLimit` samples, and from there on never
* `exact_afterCalls`: after every run the object is exact for a window within the limit
* `afterCalls_exact_iff`: exactness of all runs with `n` samples is equivalent to `n` being
  within the limit
-/

namespace LinuxTest.Latency

open Foundations

/-- A `long long`: an integer wrapped to a signed 64-bit word. -/
def longlong (x : ℤ) : ℤ := x.bmod (2 ^ 64)

theorem longlong_of_mem {x : ℤ} (hlo : -2 ^ 63 ≤ x) (hhi : x < 2 ^ 63) : longlong x = x :=
  bmod_of_mem 63 hlo hhi

theorem longlong_lt (x : ℤ) : longlong x < 2 ^ 63 := by
  have := Int.bmod_lt (x := x) (m := 2 ^ 64) (by norm_num)
  unfold longlong
  omega

/-- The private members. -/
structure OnlineStats where
  mSamples : ℤ
  mMean : ℚ
  mMoment2 : ℚ
  mMoment3 : ℚ
  mMoment4 : ℚ
  mMin : ℚ
  mMax : ℚ
deriving Repr, DecidableEq

namespace OnlineStats

/-- Zero the statistics; the extremes keep their values. -/
def zeroStats (s : OnlineStats) : OnlineStats :=
  { s with mSamples := 0, mMean := 0, mMoment2 := 0, mMoment3 := 0, mMoment4 := 0 }

/-- The constructor, on memory in which the extremes happen to hold `mMin` and `mMax`: it does not
initialise them. -/
def new (mMin mMax : ℚ) : OnlineStats := zeroStats ⟨0, 0, 0, 0, 0, mMin, mMax⟩

/-- The integer factor `m_samples*m_samples - 3*m_samples + 3`, in `long long` arithmetic. -/
def coefficient (mSamples : ℤ) : ℤ :=
  longlong (longlong (longlong (mSamples * mSamples) - longlong (3 * mSamples)) + 3)

/-- The object after pushing a sample. -/
def pushed (s : OnlineStats) (x : ℚ) : OnlineStats :=
  let n1 := s.mSamples
  let mSamples := longlong (s.mSamples + 1)
  let delta := x - s.mMean
  let delta_n := delta / mSamples
  let delta_n2 := delta_n * delta_n
  let term1 := delta * delta_n * n1
  { mSamples
    mMean := s.mMean + delta_n
    mMoment4 := s.mMoment4 + (term1 * delta_n2 * coefficient mSamples +
      6 * delta_n2 * s.mMoment2 - 4 * delta_n * s.mMoment3)
    mMoment3 := s.mMoment3 + (term1 * delta_n * longlong (mSamples - 2) -
      3 * delta_n * s.mMoment2)
    mMoment2 := s.mMoment2 + term1
    mMin := if s.mSamples = 0 then x else if x < s.mMin then x else s.mMin
    mMax := if s.mSamples = 0 then x else if x > s.mMax then x else s.mMax }

/-- Push a sample: the returned number of samples, and the object. -/
def push (s : OnlineStats) (x : ℚ) : ℤ × OnlineStats := ((s.pushed x).mSamples, s.pushed x)

/-- The current number of samples. -/
def values (s : OnlineStats) : ℤ := s.mSamples

/-- The current mean. -/
def mean (s : OnlineStats) : ℚ := s.mMean

/-- The current variance. -/
def variance (s : OnlineStats) : ℚ := s.mMoment2 / (s.mSamples - 1)

/-- The current standard deviation. -/
noncomputable def stdDeviation (s : OnlineStats) : ℝ := √(s.variance : ℝ)

/-- The current skew. -/
noncomputable def skew (s : OnlineStats) : ℝ :=
  √(s.mSamples : ℝ) * s.mMoment3 / (s.mMoment2 : ℝ) ^ (1.5 : ℝ)

/-- The current kurtosis. -/
def kurtosis (s : OnlineStats) : ℚ :=
  s.mSamples * s.mMoment4 / (s.mMoment2 * s.mMoment2) - 3

/-- The largest sample. -/
def max (s : OnlineStats) : ℚ := s.mMax

/-- The smallest sample. -/
def min (s : OnlineStats) : ℚ := s.mMin

/-! ## Runs -/

/-- The calls that change the object. -/
inductive Call where
  | zeroStats
  | push (x : ℚ)
deriving Repr, DecidableEq

/-- The object after one call. -/
def call (s : OnlineStats) : Call → OnlineStats
  | .zeroStats => s.zeroStats
  | .push x => (s.push x).2

/-- The object after its construction and the calls `calls`. -/
def afterCalls (mMin mMax : ℚ) (calls : List Call) : OnlineStats :=
  calls.foldl call (new mMin mMax)

/-- The samples of the current window, after one call. -/
def windowCall (w : List ℚ) : Call → List ℚ
  | .zeroStats => []
  | .push x => w ++ [x]

/-- The samples pushed since construction or the last `zeroStats`. -/
def window (calls : List Call) : List ℚ := calls.foldl windowCall []

theorem afterCalls_snoc (mMin mMax : ℚ) (calls : List Call) (c : Call) :
    afterCalls mMin mMax (calls ++ [c]) = (afterCalls mMin mMax calls).call c := by
  simp [afterCalls]

theorem window_snoc (calls : List Call) (c : Call) :
    window (calls ++ [c]) = windowCall (window calls) c := by
  simp [window]

/-- The object holds the number, the mean, the central power sums and, for a nonempty list, the
extremes of the samples `w`. -/
structure Exact (w : List ℚ) (s : OnlineStats) : Prop where
  samples : s.mSamples = w.length
  mean_eq : s.mMean = Foundations.mean w
  moment2 : s.mMoment2 = centralSum 2 w
  moment3 : s.mMoment3 = centralSum 3 w
  moment4 : s.mMoment4 = centralSum 4 w
  least : w ≠ [] → IsLeast {x | x ∈ w} s.mMin
  greatest : w ≠ [] → IsGreatest {x | x ∈ w} s.mMax

/-- The largest number of samples for which the factor of the fourth moment fits a `long long`. -/
def sampleLimit : ℕ := 3037000501

/-! ## The integer factor -/

/-- Wrapping the intermediate results changes nothing modulo `2 ^ 64`. -/
theorem coefficient_eq_longlong (n : ℤ) : coefficient n = longlong (n * n - 3 * n + 3) := by
  have hsub : longlong (longlong (n * n) - longlong (3 * n)) = longlong (n * n - 3 * n) := by
    unfold longlong
    rw [Int.bmod_sub_bmod, Int.sub_bmod_bmod]
  unfold coefficient
  rw [hsub]
  exact Int.bmod_add_bmod

/-- Up to the limit the factor is exact. -/
theorem coefficient_eq {n : ℕ} (hn : n ≤ sampleLimit) :
    coefficient n = (n : ℤ) * n - 3 * n + 3 := by
  have hn' : (n : ℤ) ≤ 3037000501 := by exact_mod_cast hn
  -- At the limit the factor is just below `2 ^ 63`.
  have hsq : (n : ℤ) * n ≤ 3037000501 * n := mul_le_mul_of_nonneg_right hn' (by omega)
  have hsq' : 0 ≤ (n : ℤ) * n := by positivity
  rw [coefficient_eq_longlong]
  apply longlong_of_mem
  · omega
  · omega

/-- Beyond the limit the factor is too large for a `long long`. -/
theorem coefficient_ne {n : ℕ} (hn : sampleLimit < n) :
    coefficient n ≠ (n : ℤ) * n - 3 * n + 3 := by
  have hn' : (3037000502 : ℤ) ≤ n := by exact_mod_cast hn
  have hsq : 3037000502 * (n : ℤ) ≤ n * n := mul_le_mul_of_nonneg_right hn' (by omega)
  have hlt := longlong_lt ((n : ℤ) * n - 3 * n + 3)
  rw [coefficient_eq_longlong]
  omega

/-! ## One push -/

section Push

variable {w : List ℚ} {s : OnlineStats}

theorem exact_zeroStats (s : OnlineStats) : Exact [] s.zeroStats := by
  refine ⟨rfl, ?_, rfl, rfl, rfl, fun h => absurd rfl h, fun h => absurd rfl h⟩
  simp [zeroStats, Foundations.mean]

/-- The counter counts, short of `2 ^ 63` samples. -/
theorem longlong_length_add_one {w : List ℚ} (hw : w.length + 1 < 2 ^ 63) :
    longlong ((w.length : ℤ) + 1) = w.length + 1 := by
  have hlt : (w.length : ℤ) + 1 < 2 ^ 63 := by exact_mod_cast hw
  exact longlong_of_mem (by omega) hlt

theorem sub_mean_eq (w : List ℚ) (x : ℚ) :
    x - Foundations.mean w = (w.length + 1) * meanStep w x := by
  have := length_add_one_ne_zero w
  rw [meanStep, mul_div_cancel₀ _ this]

/-- What a push computes on an exact object, with the mean's step `d`. -/
theorem Exact.pushed_eq (hs : Exact w s) (hw : w.length + 1 < 2 ^ 63) (x : ℚ) :
    (s.pushed x).mMean = Foundations.mean w + meanStep w x ∧
    (s.pushed x).mMoment2 =
      centralSum 2 w + (w.length + 1) * w.length * meanStep w x ^ 2 ∧
    (s.pushed x).mMoment3 =
      centralSum 3 w + ((w.length + 1) * w.length * (w.length - 1) * meanStep w x ^ 3 -
        3 * meanStep w x * centralSum 2 w) ∧
    (s.pushed x).mMoment4 =
      centralSum 4 w + ((w.length + 1) * w.length * coefficient (w.length + 1) *
          meanStep w x ^ 4 +
        6 * meanStep w x ^ 2 * centralSum 2 w - 4 * meanStep w x * centralSum 3 w) := by
  have hn := longlong_length_add_one hw
  have hn2 : longlong ((w.length : ℤ) + 1 - 2) = w.length - 1 := by
    have hlt : (w.length : ℤ) + 1 < 2 ^ 63 := by exact_mod_cast hw
    exact (longlong_of_mem (by omega) (by omega)).trans (by ring)
  -- The quotient `delta / m_samples` is the step of the mean.
  have hdelta := sub_mean_eq w x
  have hquot : ((w.length : ℚ) + 1) * meanStep w x / (((w.length : ℤ) + 1 : ℤ) : ℚ) =
      meanStep w x := by
    push_cast
    exact mul_div_cancel_left₀ _ (length_add_one_ne_zero w)
  simp only [pushed, hs.mean_eq, hs.moment2, hs.moment3, hs.moment4, hs.samples, hn, hn2, hdelta,
    hquot]
  push_cast
  refine ⟨trivial, ?_, ?_, ?_⟩ <;> ring

/-- The extremes after a push. -/
theorem Exact.extremes_pushed (hs : Exact w s) (x : ℚ) :
    IsLeast {y | y ∈ w ++ [x]} (s.pushed x).mMin ∧
      IsGreatest {y | y ∈ w ++ [x]} (s.pushed x).mMax := by
  rcases eq_or_ne w [] with rfl | hne
  · have h0 : s.mSamples = 0 := hs.samples
    simp [pushed, h0]
  · have h0 : s.mSamples ≠ 0 := by
      rw [hs.samples]
      simpa using hne
    have hmin := hs.least hne
    have hmax := hs.greatest hne
    simp only [pushed, if_neg h0]
    constructor
    · rw [← min_def_lt, min_comm]
      exact isLeast_snoc hmin x
    · change IsGreatest _ (if s.mMax < x then x else s.mMax)
      rw [← max_def_lt]
      exact isGreatest_snoc hmax x

/-- The fourth moment of an exact object after a push: the computed and the true one differ by the
error of the factor, times the fourth power of the step of the mean. -/
theorem Exact.moment4_pushed_iff (hs : Exact w s) (hw : w.length + 1 < 2 ^ 63) (x : ℚ) :
    (s.pushed x).mMoment4 = centralSum 4 (w ++ [x]) ↔
      w.length + 1 ≤ sampleLimit ∨ meanStep w x = 0 := by
  obtain ⟨-, -, -, h4⟩ := hs.pushed_eq hw x
  have hdiff : (s.pushed x).mMoment4 - centralSum 4 (w ++ [x]) =
      (w.length + 1) * w.length *
        (coefficient (w.length + 1) - ((w.length : ℚ) ^ 2 - w.length + 1)) *
          meanStep w x ^ 4 := by
    rw [h4, centralSum_four_snoc]
    ring
  rw [← sub_eq_zero, hdiff]
  constructor
  · -- A product of nonzero factors and the error of the factor vanishes.
    intro h
    by_contra hcon
    rw [not_or, not_le] at hcon
    obtain ⟨hlimit, hstep⟩ := hcon
    have hne := coefficient_ne hlimit
    have hlen : (w.length : ℚ) ≠ 0 := by
      have : w.length ≠ 0 := by
        unfold sampleLimit at hlimit
        omega
      exact_mod_cast this
    have hzero : (coefficient (w.length + 1) : ℚ) - ((w.length : ℚ) ^ 2 - w.length + 1) = 0 := by
      have := length_add_one_ne_zero w
      simpa [this, hlen, hstep] using h
    apply hne
    have hcast : ((coefficient (w.length + 1) : ℤ) : ℚ) =
        (((w.length + 1 : ℕ) * (w.length + 1 : ℕ) - 3 * (w.length + 1 : ℕ) + 3 : ℤ) : ℚ) := by
      push_cast
      linarith
    exact_mod_cast hcast
  · rintro (hlimit | hstep)
    · have hco : coefficient (w.length + 1) = _ := coefficient_eq hlimit
      rw [hco]
      push_cast
      ring
    · rw [hstep]
      ring

/-- **One push of an exact object** is exact, unless the factor overflows and the mean moves. -/
theorem exact_pushed_iff (hs : Exact w s) (hw : w.length + 1 < 2 ^ 63) (x : ℚ) :
    Exact (w ++ [x]) (s.pushed x) ↔ w.length + 1 ≤ sampleLimit ∨ meanStep w x = 0 := by
  obtain ⟨hmean, h2, h3, -⟩ := hs.pushed_eq hw x
  have h4 := hs.moment4_pushed_iff hw x
  refine ⟨fun h => h4.mp h.moment4, fun h => ⟨?_, ?_, ?_, ?_, h4.mpr h, ?_, ?_⟩⟩
  · change longlong (s.mSamples + 1) = _
    rw [hs.samples, longlong_length_add_one hw, List.length_append]
    rfl
  · rw [hmean, mean_snoc]
  · rw [h2, centralSum_two_snoc]
  · rw [h3, centralSum_three_snoc]
  · exact fun _ => (hs.extremes_pushed x).1
  · exact fun _ => (hs.extremes_pushed x).2

end Push

/-! ## Whole runs -/

/-- **Every interleaving of the calls** leaves an exact object, while the current window is within
the limit; what happened before the last `zeroStats` does not matter. -/
theorem exact_afterCalls (mMin mMax : ℚ) (calls : List Call)
    (hlimit : (window calls).length ≤ sampleLimit) :
    Exact (window calls) (afterCalls mMin mMax calls) := by
  induction calls using List.reverseRecOn with
  | nil => exact exact_zeroStats _
  | append_singleton calls c ih =>
    rw [window_snoc] at hlimit ⊢
    rw [afterCalls_snoc]
    cases c with
    | zeroStats => exact exact_zeroStats _
    | push x =>
      have hlen : (window calls).length + 1 ≤ sampleLimit := by
        simpa [windowCall] using hlimit
      have hbound : (window calls).length + 1 < 2 ^ 63 := by
        unfold sampleLimit at hlen
        omega
      exact (exact_pushed_iff (ih (by omega)) hbound x).mpr (Or.inl hlen)

/-- `k` pushes of zero. -/
def zeros (k : ℕ) : List Call := List.replicate k (.push 0)

theorem zeros_succ (k : ℕ) : zeros (k + 1) = zeros k ++ [.push 0] :=
  List.replicate_succ'

theorem window_zeros (k : ℕ) : window (zeros k) = List.replicate k 0 := by
  induction k with
  | zero => rfl
  | succ k ih => rw [zeros_succ, window_snoc, ih, List.replicate_succ', windowCall]

theorem mean_replicate_zero (k : ℕ) : Foundations.mean (List.replicate k (0 : ℚ)) = 0 := by
  simp [Foundations.mean]

/-- Pushing zeros never moves the mean, so the factor is never used. -/
theorem exact_zeros (mMin mMax : ℚ) {k : ℕ} (hk : k < 2 ^ 63) :
    Exact (List.replicate k 0) (afterCalls mMin mMax (zeros k)) := by
  induction k with
  | zero => exact exact_zeroStats _
  | succ k ih =>
    rw [zeros_succ, afterCalls_snoc, List.replicate_succ']
    refine (exact_pushed_iff (ih (by omega)) (by simpa using hk) 0).mpr (Or.inr ?_)
    rw [meanStep, mean_replicate_zero, sub_zero, zero_div]

/-- A first nonzero sample beyond the limit breaks the fourth moment. -/
theorem not_exact_zeros_one (mMin mMax : ℚ) {k : ℕ} (hk : sampleLimit ≤ k) (hk' : k + 1 < 2 ^ 63) :
    ¬ Exact (window (zeros k ++ [.push 1])) (afterCalls mMin mMax (zeros k ++ [.push 1])) := by
  have hstep : meanStep (List.replicate k (0 : ℚ)) 1 ≠ 0 := by
    rw [meanStep, mean_replicate_zero, sub_zero]
    exact one_div_ne_zero (length_add_one_ne_zero _)
  rw [window_snoc, window_zeros, afterCalls_snoc]
  intro h
  have hpush := (exact_pushed_iff (exact_zeros mMin mMax (by omega)) (by simpa using hk') 1).mp h
  rcases hpush with hle | hzero
  · rw [List.length_replicate] at hle
    omega
  · exact hstep hzero

/-- A counter never reaches `2 ^ 63`. -/
theorem samples_lt (mMin mMax : ℚ) (calls : List Call) :
    (afterCalls mMin mMax calls).mSamples < 2 ^ 63 := by
  rcases List.eq_nil_or_concat calls with rfl | ⟨calls, c, rfl⟩
  · norm_num [afterCalls, new, zeroStats]
  · rw [List.concat_eq_append, afterCalls_snoc]
    cases c with
    | zeroStats => norm_num [call, zeroStats]
    | push x => exact longlong_lt _

/-- **When the one-pass statistics are exact.** Every run with `n` samples in its window leaves an
object that holds their number, mean, central power sums and extremes if and only if the factor
`n * n - 3 * n + 3` fits a `long long`, that is up to `3037000501` samples. -/
theorem afterCalls_exact_iff (n : ℕ) :
    (∀ mMin mMax calls, (window calls).length = n →
      Exact (window calls) (afterCalls mMin mMax calls)) ↔ n ≤ 3037000501 := by
  constructor
  · intro h
    by_contra hlimit
    rw [not_le] at hlimit
    obtain ⟨k, rfl⟩ : ∃ k, n = k + 1 := ⟨n - 1, by omega⟩
    by_cases hword : k + 1 < 2 ^ 63
    · refine not_exact_zeros_one 0 0 (show sampleLimit ≤ k from by unfold sampleLimit; omega)
        hword (h 0 0 _ ?_)
      rw [window_snoc, window_zeros, windowCall, List.length_append, List.length_replicate,
        List.length_singleton]
    · -- From `2 ^ 63` samples on the counter itself is wrong.
      have hsamples := (h 0 0 (zeros (k + 1)) (by rw [window_zeros, List.length_replicate])).samples
      have hlt := samples_lt 0 0 (zeros (k + 1))
      rw [hsamples, window_zeros, List.length_replicate] at hlt
      omega
  · rintro hn mMin mMax calls rfl
    exact exact_afterCalls mMin mMax calls hn

/-- `3037000501` samples of zero followed by a one leave a wrong fourth moment. -/
theorem afterCalls_not_exact :
    ¬ Exact (window (zeros 3037000501 ++ [.push 1]))
      (afterCalls 0 0 (zeros 3037000501 ++ [.push 1])) :=
  not_exact_zeros_one 0 0 le_rfl (by norm_num)

end OnlineStats

end LinuxTest.Latency
