import LinuxTest.Latency.OnlineStats

/-!
# The two-pass reference statistics

`Stats` of `rt_test/latency/OnlineStats.h`, the class kept beside `OnlineStats` to verify it: its
constructor sums the deviations from the mean, then sorts the samples for the percentiles and the
extremes. Loop indices are `int`, so a vector of `2 ^ 31` samples or more has no result, and
neither has an empty one.

## Main definitions

* `Stats`, `Stats.new`: the object and its constructor
* `Agrees s st`: the queries of the one-pass object `s` give the members of the reference `st`

## Main results

* `exists_stats`: what the constructor computes
* `agrees_except_variance`: after the same samples every query but the variance agrees
* `never_agrees`: the variance never does, for samples that are not all equal
-/

namespace LinuxTest.Latency

open Foundations

/-- The public members. -/
structure Stats where
  stddev : ℝ
  var : ℚ
  mean : ℚ
  skew : ℝ
  kurt : ℚ
  max : ℚ
  min : ℚ
  perc : List ℚ
  samples : ℚ

namespace Stats

/-- One iteration of the summation loop, on `(var, skew, kurt)`. -/
def accumulate (mean : ℚ) (acc : ℚ × ℚ × ℚ) (x : ℚ) : ℚ × ℚ × ℚ :=
  let d := x - mean
  let d2 := d * d
  (acc.1 + d2, acc.2.1 + d * d2, acc.2.2 + d2 * d2)

/-- The index `(samples*i)/100` of the `i`-th percentile, truncated to an `int`. -/
def percIndex (samples : ℚ) (i : ℕ) : ℕ := ⌊samples * i / 100⌋₊

/-- The constructor. -/
noncomputable def new (v : List ℚ) : Option Stats :=
  if 2 ^ 31 ≤ v.length then none
  else do
    let n : ℚ := v.length
    let mean := v.foldl (· + ·) 0 / n
    let sums := v.foldl (accumulate mean) (0, 0, 0)
    let var := sums.1 / n
    let stddev := √(var : ℝ)
    let skew := sums.2.1 / (n * stddev * var)
    let kurt := sums.2.2 / (n * var * var) - 3
    let v := v.insertionSort (· ≤ ·)
    let perc ← (List.range 100).mapM fun i => v[percIndex n i]?
    let min ← v.min?
    let max ← v.max?
    return { stddev, var, mean, skew, kurt, max, min, perc, samples := n }

/-! ## What the constructor computes -/

theorem foldl_accumulate (c : ℚ) (v : List ℚ) (acc : ℚ × ℚ × ℚ) :
    v.foldl (accumulate c) acc =
      (acc.1 + powerSum 2 c v, acc.2.1 + powerSum 3 c v, acc.2.2 + powerSum 4 c v) := by
  induction v generalizing acc with
  | nil => simp
  | cons x v ih =>
    rw [List.foldl_cons, ih, powerSum_cons, powerSum_cons, powerSum_cons, accumulate]
    ext <;> dsimp only <;> ring

/-- The mean of the constructor is the arithmetic mean. -/
theorem foldl_add_div (v : List ℚ) : v.foldl (· + ·) 0 / v.length = Foundations.mean v := by
  rw [Foundations.mean, List.sum_eq_foldl]

theorem exists_mapM {A B : Type} {f : A → Option B} {l : List A}
    (h : ∀ a ∈ l, ∃ b, f a = some b) : ∃ bs, l.mapM f = some bs := by
  induction l with
  | nil => exact ⟨[], rfl⟩
  | cons a l ih =>
    obtain ⟨b, hb⟩ := h a List.mem_cons_self
    obtain ⟨bs, hbs⟩ := ih fun a' ha' => h a' (List.mem_cons_of_mem a ha')
    exact ⟨b :: bs, by simp [hb, hbs]⟩

/-- The index of a percentile is inside a nonempty vector. -/
theorem percIndex_lt {n : ℕ} (hn : 0 < n) {i : ℕ} (hi : i < 100) : percIndex n i < n := by
  have hpos : (0 : ℚ) < n := by exact_mod_cast hn
  have hi' : (i : ℚ) < 100 := by exact_mod_cast hi
  apply (Nat.floor_lt (by positivity)).mpr
  rw [div_lt_iff₀ (by norm_num)]
  exact mul_lt_mul_of_pos_left hi' hpos

/-- **What the constructor computes** for a nonempty vector with an `int` size. -/
theorem exists_stats {v : List ℚ} (hne : v ≠ []) (hlen : v.length < 2 ^ 31) :
    ∃ st, new v = some st ∧ st.mean = Foundations.mean v ∧
      st.var = centralSum 2 v / v.length ∧
      st.skew = ((centralSum 3 v : ℚ) : ℝ) / ((v.length : ℚ) * √(st.var : ℝ) * st.var) ∧
      st.kurt = centralSum 4 v / (v.length * st.var * st.var) - 3 ∧
      IsLeast {x | x ∈ v} st.min ∧ IsGreatest {x | x ∈ v} st.max := by
  have hpos : 0 < v.length := List.length_pos_iff.mpr hne
  have hsorted : v.insertionSort (· ≤ ·) ≠ [] := by
    rw [← List.length_pos_iff, List.length_insertionSort]
    exact hpos
  have hmem : ∀ x, x ∈ v.insertionSort (· ≤ ·) ↔ x ∈ v := fun x => List.mem_insertionSort _
  obtain ⟨perc, hperc⟩ : ∃ perc, ((List.range 100).mapM fun i =>
      (v.insertionSort (· ≤ ·))[percIndex v.length i]?) = some perc := by
    refine exists_mapM fun i hi => ?_
    have hlt := percIndex_lt hpos (List.mem_range.mp hi)
    exact ⟨_, List.getElem?_eq_getElem (by rwa [List.length_insertionSort])⟩
  obtain ⟨lo, hlo⟩ := Option.ne_none_iff_exists'.mp (mt List.min?_eq_none_iff.mp hsorted)
  obtain ⟨hi, hhi⟩ := Option.ne_none_iff_exists'.mp (mt List.max?_eq_none_iff.mp hsorted)
  obtain ⟨hlo₁, hlo₂⟩ := List.min?_eq_some_iff.mp hlo
  obtain ⟨hhi₁, hhi₂⟩ := List.max?_eq_some_iff.mp hhi
  simp only [new, if_neg (Nat.not_le.mpr hlen), hperc, hlo, hhi, foldl_accumulate,
    foldl_add_div, zero_add]
  refine ⟨_, rfl, rfl, rfl, rfl, rfl, ?_, ?_⟩
  · exact ⟨(hmem lo).mp hlo₁, fun x hx => hlo₂ x ((hmem x).mpr hx)⟩
  · exact ⟨(hmem hi).mp hhi₁, fun x hx => hhi₂ x ((hmem x).mpr hx)⟩

end Stats

/-! ## Comparison with the one-pass object -/

namespace OnlineStats

/-- The queries of the one-pass object give the members of the reference, the skew up to its
sign. -/
structure Agrees (s : OnlineStats) (st : Stats) : Prop where
  mean_eq : s.mean = st.mean
  variance_eq : s.variance = st.var
  kurtosis_eq : s.kurtosis = st.kurt
  min_eq : s.min = st.min
  max_eq : s.max = st.max
  skew_sq : s.skew ^ 2 = st.skew ^ 2

/-- The samples `v`, pushed in order. -/
def pushes (v : List ℚ) : List Call := v.map .push

theorem window_pushes (v : List ℚ) : window (pushes v) = v := by
  induction v using List.reverseRecOn with
  | nil => rfl
  | append_singleton v x ih =>
    rw [pushes, List.map_append, List.map_singleton, window_snoc, ← pushes, ih, windowCall]

/-- The square of the skew is a rational function of the moments. -/
theorem skew_sq (s : OnlineStats) (hn : 0 ≤ s.mSamples) (h2 : 0 ≤ s.mMoment2) :
    s.skew ^ 2 = s.mSamples * (s.mMoment3 : ℝ) ^ 2 / (s.mMoment2 : ℝ) ^ 3 := by
  have hn' : (0 : ℝ) ≤ s.mSamples := by exact_mod_cast hn
  have h2' : (0 : ℝ) ≤ s.mMoment2 := by exact_mod_cast h2
  have hpow : ((s.mMoment2 : ℝ) ^ (1.5 : ℝ)) ^ 2 = (s.mMoment2 : ℝ) ^ 3 := by
    rw [← Real.rpow_natCast, ← Real.rpow_mul h2', ← Real.rpow_natCast]
    norm_num
  rw [skew, div_pow, mul_pow, Real.sq_sqrt hn', hpow]

/-- The second central power sum of samples that are not all equal. -/
theorem centralSum_two_pos {v : List ℚ} (hne : ∃ x ∈ v, ∃ y ∈ v, x ≠ y) :
    0 < centralSum 2 v := by
  obtain ⟨x, hx, y, hy, hxy⟩ := hne
  have hnonneg : ∀ z ∈ v.map fun z => (z - Foundations.mean v) ^ 2, 0 ≤ z := by
    intro z hz
    obtain ⟨z, -, rfl⟩ := List.mem_map.mp hz
    exact sq_nonneg _
  -- One of two different samples differs from the mean.
  obtain ⟨z, hz, hzne⟩ : ∃ z ∈ v, z ≠ Foundations.mean v := by
    by_contra hall
    push Not at hall
    exact hxy ((hall x hx).trans (hall y hy).symm)
  have hpos : 0 < (z - Foundations.mean v) ^ 2 := by
    have := sub_ne_zero.mpr hzne
    positivity
  exact hpos.trans_le (List.single_le_sum hnonneg _ (List.mem_map.mpr ⟨z, hz, rfl⟩))

section Comparison

variable {v : List ℚ} (mMin mMax : ℚ)

/-- **Every query but the variance agrees with the reference**, which divides the sum of the squared
deviations by `n` where the one-pass object divides it by `n - 1`. -/
theorem agrees_except_variance (htwo : 2 ≤ v.length) (hne : ∃ x ∈ v, ∃ y ∈ v, x ≠ y)
    (hlen : v.length < 2 ^ 31) :
    ∃ st, Stats.new v = some st ∧
      (afterCalls mMin mMax (pushes v)).mean = st.mean ∧
      (afterCalls mMin mMax (pushes v)).kurtosis = st.kurt ∧
      (afterCalls mMin mMax (pushes v)).min = st.min ∧
      (afterCalls mMin mMax (pushes v)).max = st.max ∧
      (afterCalls mMin mMax (pushes v)).skew ^ 2 = st.skew ^ 2 ∧
      0 < st.var ∧
      (v.length - 1) * (afterCalls mMin mMax (pushes v)).variance = v.length * st.var := by
  have hv : v ≠ [] := by
    rintro rfl
    exact absurd htwo (by decide)
  have hexact : Exact v (afterCalls mMin mMax (pushes v)) := by
    have := exact_afterCalls mMin mMax (pushes v)
    rw [window_pushes] at this
    apply this
    unfold sampleLimit
    omega
  have hpos := centralSum_two_pos hne
  generalize afterCalls mMin mMax (pushes v) = s at hexact
  obtain ⟨st, hst, hmean, hvar, hskew, hkurt, hmin, hmax⟩ := Stats.exists_stats hv hlen
  have hn : (0 : ℚ) < v.length := by exact_mod_cast List.length_pos_iff.mpr hv
  have hvpos : 0 < st.var := by
    rw [hvar]
    positivity
  refine ⟨st, hst, ?_, ?_, ?_, ?_, ?_, hvpos, ?_⟩
  · rw [mean, hexact.mean_eq, hmean]
  · rw [kurtosis, hexact.samples, hexact.moment2, hexact.moment4, hkurt, hvar]
    push_cast
    field_simp
  · exact (hexact.least hv).unique hmin
  · exact (hexact.greatest hv).unique hmax
  · -- The two skews differ in where the root is taken, so their squares are compared.
    rw [skew_sq s (by rw [hexact.samples]; positivity) (by rw [hexact.moment2]; exact hpos.le),
      hexact.samples, hexact.moment2, hexact.moment3, hskew, div_pow, mul_pow, mul_pow,
      Real.sq_sqrt (by exact_mod_cast hvpos.le), hvar]
    have hn' : (0 : ℝ) < v.length := by exact_mod_cast hn
    have hpos' : (0 : ℝ) < (centralSum 2 v : ℚ) := by exact_mod_cast hpos
    push_cast
    field_simp
  · have htwo' : (2 : ℚ) ≤ v.length := by exact_mod_cast htwo
    have hsub : (v.length : ℚ) - 1 ≠ 0 := by linarith
    rw [variance, hexact.samples, hexact.moment2, hvar, Int.cast_natCast, mul_div_cancel₀ _ hsub,
      mul_div_cancel₀ _ hn.ne']

/-- A sample variance and a population variance related as above are different. -/
theorem variance_ne {n : ℕ} {sample population : ℚ} (hpos : 0 < population)
    (h : ((n : ℚ) - 1) * sample = n * population) : sample ≠ population := by
  rintro rfl
  linarith

/-- **The one-pass object never agrees with the reference**: for every list of at least two samples
that are not all equal, the variances differ. -/
theorem never_agrees (v : List ℚ) (htwo : 2 ≤ v.length) (hne : ∃ x ∈ v, ∃ y ∈ v, x ≠ y) :
    ¬ ∃ st, Stats.new v = some st ∧ Agrees (afterCalls mMin mMax (pushes v)) st := by
  rintro ⟨st, hst, hagrees⟩
  have hlen : v.length < 2 ^ 31 := by
    by_contra hlong
    rw [Stats.new, if_pos (not_lt.mp hlong)] at hst
    exact Option.some_ne_none st hst.symm
  obtain ⟨st', hst', -, -, -, -, -, hpos, hvar⟩ := agrees_except_variance mMin mMax htwo hne hlen
  obtain rfl : st = st' := Option.some.inj (hst.symm.trans hst')
  exact variance_ne hpos hvar hagrees.variance_eq

/-- The samples `0` and `1`. -/
theorem never_agrees_zero_one :
    (2 ≤ [(0 : ℚ), 1].length ∧ ∃ x ∈ [(0 : ℚ), 1], ∃ y ∈ [(0 : ℚ), 1], x ≠ y) ∧
      ¬ ∃ st, Stats.new [0, 1] = some st ∧ Agrees (afterCalls 0 0 (pushes [0, 1])) st :=
  ⟨by simp, never_agrees 0 0 [0, 1] (by simp) (by simp)⟩

/-- For the samples `0` and `1` the variance is `1 / 2`, and `1 / 4` in the reference. -/
theorem variance_zero_one : ∃ st, Stats.new [0, 1] = some st ∧
    (afterCalls 0 0 (pushes [0, 1])).variance = 1 / 2 ∧ st.var = 1 / 4 ∧
      ¬ Agrees (afterCalls 0 0 (pushes [0, 1])) st := by
  obtain ⟨st, hst, -, hvar, -⟩ := Stats.exists_stats (v := [0, 1]) (by simp) (by simp)
  have hone : (afterCalls 0 0 (pushes [0, 1])).variance = 1 / 2 := by decide +kernel
  have hpop : st.var = 1 / 4 := by
    rw [hvar]
    norm_num [centralSum, powerSum, Foundations.mean]
  refine ⟨st, hst, hone, hpop, fun h => ?_⟩
  have := h.variance_eq
  rw [hone, hpop] at this
  norm_num at this

end Comparison

end OnlineStats

end LinuxTest.Latency
