import LinuxTest.Latency.MarkerHeights
import Mathlib.Data.Finset.Max

/-!
# The two reports of the estimator

The header of `rt_test/latency/QuantileEstimator.h` documents the value returned by a push and the
one returned by `quantile` as the current quantile. This module says when they are what they are
documented to be.

Up to the fifth sample the object only stores the samples, and both reports are the zero the
markers were initialised to, which lies in the range of the samples only if the samples straddle
it. From the sixth on `quantile` reads the middle marker, and lies in the range. A push does the
same, except at the percentiles `0` and `1`, where it returns an extreme marker; the middle marker
stands at this extreme only when it was there from the start.

## Main results

* `pushAll_quantile_mem_range_iff`: when `quantile` lies between the extreme samples
* `push_eq_quantile_iff`: when a push returns what `quantile` returns after it
-/

namespace LinuxTest.Latency

namespace QuantileEstimator

/-! ## The start-up phase -/

/-- Up to five samples are only stored. -/
theorem pushAll_of_length_le (p : ℚ) {xs : List ℚ} (hxs : xs.length ≤ 5) :
    pushAll p xs = some { new p with firstfive := xs, mSamples := xs.length } := by
  induction xs using List.reverseRecOn with
  | nil => rfl
  | append_singleton xs x ih =>
    rw [List.length_append, List.length_singleton] at hxs
    have hlt : xs.length < 5 := by omega
    rw [pushAll_snoc (ih (by omega)), next_of_lt hlt, List.length_append, List.length_singleton]

/-- Every run is defined, and from six samples on the markers span the samples. -/
theorem exists_pushAll_after_spans (p : ℚ) (xs : List ℚ) :
    ∃ s, pushAll p xs = some s ∧ After p Spans xs s :=
  exists_pushAll_after (fun _ m hlen => spans_initMarkers hlen m p)
    (fun _ _ _ hm d x => hm.observe d x) xs

/-- Every push of a run is defined. -/
theorem exists_push {p : ℚ} {xs : List ℚ} {s : QuantileEstimator} (hs : pushAll p xs = some s)
    (x : ℚ) : ∃ r s', s.push x = some (r, s') ∧ pushAll p (xs ++ [x]) = some s' := by
  obtain ⟨s', hs', -⟩ := exists_pushAll_after_spans p (xs ++ [x])
  have hnext := (pushAll_snoc hs x).symm.trans hs'
  obtain ⟨⟨r, t⟩, hpush, rfl⟩ := Option.map_eq_some_iff.mp hnext
  exact ⟨r, t, hpush, hs'⟩

theorem quantile_eq_zero {p : ℚ} {xs : List ℚ} (hxs : xs.length ≤ 5) {s : QuantileEstimator}
    (hs : pushAll p xs = some s) : s.quantile = 0 := by
  rw [pushAll_of_length_le p hxs] at hs
  rw [← Option.some_inj.mp hs]
  rfl

/-! ## The range of the quantile -/

/-- **The quantile is a plausible one** from the sixth sample on, and before it exactly when the
samples straddle zero. -/
theorem pushAll_quantile_mem_range_iff (p : ℚ) (xs : List ℚ) :
    ∃ s, pushAll p xs = some s ∧
      ((∃ lo hi, IsLeast {x | x ∈ xs} lo ∧ IsGreatest {x | x ∈ xs} hi ∧
          lo ≤ s.quantile ∧ s.quantile ≤ hi) ↔
        6 ≤ xs.length ∨ (∃ x ∈ xs, x ≤ 0) ∧ ∃ x ∈ xs, 0 ≤ x) := by
  obtain ⟨s, hs, hafter⟩ := exists_pushAll_after_spans p xs
  refine ⟨s, hs, ?_⟩
  by_cases h6 : 6 ≤ xs.length
  · have hspan := hafter.markers h6
    obtain ⟨h₁₂, h₂₃, h₃₄, h₄₅⟩ := hspan.ordered.heights
    refine iff_of_true ⟨_, _, hspan.least, hspan.greatest, ?_, ?_⟩ (Or.inl h6)
    · exact h₁₂.trans h₂₃
    · exact h₃₄.trans h₄₅
  · rw [quantile_eq_zero (by omega) hs]
    constructor
    · rintro ⟨lo, hi, hlo, hhi, hle, hge⟩
      exact Or.inr ⟨⟨lo, hlo.1, hle⟩, hi, hhi.1, hge⟩
    · rintro (h | ⟨⟨x, hx, hle⟩, y, hy, hge⟩)
      · exact absurd h h6
      · have hne : xs.toFinset.Nonempty := ⟨x, List.mem_toFinset.mpr hx⟩
        have hlo := xs.toFinset.isLeast_min' hne
        have hhi := xs.toFinset.isGreatest_max' hne
        rw [List.coe_toFinset] at hlo hhi
        exact ⟨_, _, hlo, hhi, (hlo.2 hx).trans hle, hge.trans (hhi.2 hy)⟩

/-- One sample of five units is reported as zero. -/
theorem quantile_single_sample_out_of_range :
    ∃ s, pushAll (1 / 2) [5] = some s ∧
      ¬ ∃ lo hi, IsLeast {x | x ∈ ([5] : List ℚ)} lo ∧ IsGreatest {x | x ∈ ([5] : List ℚ)} hi ∧
        lo ≤ s.quantile ∧ s.quantile ≤ hi := by
  refine ⟨_, pushAll_of_length_le (1 / 2) (by decide), ?_⟩
  rintro ⟨lo, hi, hlo, -, hle, -⟩
  have hlo' : lo = 5 := by simpa using hlo.1
  have hzero : lo ≤ 0 := hle
  linarith

/-! ## The two reports -/

/-- From the sixth push on, the returned value is read off the markers the push leaves. -/
theorem push_of_next {s s' : QuantileEstimator} (h : 5 ≤ s.mSamples) {x : ℚ}
    (hnext : s.next x = some s') : s.push x = some (reported s'.marker s.mPerc, s') := by
  obtain ⟨⟨r, t⟩, hpush, rfl⟩ := Option.map_eq_some_iff.mp hnext
  rw [hpush]
  simp only [push, if_neg (Nat.not_lt.mpr h)] at hpush
  obtain ⟨⟨m, k, d⟩, -, hr⟩ := Option.bind_eq_some_iff.mp hpush
  cases hr
  rfl

/-- The markers of the percentile `0` after the samples `h`: the middle one stands at the minimum
exactly when three of the first five samples do. -/
structure LowEnd (h : List ℚ) (m : Markers) : Prop where
  tracks : Tracks 0 h m
  atMinimum : (m 1).q = (m 3).q ↔ 3 ≤ (h.take 5).count (m 1).q

/-- The markers of the percentile `1` after the samples `h`: the middle one stands at the maximum
exactly when three of the first five samples do. -/
structure HighEnd (h : List ℚ) (m : Markers) : Prop where
  tracks : Tracks 1 h m
  atMaximum : (m 3).q = (m 5).q ↔ 3 ≤ (h.take 5).count (m 5).q

section Ends

variable {h : List ℚ} {m : Markers}

theorem count_take_insertionSort (hlen : h.length = 5) (x : ℚ) :
    (h.take 5).count x = (h.insertionSort (· ≤ ·)).count x := by
  rw [List.take_of_length_le hlen.le, (List.perm_insertionSort (· ≤ ·) h).count_eq]

theorem lowEnd_initMarkers (hlen : h.length = 5) (m : Markers) :
    LowEnd h (initMarkers m (h.insertionSort (· ≤ ·)) 0) := by
  refine ⟨tracks_initMarkers le_rfl zero_le_one hlen m, ?_⟩
  rw [count_take_insertionSort hlen]
  obtain ⟨a, b, c, d, e, hsort, hab, hbc, hcd, hde⟩ := exists_insertionSort_five hlen
  rw [hsort]
  exact Foundations.first_eq_third_iff_count hab hbc hcd hde

theorem highEnd_initMarkers (hlen : h.length = 5) (m : Markers) :
    HighEnd h (initMarkers m (h.insertionSort (· ≤ ·)) 1) := by
  refine ⟨tracks_initMarkers zero_le_one le_rfl hlen m, ?_⟩
  rw [count_take_insertionSort hlen]
  obtain ⟨a, b, c, d, e, hsort, hab, hbc, hcd, hde⟩ := exists_insertionSort_five hlen
  rw [hsort]
  exact Foundations.third_eq_last_iff_count hab hbc hcd hde

/-- A value outside the range of the samples is none of the first five. -/
theorem count_take_eq_zero {x : ℚ} (hx : x ∉ h) : (h.take 5).count x = 0 :=
  List.count_eq_zero.mpr fun hmem => hx (List.mem_of_mem_take hmem)

/-- At the percentile `0` the middle marker never moves to the right. -/
theorem Tracks.lag_shifted_zero (hm : Tracks 0 h m) (x : ℚ) : lag (shifted m x) 3 < 1 := by
  obtain ⟨h₁₂, h₂₃, -, -⟩ := (hm.spans.ordered.shifted x).positions
  have hfirst := (shifted_outer m x).1
  rw [lag, hm.desired_shifted x (by decide)]
  rw [hm.spans.first] at hfirst
  simp only [increments]
  linarith

/-- At the percentile `1` the middle marker never moves to the left. -/
theorem Tracks.lag_shifted_one (hm : Tracks 1 h m) (x : ℚ) : -1 < lag (shifted m x) 3 := by
  obtain ⟨-, -, h₃₄, h₄₅⟩ := (hm.spans.ordered.shifted x).positions
  have hlast := (shifted_outer m x).2
  rw [lag, hm.desired_shifted x (by decide)]
  rw [hm.spans.last] at hlast
  simp only [increments]
  linarith

/-- The new markers with both descriptions of them. -/
theorem Tracks.observe_swept {p : ℚ} (hm : Tracks p h m) (h0 : 0 ≤ p) (h1 : p ≤ 1) (d : ℤ)
    (x : ℚ) : ∃ m₂ m₃ m₄ k d', QuantileEstimator.observe m d x = some (m₄, k, d') ∧
      Swept (shifted m x) m₂ m₃ m₄ ∧ Tracks p (h ++ [x]) m₄ := by
  obtain ⟨m₂, m₃, m₄, d', ho, hswept⟩ := QuantileEstimator.observe_swept hm.spans.ordered d x
  obtain ⟨m', k', d'', ho', htracks⟩ := hm.observe h0 h1 d x
  obtain rfl := observe_unique ho ho'
  exact ⟨m₂, m₃, m₄, _, d', ho, hswept, htracks⟩

/-- **A new value at the percentile `0`**: a new minimum leaves the middle marker strictly above
it, and else the middle marker stays where it was with respect to the minimum. -/
theorem LowEnd.observe (hm : LowEnd h m) (hlen : 5 ≤ h.length) (d : ℤ) (x : ℚ) :
    ∃ m' k d', observe m d x = some (m', k, d') ∧ LowEnd (h ++ [x]) m' := by
  obtain ⟨m₂, m₃, m₄, k, d', ho, hswept, htracks⟩ :=
    hm.tracks.observe_swept le_rfl zero_le_one d x
  refine ⟨m₄, k, d', ho, htracks, ?_⟩
  obtain ⟨e₁, -, e₃, -, -⟩ := locate_heights x hm.tracks.spans.ordered
  have hq₁ : (shifted m x 1).q = min (m 1).q x := (advance_q _ _ _).trans e₁
  have hq₃ : (shifted m x 3).q = (m 3).q := (advance_q _ _ _).trans e₃
  have hq₁' : (m₄ 1).q = min (m 1).q x := hswept.heights.2.2.2.1.trans hq₁
  obtain ⟨h₁₂, h₂₃, -, -⟩ := hm.tracks.spans.ordered.heights
  rw [List.take_append_of_le_length hlen]
  by_cases hnew : x < (m 1).q
  · rw [min_eq_right hnew.le] at hq₁ hq₁'
    have hlt := first_lt_middle_of_lt hswept (by linarith)
    have hmem : (m₄ 1).q ∉ h := fun hmem => by
      have := hm.tracks.spans.least.2 hmem
      linarith
    rw [count_take_eq_zero hmem]
    exact iff_of_false hlt.ne (by decide)
  · rw [min_eq_left (not_lt.mp hnew)] at hq₁ hq₁'
    rw [first_eq_middle_iff hswept (hm.tracks.lag_shifted_zero x), hq₁, hq₃, hq₁']
    exact hm.atMinimum

/-- **A new value at the percentile `1`**: a new maximum leaves the middle marker strictly below
it, and else the middle marker stays where it was with respect to the maximum. -/
theorem HighEnd.observe (hm : HighEnd h m) (hlen : 5 ≤ h.length) (d : ℤ) (x : ℚ) :
    ∃ m' k d', observe m d x = some (m', k, d') ∧ HighEnd (h ++ [x]) m' := by
  obtain ⟨m₂, m₃, m₄, k, d', ho, hswept, htracks⟩ :=
    hm.tracks.observe_swept zero_le_one le_rfl d x
  refine ⟨m₄, k, d', ho, htracks, ?_⟩
  obtain ⟨-, -, e₃, -, e₅⟩ := locate_heights x hm.tracks.spans.ordered
  have hq₅ : (shifted m x 5).q = max (m 5).q x := (advance_q _ _ _).trans e₅
  have hq₃ : (shifted m x 3).q = (m 3).q := (advance_q _ _ _).trans e₃
  have hq₅' : (m₄ 5).q = max (m 5).q x := hswept.heights.2.2.2.2.trans hq₅
  obtain ⟨-, -, h₃₄, h₄₅⟩ := hm.tracks.spans.ordered.heights
  rw [List.take_append_of_le_length hlen]
  by_cases hnew : (m 5).q < x
  · rw [max_eq_right hnew.le] at hq₅ hq₅'
    have hlt := middle_lt_last_of_lt hswept (by linarith)
    have hmem : (m₄ 5).q ∉ h := fun hmem => by
      have := hm.tracks.spans.greatest.2 hmem
      linarith
    rw [count_take_eq_zero hmem]
    exact iff_of_false hlt.ne (by decide)
  · rw [max_eq_left (not_lt.mp hnew)] at hq₅ hq₅'
    rw [middle_eq_last_iff hswept (hm.tracks.lag_shifted_one x), hq₅, hq₃, hq₅']
    exact hm.atMaximum

end Ends

/-- The markers after at least six samples at an extreme percentile. -/
theorem exists_pushAll_ends {xs : List ℚ} (hxs : 6 ≤ xs.length) :
    (∃ s, pushAll 0 xs = some s ∧ s.mSamples = xs.length ∧ LowEnd xs s.marker) ∧
      ∃ s, pushAll 1 xs = some s ∧ s.mSamples = xs.length ∧ HighEnd xs s.marker :=
  ⟨exists_pushAll (fun _ m hlen => lowEnd_initMarkers hlen m)
      (fun _ _ hlen hm d x => hm.observe hlen d x) hxs,
    exists_pushAll (fun _ m hlen => highEnd_initMarkers hlen m)
      (fun _ _ hlen hm d x => hm.observe hlen d x) hxs⟩

/-- When the value returned from the markers of a run of at least six samples is the quantile. -/
theorem reported_eq_quantile_iff {p : ℚ} {xs : List ℚ} (hxs : 6 ≤ xs.length)
    {s : QuantileEstimator} (hs : pushAll p xs = some s) :
    reported s.marker p = s.quantile ↔
      (p ≠ 0 ∧ p ≠ 1) ∨
      (p = 0 ∧ ∃ lo, IsLeast {x | x ∈ xs} lo ∧ 3 ≤ (xs.take 5).count lo) ∨
      (p = 1 ∧ ∃ hi, IsGreatest {x | x ∈ xs} hi ∧ 3 ≤ (xs.take 5).count hi) := by
  obtain ⟨⟨s₀, hs₀, -, hlow⟩, s₁, hs₁, -, hhigh⟩ := exists_pushAll_ends hxs
  by_cases hp0 : p = 0
  · subst hp0
    obtain rfl : s₀ = s := Option.some_inj.mp (hs₀.symm.trans hs)
    rw [reported, if_pos rfl, quantile, hlow.atMinimum]
    have hleast := hlow.tracks.spans.least
    constructor
    · exact fun h => Or.inr (Or.inl ⟨rfl, _, hleast, h⟩)
    · rintro (⟨h, -⟩ | ⟨-, lo, hlo, h⟩ | ⟨h, -⟩)
      · exact absurd rfl h
      · rwa [hleast.unique hlo]
      · exact absurd h zero_ne_one
  · by_cases hp1 : p = 1
    · subst hp1
      obtain rfl : s₁ = s := Option.some_inj.mp (hs₁.symm.trans hs)
      rw [reported, if_neg hp0, if_pos rfl, quantile, eq_comm, hhigh.atMaximum]
      have hgreatest := hhigh.tracks.spans.greatest
      constructor
      · exact fun h => Or.inr (Or.inr ⟨rfl, _, hgreatest, h⟩)
      · rintro (⟨-, h⟩ | ⟨h, -⟩ | ⟨-, hi, hhi, h⟩)
        · exact absurd rfl h
        · exact absurd h hp0
        · rwa [hgreatest.unique hhi]
    · rw [reported, if_neg hp0, if_neg hp1, quantile]
      exact iff_of_true rfl (Or.inl ⟨hp0, hp1⟩)

/-- **When the two reports agree.** The last push returns what `quantile` returns after it at every
inner percentile and up to the fifth sample; at the percentile `0` exactly when three of the first
five samples are the minimum of all, and at `1` exactly when three of them are the maximum. -/
theorem push_eq_quantile_iff (p : ℚ) (xs : List ℚ) (x : ℚ) :
    ∃ s r s', pushAll p xs = some s ∧ s.push x = some (r, s') ∧
      (r = s'.quantile ↔
        (p ≠ 0 ∧ p ≠ 1) ∨ (xs ++ [x]).length ≤ 5 ∨
        (p = 0 ∧ ∃ lo, IsLeast {y | y ∈ xs ++ [x]} lo ∧ 3 ≤ ((xs ++ [x]).take 5).count lo) ∨
        (p = 1 ∧ ∃ hi, IsGreatest {y | y ∈ xs ++ [x]} hi ∧
          3 ≤ ((xs ++ [x]).take 5).count hi)) := by
  obtain ⟨s, hs, hafter⟩ := exists_pushAll_after_spans p xs
  obtain ⟨r, s', hpush, hs'⟩ := exists_push hs x
  have hlen : (xs ++ [x]).length = xs.length + 1 := by simp
  refine ⟨s, r, s', hs, hpush, ?_⟩
  by_cases hlt : xs.length < 5
  · -- The start-up phase: a push returns zero, and the markers are still zero.
    have hr : r = 0 := by
      rw [push, if_pos (hafter.samples ▸ hlt)] at hpush
      exact (congrArg Prod.fst (Option.some_inj.mp hpush)).symm
    rw [hr, quantile_eq_zero (by omega) hs']
    exact iff_of_true rfl (Or.inr (Or.inl (by omega)))
  · have hr : r = reported s'.marker p := by
      have h5 : 5 ≤ s.mSamples := by
        rw [hafter.samples]
        omega
      have hnext : s.next x = some s' := by rw [next, hpush, Option.map_some]
      rw [push_of_next h5 hnext, hafter.perc] at hpush
      exact (congrArg Prod.fst (Option.some_inj.mp hpush)).symm
    have hnot : ¬ (xs ++ [x]).length ≤ 5 := by omega
    rw [hr, reported_eq_quantile_iff (by omega) hs', or_iff_right hnot]

/-- At the percentile `0`, the sixth of six different samples: the push returns the minimum, and
`quantile` returns the middle marker. -/
theorem push_ne_quantile_six_samples :
    ∃ s r s', pushAll 0 [1, 2, 3, 4, 5] = some s ∧ s.push 6 = some (r, s') ∧
      ¬ r = s'.quantile := by
  have hpush : (({ new 0 with firstfive := [1, 2, 3, 4, 5], mSamples := 5 } :
      QuantileEstimator).push 6).map (fun r => (r.1, r.2.quantile)) = some (1, 3) := by
    decide +kernel
  obtain ⟨⟨r, s'⟩, hr, heq⟩ := Option.map_eq_some_iff.mp hpush
  have hr₁ : r = 1 := congrArg Prod.fst heq
  have hq : s'.quantile = 3 := congrArg Prod.snd heq
  refine ⟨_, r, s', pushAll_of_length_le 0 (by decide), hr, ?_⟩
  rw [hr₁, hq]
  norm_num

end QuantileEstimator

end LinuxTest.Latency
