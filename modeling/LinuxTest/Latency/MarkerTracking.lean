import LinuxTest.Latency.MarkerInvariant

/-!
# The markers track their desired positions

The desired positions grow by fixed increments, so after `N` samples they are
`1 + (N - 1) * dn`. An inner marker follows its desired position by at most one position a push,
and may be blocked by a neighbour at distance one. A blocked marker lags at most one more than the
neighbour that blocks it, and the outer markers never lag: so the lag of each marker is bounded by
its distance to them, whatever the samples.

## Main definitions

* `lag m i`: how far the desired position of marker `i` is ahead of its position
* `increments p`: the increments of the desired positions
* `Tracks p h m`: the desired positions, and the bounds on the lags, after the samples `h`

## Main results

* `Adjusted.lag_le`, `Adjusted.le_lag`: one adjustment bounds the lag from the neighbour's
* `pushAll_tracking`: the desired positions and the bounds after every run
-/

namespace LinuxTest.Latency

namespace QuantileEstimator

/-- How far the desired position of marker `i` is ahead of its position. -/
def lag (m : Markers) (i : Fin 6) : ℚ := (m i).np - (m i).n

/-! ## One adjustment -/

section Adjusted

variable {m m' : Markers} {i : Fin 6}

theorem Adjusted.lag_self (h : Adjusted m i m') : lag m' i = lag m i - move m i := by
  rw [lag, lag, h.np_eq, h.n_self]
  ring

theorem Adjusted.lag_of_ne (h : Adjusted m i m') {j : Fin 6} (hj : j ≠ i) :
    lag m' j = lag m j := by
  rw [lag, lag, h.of_ne hj]

/-- After an adjustment the lag is at most `U`: a marker that lags by one or more moves up, unless
its right neighbour blocks it, and then it lags at most one more than this neighbour. -/
theorem Adjusted.lag_le (h : Adjusted m i m') (hm : Ordered m) (hi : Inner i) {U : ℚ}
    (hU : 1 ≤ U) (hnp : (m i).np ≤ (m (i + 1)).np) (hself : lag m i ≤ U + 1)
    (hright : lag m (i + 1) ≤ U - 1) : lag m' i ≤ U := by
  have hgap := hm.position_right hi
  rw [h.lag_self]
  unfold lag at *
  unfold move
  split_ifs with h₁ h₂
  · push_cast
    linarith
  · push_cast
    linarith [h₂.1]
  · -- The marker stays: its lag is small, or the right neighbour blocks it.
    push_cast
    by_cases hlag : (m i).np - (m i).n < 1
    · linarith
    · have hblocked : (m (i + 1)).n - (m i).n ≤ 1 :=
        not_lt.mp fun hlt => h₁ ⟨not_lt.mp hlag, hlt⟩
      linarith

/-- After an adjustment the lag is at least `-L`: a marker that leads by one or more moves down,
unless its left neighbour blocks it, and then it leads at most one more than this neighbour. -/
theorem Adjusted.le_lag (h : Adjusted m i m') (hm : Ordered m) (hi : Inner i) {L : ℚ}
    (hL : 1 ≤ L) (hnp : (m (i - 1)).np ≤ (m i).np) (hself : -(L + 1) ≤ lag m i)
    (hleft : -(L - 1) ≤ lag m (i - 1)) : -L ≤ lag m' i := by
  have hgap := hm.position_left hi
  rw [h.lag_self]
  unfold lag at *
  unfold move
  split_ifs with h₁ h₂
  · push_cast
    linarith [h₁.1]
  · push_cast
    linarith
  · -- The marker stays: its lead is small, or the left neighbour blocks it.
    push_cast
    by_cases hlag : -1 < (m i).np - (m i).n
    · linarith
    · have hblocked : -1 ≤ (m (i - 1)).n - (m i).n :=
        not_lt.mp fun hlt => h₂ ⟨not_lt.mp hlag, hlt⟩
      linarith

end Adjusted

/-! ## The invariant -/

/-- The increments `dn` of the desired positions for the percentile `p`. -/
def increments (p : ℚ) : Fin 6 → ℚ
  | 0 | 1 => 0
  | 2 => p / 2
  | 3 => p
  | 4 => (1 + p) / 2
  | 5 => 1

/-- The markers after the samples `h`: the desired positions are exact, and the lags of the inner
markers are bounded. -/
structure Tracks (p : ℚ) (h : List ℚ) (m : Markers) : Prop where
  spans : Spans h m
  increment : ∀ i, i ≠ 0 → (m i).dn = increments p i
  desired : ∀ i, i ≠ 0 → (m i).np = 1 + ((h.length : ℚ) - 1) * increments p i
  lag_two : -1 ≤ lag m 2 ∧ lag m 2 ≤ 5
  lag_three : -2 ≤ lag m 3 ∧ lag m 3 ≤ 3
  lag_four : -3 ≤ lag m 4 ∧ lag m 4 ≤ 1

section Increments

variable {p : ℚ}

theorem increments_mem (h0 : 0 ≤ p) (h1 : p ≤ 1) (i : Fin 6) :
    0 ≤ increments p i ∧ increments p i ≤ 1 := by
  match i with
  | 0 | 1 => norm_num [increments]
  | 2 | 3 | 4 | 5 => constructor <;> simp only [increments] <;> linarith

theorem increments_mono (h0 : 0 ≤ p) (h1 : p ≤ 1) {i : Fin 6} (hi : i ≠ 5) :
    increments p i ≤ increments p (i + 1) := by
  match i with
  | 0 => exact le_refl (0 : ℚ)
  | 1 => exact (by linarith : (0 : ℚ) ≤ p / 2)
  | 2 => exact (by linarith : p / 2 ≤ p)
  | 3 => exact (by linarith : p ≤ (1 + p) / 2)
  | 4 => exact (by linarith : (1 + p) / 2 ≤ 1)
  | 5 => exact absurd rfl hi

/-- Desired positions are ordered as the increments are. -/
theorem desired_mono (h0 : 0 ≤ p) (h1 : p ≤ 1) {m : Markers} {t : ℚ} (ht : 0 ≤ t)
    (hdes : ∀ i, i ≠ 0 → (m i).np = 1 + t * increments p i) {i : Fin 6} (hi : i ≠ 0)
    (hi' : i ≠ 5) : (m i).np ≤ (m (i + 1)).np := by
  rw [hdes i hi, hdes (i + 1) (val_add_one hi').2]
  have := mul_le_mul_of_nonneg_left (increments_mono h0 h1 hi') ht
  linarith

end Increments

/-- The invariant holds of the markers initialised from five samples. -/
theorem tracks_initMarkers {p : ℚ} (h0 : 0 ≤ p) (h1 : p ≤ 1) {h : List ℚ} (hlen : h.length = 5)
    (m : Markers) : Tracks p h (initMarkers m (h.insertionSort (· ≤ ·)) p) := by
  refine ⟨spans_initMarkers hlen m p, fun i hi => ?_, fun i hi => ?_, ?_, ?_, ?_⟩
  · match i with
    | 0 => exact absurd rfl hi
    | 1 | 2 | 3 | 4 | 5 => rfl
  · rw [hlen]
    match i with
    | 0 => exact absurd rfl hi
    | 1 | 2 | 3 | 4 | 5 =>
      simp only [initMarkers, increments]
      push_cast
      ring
  all_goals
    simp only [lag, initMarkers]
    constructor <;> linarith

/-! ## One new value -/

section Observe

variable {p : ℚ} {h : List ℚ} {m : Markers}

/-- Advancing changes a lag by the increment, less one where the position advances. -/
theorem lag_shifted (m : Markers) (x : ℚ) {i : Fin 6} (hi : i ≠ 0) :
    lag (shifted m x) i =
      lag m i + (m i).dn - if (locate m x).2 + 1 ≤ (i.val : ℤ) then 1 else 0 := by
  obtain ⟨hn, hnp, hdn⟩ := locate_frame m x i
  rw [lag, lag, shifted, advance_np _ _ hi, advance_n _ _ hi, hn, hnp, hdn]
  ring

theorem Tracks.lag_shifted_mem (hm : Tracks p h m) (h0 : 0 ≤ p) (h1 : p ≤ 1) (x : ℚ) {i : Fin 6}
    (hi : i ≠ 0) : lag m i - 1 ≤ lag (shifted m x) i ∧ lag (shifted m x) i ≤ lag m i + 1 := by
  obtain ⟨hlow, hhigh⟩ := increments_mem h0 h1 i
  rw [lag_shifted m x hi, hm.increment i hi]
  split_ifs <;> constructor <;> linarith

/-- The desired positions of the shifted markers are those of one more sample. -/
theorem Tracks.desired_shifted (hm : Tracks p h m) (x : ℚ) {i : Fin 6} (hi : i ≠ 0) :
    (shifted m x i).np = 1 + (h.length : ℚ) * increments p i := by
  obtain ⟨-, hnp, hdn⟩ := locate_frame m x i
  rw [shifted, advance_np _ _ hi, hnp, hdn, hm.desired i hi, hm.increment i hi]
  ring

/-- The outer markers stand at their desired positions when the loop starts. -/
theorem Tracks.lag_shifted_outer (hm : Tracks p h m) (x : ℚ) :
    lag (shifted m x) 1 = 0 ∧ lag (shifted m x) 5 = 0 := by
  obtain ⟨h₁, h₅⟩ := shifted_outer m x
  constructor
  · rw [lag, hm.desired_shifted x (by decide), h₁, hm.spans.first]
    simp [increments]
  · rw [lag, hm.desired_shifted x (by decide), h₅, hm.spans.last]
    simp only [increments]
    ring

/-- The three adjustments bound the lags. The upper bounds come from the right: the last marker
does not lag, and when a marker is adjusted its right neighbour has not moved yet. The lower bounds
come from the left, where the neighbour has been adjusted already. -/
theorem lags_bounded {m₁ m₂ m₃ m₄ : Markers} (hm₁ : Ordered m₁) (ha₂ : Adjusted m₁ 2 m₂)
    (ha₃ : Adjusted m₂ 3 m₃) (ha₄ : Adjusted m₃ 4 m₄)
    (hmono : ∀ i, i ≠ 0 → i ≠ 5 → (m₁ i).np ≤ (m₁ (i + 1)).np)
    (hlag₁ : lag m₁ 1 = 0) (hlag₂ : -2 ≤ lag m₁ 2 ∧ lag m₁ 2 ≤ 6)
    (hlag₃ : -3 ≤ lag m₁ 3 ∧ lag m₁ 3 ≤ 4) (hlag₄ : -4 ≤ lag m₁ 4 ∧ lag m₁ 4 ≤ 2)
    (hlag₅ : lag m₁ 5 = 0) :
    (-1 ≤ lag m₄ 2 ∧ lag m₄ 2 ≤ 5) ∧ (-2 ≤ lag m₄ 3 ∧ lag m₄ 3 ≤ 3) ∧
      (-3 ≤ lag m₄ 4 ∧ lag m₄ 4 ≤ 1) := by
  have hm₂ := ha₂.ordered hm₁ inner_two
  have hm₃ := ha₃.ordered hm₂ inner_three
  -- Each adjustment leaves the desired positions and the other lags as they are.
  have hnp₁₂ : (m₁ 1).np ≤ (m₁ 2).np := hmono 1 (by decide) (by decide)
  have hnp₂₃ : (m₁ 2).np ≤ (m₁ 3).np := hmono 2 (by decide) (by decide)
  have hnp₃₄ : (m₁ 3).np ≤ (m₁ 4).np := hmono 3 (by decide) (by decide)
  have hnp₄₅ : (m₁ 4).np ≤ (m₁ 5).np := hmono 4 (by decide) (by decide)
  have hnp₃ : ∀ i, (m₃ i).np = (m₁ i).np := fun i => by rw [ha₃.np_eq, ha₂.np_eq]
  have e₃ : lag m₂ 3 = lag m₁ 3 := ha₂.lag_of_ne (by decide)
  have e₄ : lag m₃ 4 = lag m₁ 4 := by rw [ha₃.lag_of_ne (by decide), ha₂.lag_of_ne (by decide)]
  have e₄' : lag m₂ 4 = lag m₁ 4 := ha₂.lag_of_ne (by decide)
  have e₅ : lag m₃ 5 = lag m₁ 5 := by rw [ha₃.lag_of_ne (by decide), ha₂.lag_of_ne (by decide)]
  have f₂ : lag m₄ 2 = lag m₂ 2 := by rw [ha₄.lag_of_ne (by decide), ha₃.lag_of_ne (by decide)]
  have f₂' : lag m₃ 3 = lag m₄ 3 := (ha₄.lag_of_ne (by decide)).symm
  have low₂ : -1 ≤ lag m₂ 2 := ha₂.le_lag hm₁ inner_two le_rfl hnp₁₂ (by linarith)
    (show -(1 - 1) ≤ lag m₁ 1 by linarith)
  have high₂ : lag m₂ 2 ≤ 5 := ha₂.lag_le hm₁ inner_two (by norm_num) hnp₂₃ (by linarith)
    (show lag m₁ 3 ≤ 5 - 1 by linarith)
  have low₃ : -2 ≤ lag m₃ 3 := ha₃.le_lag hm₂ inner_three (by norm_num)
    (show (m₂ 2).np ≤ (m₂ 3).np by rwa [ha₂.np_eq, ha₂.np_eq]) (by linarith)
    (show -(2 - 1) ≤ lag m₂ 2 by linarith)
  have high₃ : lag m₃ 3 ≤ 3 := ha₃.lag_le hm₂ inner_three (by norm_num)
    (show (m₂ 3).np ≤ (m₂ 4).np by rwa [ha₂.np_eq, ha₂.np_eq]) (by linarith)
    (show lag m₂ 4 ≤ 3 - 1 by linarith)
  have low₄ : -3 ≤ lag m₄ 4 := ha₄.le_lag hm₃ inner_four (by norm_num)
    (show (m₃ 3).np ≤ (m₃ 4).np by rwa [hnp₃, hnp₃]) (by linarith)
    (show -(3 - 1) ≤ lag m₃ 3 by linarith)
  have high₄ : lag m₄ 4 ≤ 1 := ha₄.lag_le hm₃ inner_four le_rfl
    (show (m₃ 4).np ≤ (m₃ 5).np by rwa [hnp₃, hnp₃]) (by linarith)
    (show lag m₃ 5 ≤ 1 - 1 by linarith)
  exact ⟨⟨f₂ ▸ low₂, f₂ ▸ high₂⟩, ⟨f₂' ▸ low₃, f₂' ▸ high₃⟩, low₄, high₄⟩

/-- **A new value keeps the desired positions exact and the lags bounded.** -/
theorem Tracks.observe (hm : Tracks p h m) (h0 : 0 ≤ p) (h1 : p ≤ 1) (d : ℤ) (x : ℚ) :
    ∃ m' k d', observe m d x = some (m', k, d') ∧ Tracks p (h ++ [x]) m' := by
  obtain ⟨m₂, m₃, m₄, d', ho, ha₂, ha₃, ha₄⟩ := observe_spec hm.spans.ordered d x
  obtain ⟨m', k', d'', ho', hspans⟩ := hm.spans.observe d x
  -- Both descriptions are of the same new markers.
  obtain rfl : m₄ = m' := by simpa using congrArg (Option.map Prod.fst) (ho.symm.trans ho')
  have hnp : ∀ i, (m₄ i).np = (shifted m x i).np := fun i => by
    rw [ha₄.np_eq, ha₃.np_eq, ha₂.np_eq]
  have hdn : ∀ i, (m₄ i).dn = (m i).dn := fun i => by
    rw [ha₄.dn_eq, ha₃.dn_eq, ha₂.dn_eq, shifted, advance_dn, (locate_frame m x i).2.2]
  have hmono := fun i hi hi' =>
    desired_mono h0 h1 (Nat.cast_nonneg _) (fun i hi => hm.desired_shifted x hi) (i := i) hi hi'
  -- The shift moves each lag by at most one, and the adjustments bring it back.
  have hlag : ∀ i : Fin 6, i ≠ 0 →
      lag m i - 1 ≤ lag (shifted m x) i ∧ lag (shifted m x) i ≤ lag m i + 1 :=
    fun i hi => hm.lag_shifted_mem h0 h1 x hi
  obtain ⟨low₂, high₂⟩ := hlag 2 (by decide)
  obtain ⟨low₃, high₃⟩ := hlag 3 (by decide)
  obtain ⟨low₄, high₄⟩ := hlag 4 (by decide)
  obtain ⟨hlag₁, hlag₅⟩ := hm.lag_shifted_outer x
  obtain ⟨hb₂, hb₃, hb₄⟩ := lags_bounded (hm.spans.ordered.shifted x) ha₂ ha₃ ha₄ hmono hlag₁
    ⟨by linarith [hm.lag_two.1], by linarith [hm.lag_two.2]⟩
    ⟨by linarith [hm.lag_three.1], by linarith [hm.lag_three.2]⟩
    ⟨by linarith [hm.lag_four.1], by linarith [hm.lag_four.2]⟩ hlag₅
  refine ⟨m₄, _, d', ho, hspans, fun i hi => ?_, fun i hi => ?_, hb₂, hb₃, hb₄⟩
  · rw [hdn, hm.increment i hi]
  · rw [hnp, hm.desired_shifted x hi]
    simp

end Observe

/-! ## Runs -/

/-- **The markers track their target ranks**, whatever the samples: after `N` pushes the desired
positions are `1 + (N - 1) * dn`, and the positions stay within a constant of them. -/
theorem pushAll_tracking (p : ℚ) (h0 : 0 ≤ p) (h1 : p ≤ 1) (xs : List ℚ) (hN : 6 ≤ xs.length) :
    ∃ s, pushAll p xs = some s ∧
      (s.marker 1).np = 1 + ((xs.length : ℚ) - 1) * 0 ∧
      (s.marker 2).np = 1 + ((xs.length : ℚ) - 1) * (p / 2) ∧
      (s.marker 3).np = 1 + ((xs.length : ℚ) - 1) * p ∧
      (s.marker 4).np = 1 + ((xs.length : ℚ) - 1) * ((1 + p) / 2) ∧
      (s.marker 5).np = 1 + ((xs.length : ℚ) - 1) * 1 ∧
      (-1 ≤ (s.marker 2).np - (s.marker 2).n ∧ (s.marker 2).np - (s.marker 2).n ≤ 5) ∧
      (-2 ≤ (s.marker 3).np - (s.marker 3).n ∧ (s.marker 3).np - (s.marker 3).n ≤ 3) ∧
      (-3 ≤ (s.marker 4).np - (s.marker 4).n ∧ (s.marker 4).np - (s.marker 4).n ≤ 1) := by
  obtain ⟨s, hs, -, htracks⟩ := exists_pushAll (P := Tracks p)
    (fun _ m hlen => tracks_initMarkers h0 h1 hlen m)
    (fun _ _ _ hm d x => hm.observe h0 h1 d x) hN
  exact ⟨s, hs, htracks.desired 1 (by decide), htracks.desired 2 (by decide),
    htracks.desired 3 (by decide), htracks.desired 4 (by decide), htracks.desired 5 (by decide),
    htracks.lag_two, htracks.lag_three, htracks.lag_four⟩

/-- The bounds for the percentile `1`, on samples that always fall into the first cell, so that
every marker but the first is pushed up. -/
theorem pushAll_tracking_descending :
    ∃ s, pushAll 1 [8, 7, 6, 5, 4, 3, 2, 1] = some s ∧
      -3 ≤ (s.marker 4).np - (s.marker 4).n ∧ (s.marker 4).np - (s.marker 4).n ≤ 1 := by
  obtain ⟨s, hs, -, -, -, -, -, -, -, hlag⟩ :=
    pushAll_tracking 1 (by norm_num) le_rfl [8, 7, 6, 5, 4, 3, 2, 1] (by decide)
  exact ⟨s, hs, hlag⟩

end QuantileEstimator

end LinuxTest.Latency
