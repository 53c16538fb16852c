import LinuxTest.Latency.MarkerTracking
import Mathlib.Tactic.Positivity

/-!
# Which way the heights move

A marker that moves to the right does not get lower, and does not reach a neighbour that was
strictly higher; a marker that moves to the left does not get higher, and does not reach a
neighbour that was strictly lower. This holds of both predictions: the parabola is taken strictly
between the neighbours only, and the segment is left one position along a gap of at least two.

It follows when the middle marker, whose height is the reported quantile, stands at an extreme of
the samples. Once it is strictly inside the range it stays there, and while it stands at an extreme
it stays there too, as long as no sample extends the range and the marker does not move away.

## Main definitions

* `Steered m i m'`: an adjustment of marker `i`, with the way its height goes

## Main results

* `adjust_steered`: every adjustment of ordered markers goes the way of its move
* `middle_lt_last_of_lt`, `first_lt_middle_of_lt`: the middle marker stays inside the range
* `middle_eq_last_of_eq`, `first_eq_middle_of_eq`: the middle marker stays at an extreme
* `middle_eq_last_iff`, `first_eq_middle_iff`: both together, for a marker that does not move away
-/

namespace LinuxTest.Latency

namespace QuantileEstimator

/-! ## The two predictions -/

section Predictions

variable {m : Markers} {i : Fin 6} {q : ℚ}

/-- The bracket of the parabolic prediction is not negative, in either direction. -/
theorem parabola_bracket_nonneg (hm : Ordered m) (hi : Inner i) {t : ℚ} (ht : |t| ≤ 1) :
    0 ≤ ((m i).n - (m (i - 1)).n + t) * ((m (i + 1)).q - (m i).q) / ((m (i + 1)).n - (m i).n) +
      ((m (i + 1)).n - (m i).n - t) * ((m i).q - (m (i - 1)).q) / ((m i).n - (m (i - 1)).n) := by
  obtain ⟨hlow, hhigh⟩ := abs_le.mp ht
  have hl := hm.position_left hi
  have hr := hm.position_right hi
  have hql := hm.height_left hi
  have hqr := hm.height_right hi
  refine add_nonneg (div_nonneg (mul_nonneg ?_ ?_) ?_) (div_nonneg (mul_nonneg ?_ ?_) ?_)
  all_goals linarith

theorem parabolicEstimate_one_ge (hm : Ordered m) (hi : Inner i)
    (h : parabolicEstimate m i 1 = some q) : (m i).q ≤ q := by
  have hl := hm.position_left hi
  have hr := hm.position_right hi
  rw [parabolicEstimate_eq hm hi, Option.some_inj] at h
  have hbracket := parabola_bracket_nonneg hm hi (t := ((1 : ℤ) : ℚ)) (by norm_num)
  have hlead : 0 ≤ ((1 : ℤ) : ℚ) / ((m (i + 1)).n - (m (i - 1)).n) :=
    div_nonneg (by norm_num) (by linarith)
  rw [← h]
  linarith [mul_nonneg hlead hbracket]

theorem parabolicEstimate_neg_one_le (hm : Ordered m) (hi : Inner i)
    (h : parabolicEstimate m i (-1) = some q) : q ≤ (m i).q := by
  have hl := hm.position_left hi
  have hr := hm.position_right hi
  rw [parabolicEstimate_eq hm hi, Option.some_inj] at h
  have hbracket := parabola_bracket_nonneg hm hi (t := ((-1 : ℤ) : ℚ)) (by norm_num)
  have hlead : ((-1 : ℤ) : ℚ) / ((m (i + 1)).n - (m (i - 1)).n) ≤ 0 :=
    div_nonpos_of_nonpos_of_nonneg (by norm_num) (by linarith)
  rw [← h]
  linarith [mul_nonpos_of_nonpos_of_nonneg hlead hbracket]

/-- One position along a segment of length at least two is short of its end. -/
theorem segment_lt {q r t : ℚ} (hq : q < r) (ht : 2 ≤ t) : q + (r - q) / t < r := by
  have hpos : 0 < t := by linarith
  have hlt : (r - q) / t < r - q := by
    rw [div_lt_iff₀ hpos]
    nlinarith
  linarith

/-- A marker predicted to the right does not get lower, and stays below a strictly higher
neighbour. -/
theorem predict_one (hm : Ordered m) (hi : Inner i) (hgap : (m i).n + 2 ≤ (m (i + 1)).n)
    (h : predict m i 1 = some q) :
    (m i).q ≤ q ∧ ((m i).q < (m (i + 1)).q → q < (m (i + 1)).q) := by
  obtain ⟨qip, hqip, hpredict⟩ := exists_predict_eq hm hi 1
  rw [hpredict] at h
  split_ifs at h with hbetween
  · obtain rfl : qip = q := Option.some_inj.mp h
    exact ⟨parabolicEstimate_one_ge hm hi hqip, fun _ => hbetween.2⟩
  · rw [linearEstimate_one hm hi, Option.some_inj] at h
    rw [← h]
    exact ⟨(segment_between (hm.height_right hi) (by linarith)).1,
      fun hlt => segment_lt hlt (by linarith)⟩

/-- A marker predicted to the left does not get higher, and stays above a strictly lower
neighbour. -/
theorem predict_neg_one (hm : Ordered m) (hi : Inner i) (hgap : (m (i - 1)).n + 2 ≤ (m i).n)
    (h : predict m i (-1) = some q) :
    q ≤ (m i).q ∧ ((m (i - 1)).q < (m i).q → (m (i - 1)).q < q) := by
  obtain ⟨qip, hqip, hpredict⟩ := exists_predict_eq hm hi (-1)
  rw [hpredict] at h
  split_ifs at h with hbetween
  · obtain rfl : qip = q := Option.some_inj.mp h
    exact ⟨parabolicEstimate_neg_one_le hm hi hqip, fun _ => hbetween.1⟩
  · rw [linearEstimate_neg_one hm hi, Option.some_inj] at h
    rw [← h]
    have hle : 0 ≤ ((m i).q - (m (i - 1)).q) / ((m i).n - (m (i - 1)).n) :=
      div_nonneg (by linarith [hm.height_left hi]) (by linarith)
    refine ⟨by linarith, fun hlt => ?_⟩
    have hseg := segment_lt (q := 0) (r := (m i).q - (m (i - 1)).q)
      (t := (m i).n - (m (i - 1)).n) (by linarith) (by linarith)
    rw [sub_zero, zero_add] at hseg
    linarith

end Predictions

/-! ## One adjustment -/

/-- `m'` is `m` with marker `i` adjusted, and the height of the marker goes the way of the move,
short of a neighbour at another height. -/
structure Steered (m : Markers) (i : Fin 6) (m' : Markers) : Prop where
  adjusted : Adjusted m i m'
  stays : move m i = 0 → (m' i).q = (m i).q
  predicted : move m i ≠ 0 → predict m i (move m i) = some (m' i).q
  right : move m i = 1 → (m i).q ≤ (m' i).q ∧ ((m i).q < (m (i + 1)).q → (m' i).q < (m (i + 1)).q)
  left : move m i = -1 → (m' i).q ≤ (m i).q ∧ ((m (i - 1)).q < (m i).q → (m (i - 1)).q < (m' i).q)

/-- A marker moves to the right only when it lags by one and its right neighbour is more than one
position away. -/
theorem of_move_eq_one {m : Markers} {i : Fin 6} (h : move m i = 1) :
    1 ≤ lag m i ∧ 1 < (m (i + 1)).n - (m i).n := by
  unfold move at h
  split_ifs at h with h₁
  · exact h₁
  · exact absurd h (by decide)

/-- A marker moves to the left only when it leads by one and its left neighbour is more than one
position away. -/
theorem of_move_eq_neg_one {m : Markers} {i : Fin 6} (h : move m i = -1) :
    lag m i ≤ -1 ∧ (m (i - 1)).n - (m i).n < -1 := by
  unfold move at h
  split_ifs at h with h₁ h₂
  exact h₂

/-- A marker moves only into a gap of at least two positions. -/
theorem two_le_of_move {m : Markers} (hm : Ordered m) {i : Fin 6} (hi : Inner i) :
    (move m i = 1 → (m i).n + 2 ≤ (m (i + 1)).n) ∧
      (move m i = -1 → (m (i - 1)).n + 2 ≤ (m i).n) := by
  refine ⟨fun h => ?_, fun h => ?_⟩
  · exact hm.two_le_of_one_lt hi.1 (inner_succ_ne_zero hi) (of_move_eq_one h).2
  · exact hm.two_le_of_one_lt (inner_pred hi).1 hi.1 (by linarith [(of_move_eq_neg_one h).2])

/-- The prediction behind an adjustment that moves its marker. -/
theorem predict_of_adjust {m m' : Markers} {i : Fin 6} {d d' : ℤ} (hmove : move m i ≠ 0)
    (h : adjust m d i = some (m', d')) : predict m i (move m i) = some (m' i).q := by
  rw [adjust_eq, if_neg hmove, moveBy] at h
  cases hq : predict m i (move m i) with
  | none => simp [hq] at h
  | some q =>
    rw [hq] at h
    obtain rfl : Function.update m i { m i with q := q, n := (m i).n + move m i } = m' :=
      congrArg Prod.fst (Option.some_inj.mp h)
    simp

/-- **Every adjustment of ordered markers goes the way of its move.** -/
theorem adjust_steered {m : Markers} (hm : Ordered m) {i : Fin 6} (hi : Inner i) (d : ℤ) :
    ∃ m' d', adjust m d i = some (m', d') ∧ Steered m i m' := by
  obtain ⟨m', d', h, hadj⟩ := adjust_spec hm hi d
  refine ⟨m', d', h, hadj, fun h₀ => ?_, fun hne => predict_of_adjust hne h, fun h₁ => ?_,
    fun h₁ => ?_⟩
  · rw [adjust_eq, if_pos h₀] at h
    obtain rfl : m = m' := congrArg Prod.fst (Option.some_inj.mp h)
    rfl
  · have hgap := (two_le_of_move hm hi).1 h₁
    exact predict_one hm hi hgap (h₁ ▸ predict_of_adjust (by rw [h₁]; decide) h)
  · have hgap := (two_le_of_move hm hi).2 h₁
    exact predict_neg_one hm hi hgap (h₁ ▸ predict_of_adjust (by rw [h₁]; decide) h)

section Steered

variable {m m' : Markers} {i : Fin 6}

/-- Below a strictly higher right neighbour a marker stays below it. -/
theorem Steered.lt_right (h : Steered m i m') (hlt : (m i).q < (m (i + 1)).q) :
    (m' i).q < (m (i + 1)).q := by
  rcases move_cases m i with h₀ | h₁ | h₁
  · exact (h.stays h₀).trans_lt hlt
  · exact (h.right h₁).2 hlt
  · exact (h.left h₁).1.trans_lt hlt

/-- Above a strictly lower left neighbour a marker stays above it. -/
theorem Steered.left_lt (h : Steered m i m') (hlt : (m (i - 1)).q < (m i).q) :
    (m (i - 1)).q < (m' i).q := by
  rcases move_cases m i with h₀ | h₁ | h₁
  · exact hlt.trans_eq (h.stays h₀).symm
  · exact hlt.trans_le (h.right h₁).1
  · exact (h.left h₁).2 hlt

theorem Steered.le_of_not_left (h : Steered m i m') (hmove : move m i ≠ -1) :
    (m i).q ≤ (m' i).q := by
  rcases move_cases m i with h₀ | h₁ | h₁
  · exact (h.stays h₀).ge
  · exact (h.right h₁).1
  · exact absurd h₁ hmove

theorem Steered.ge_of_not_right (h : Steered m i m') (hmove : move m i ≠ 1) :
    (m' i).q ≤ (m i).q := by
  rcases move_cases m i with h₀ | h₁ | h₁
  · exact (h.stays h₀).le
  · exact absurd h₁ hmove
  · exact (h.left h₁).1

theorem Adjusted.between (h : Adjusted m i m') :
    (m (i - 1)).q ≤ (m' i).q ∧ (m' i).q ≤ (m (i + 1)).q := by
  obtain ⟨q, rfl, hbetween⟩ := h
  simpa using hbetween

end Steered

/-! ## The middle marker -/

/-- What the three adjustments of a new value do, from the shifted markers `m`. -/
structure Swept (m m₂ m₃ m₄ : Markers) : Prop where
  ordered : Ordered m
  second : Steered m 2 m₂
  third : Steered m₂ 3 m₃
  fourth : Steered m₃ 4 m₄

/-- **One new value**, with the way the heights go. -/
theorem observe_swept {m : Markers} (hm : Ordered m) (d : ℤ) (x : ℚ) :
    ∃ m₂ m₃ m₄ d', observe m d x = some (m₄, (locate m x).2, d') ∧
      Swept (shifted m x) m₂ m₃ m₄ := by
  obtain ⟨m₂, m₃, m₄, d', ho, h₂, h₃, h₄⟩ := exists_observe
    (fun hm hi d => adjust_steered hm hi d) (fun h hm hi => h.adjusted.ordered hm hi) hm d x
  exact ⟨m₂, m₃, m₄, d', ho, hm.shifted x, h₂, h₃, h₄⟩

/-- The markers after a value are determined. -/
theorem observe_unique {m m₁ m₂ : Markers} {d d₁ d₂ k₁ k₂ : ℤ} {x : ℚ}
    (h₁ : observe m d x = some (m₁, k₁, d₁)) (h₂ : observe m d x = some (m₂, k₂, d₂)) :
    m₁ = m₂ := by
  simpa using congrArg (Option.map Prod.fst) (h₁.symm.trans h₂)

section Middle

variable {m m₂ m₃ m₄ : Markers}

theorem Swept.ordered_after (h : Swept m m₂ m₃ m₄) : Ordered m₄ :=
  h.fourth.adjusted.ordered (h.third.adjusted.ordered
    (h.second.adjusted.ordered h.ordered inner_two) inner_three) inner_four

/-- The heights the adjustments of the markers `2` and `3` read, and the ones they leave. -/
theorem Swept.heights (h : Swept m m₂ m₃ m₄) :
    (m₂ 3).q = (m 3).q ∧ (m₂ 4).q = (m 4).q ∧ (m₄ 3).q = (m₃ 3).q ∧
      (m₄ 1).q = (m 1).q ∧ (m₄ 5).q = (m 5).q := by
  obtain ⟨h₁, h₅⟩ := adjusted_outer h.second.adjusted h.third.adjusted h.fourth.adjusted
  refine ⟨?_, ?_, ?_, by rw [h₁], by rw [h₅]⟩
  · rw [h.second.adjusted.of_ne (by decide)]
  · rw [h.second.adjusted.of_ne (by decide)]
  · rw [h.fourth.adjusted.of_ne (by decide)]

/-- Strictly below the last marker, the middle one stays strictly below it. -/
theorem middle_lt_last_of_lt (h : Swept m m₂ m₃ m₄) (hlt : (m 3).q < (m 5).q) :
    (m₄ 3).q < (m₄ 5).q := by
  obtain ⟨e₃, e₄, f₃, -, f₅⟩ := h.heights
  obtain ⟨-, -, h₃₄, h₄₅⟩ := h.ordered.heights
  have hle : (m₃ 3).q ≤ (m₂ 4).q := h.third.adjusted.between.2
  rw [f₃, f₅]
  -- Either there is room to the fourth marker, or the fourth is itself below the last.
  rcases h₃₄.lt_or_eq with hlt' | heq
  · have : (m₃ 3).q < (m₂ 4).q := h.third.lt_right (by rwa [e₃, e₄] : (m₂ 3).q < (m₂ 4).q)
    linarith
  · linarith

/-- At the height of the last marker, the middle one stays there unless it moves to the left. -/
theorem middle_eq_last_of_eq (h : Swept m m₂ m₃ m₄) (heq : (m 3).q = (m 5).q)
    (hlag : -1 < lag m 3) : (m₄ 3).q = (m₄ 5).q := by
  obtain ⟨e₃, e₄, f₃, -, f₅⟩ := h.heights
  obtain ⟨-, -, h₃₄, h₄₅⟩ := h.ordered.heights
  have hle : (m₃ 3).q ≤ (m₂ 4).q := h.third.adjusted.between.2
  have hmove : move m₂ 3 ≠ -1 := fun hmove => by
    have := (of_move_eq_neg_one hmove).1
    rw [h.second.adjusted.lag_of_ne (by decide)] at this
    linarith
  have hge := h.third.le_of_not_left hmove
  rw [f₃, f₅]
  linarith

/-- Strictly above the first marker, the middle one stays strictly above it. -/
theorem first_lt_middle_of_lt (h : Swept m m₂ m₃ m₄) (hlt : (m 1).q < (m 3).q) :
    (m₄ 1).q < (m₄ 3).q := by
  obtain ⟨e₃, -, f₃, f₁, -⟩ := h.heights
  obtain ⟨h₁₂, h₂₃, -, -⟩ := h.ordered.heights
  have hge : (m₂ 2).q ≤ (m₃ 3).q := h.third.adjusted.between.1
  have hge' : (m 1).q ≤ (m₂ 2).q := h.second.adjusted.between.1
  rw [f₁, f₃]
  -- The second marker, adjusted first, stays above the first or below the middle one.
  rcases h₁₂.lt_or_eq with hlt' | heq
  · have : (m 1).q < (m₂ 2).q := h.second.left_lt hlt'
    linarith
  · have h₂ : (m₂ 2).q < (m 3).q := h.second.lt_right (heq ▸ hlt : (m 2).q < (m 3).q)
    have h₃ : (m₂ 2).q < (m₃ 3).q := h.third.left_lt (by rwa [← e₃] at h₂)
    linarith

/-- At the height of the first marker, the middle one stays there unless it moves to the right. -/
theorem first_eq_middle_of_eq (h : Swept m m₂ m₃ m₄) (heq : (m 1).q = (m 3).q)
    (hlag : lag m 3 < 1) : (m₄ 1).q = (m₄ 3).q := by
  obtain ⟨e₃, -, f₃, f₁, -⟩ := h.heights
  obtain ⟨h₁₂, h₂₃, -, -⟩ := h.ordered.heights
  have hge : (m₂ 2).q ≤ (m₃ 3).q := h.third.adjusted.between.1
  have hge' : (m 1).q ≤ (m₂ 2).q := h.second.adjusted.between.1
  have hmove : move m₂ 3 ≠ 1 := fun hmove => by
    have := (of_move_eq_one hmove).1
    rw [h.second.adjusted.lag_of_ne (by decide)] at this
    linarith
  have hle := h.third.ge_of_not_right hmove
  rw [f₁, f₃]
  linarith

/-- A marker that does not move to the left stands at the last height after the sweep exactly when
it did before. -/
theorem middle_eq_last_iff (h : Swept m m₂ m₃ m₄) (hlag : -1 < lag m 3) :
    (m₄ 3).q = (m₄ 5).q ↔ (m 3).q = (m 5).q := by
  refine ⟨fun heq => ?_, fun heq => middle_eq_last_of_eq h heq hlag⟩
  by_contra hne
  obtain ⟨-, -, h₃₄, h₄₅⟩ := h.ordered.heights
  exact (middle_lt_last_of_lt h (lt_of_le_of_ne (h₃₄.trans h₄₅) hne)).ne heq

/-- A marker that does not move to the right stands at the first height after the sweep exactly
when it did before. -/
theorem first_eq_middle_iff (h : Swept m m₂ m₃ m₄) (hlag : lag m 3 < 1) :
    (m₄ 1).q = (m₄ 3).q ↔ (m 1).q = (m 3).q := by
  refine ⟨fun heq => ?_, fun heq => first_eq_middle_of_eq h heq hlag⟩
  by_contra hne
  obtain ⟨h₁₂, h₂₃, -, -⟩ := h.ordered.heights
  exact (first_lt_middle_of_lt h (lt_of_le_of_ne (h₁₂.trans h₂₃) hne)).ne heq

end Middle

end QuantileEstimator

end LinuxTest.Latency
