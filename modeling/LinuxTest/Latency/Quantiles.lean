import LinuxTest.Latency.Reports

/-!
# A hundred percentiles of one stream

The class `Quantiles` of `rt_test/latency/QuantileEstimator.h` pushes every sample into a hundred
independent estimators, one for each whole percentile. Nothing ties two of them to each other: each
has its own markers, which move at different samples and by different predictions. This module
compares the reports of two percentiles of one stream.

Up to the sixth sample the reports are ordered as the percentiles are. The five first samples are
only stored, and at the sixth all estimators start from the same heights and positions: of two
percentiles the lower one never moves a marker further to the right, and where both move the middle
marker the same way they predict the same height. From the seventh sample on the reports can
cross, for streams of every length.

## Main definitions

* `Quantiles`, `Quantiles.new`, `Quantiles.push`, `Quantiles.quantile`: the class
* `Quantiles.pushAll xs`: the object after the samples `xs`

## Main results

* `Quantiles.exists_pushAll`: the hundred estimators run independently
* `Quantiles.ordered_iff`: reports never cross exactly up to the sixth sample
-/

namespace LinuxTest.Latency

/-- The array `qs[100]`. -/
structure Quantiles where
  qs : Fin 100 → QuantileEstimator

namespace Quantiles

open QuantileEstimator hiding new push quantile pushAll exists_pushAll

/-- The constructor: an estimator for each percentile `i / 100.0`. -/
def new : Quantiles where
  qs := fun i => QuantileEstimator.new ((i.val : ℚ) / 100)

/-- `Push`: the value is pushed into the estimators one after the other. -/
def push (s : Quantiles) (x : ℚ) : Option Quantiles :=
  (Foundations.run (fun qs i => ((qs i).next x).map (Function.update qs i)) s.qs
    (List.finRange 100)).map Quantiles.mk

/-- `quantile`: zero outside the percentiles `0` to `99`. -/
def quantile (s : Quantiles) (i : ℤ) : ℚ :=
  if i < 0 then 0
  else if i > 99 then 0
  else (s.qs (Fin.ofNat 100 i.toNat)).quantile

/-- The object after the samples `xs`. -/
def pushAll (xs : List ℚ) : Option Quantiles :=
  Foundations.run push new xs

/-! ## The estimators run independently -/

/-- Every cell holds the estimator of its percentile after the samples `h`. -/
def Cells (h : List ℚ) (s : Quantiles) : Prop :=
  ∀ i : Fin 100, QuantileEstimator.pushAll ((i.val : ℚ) / 100) h = some (s.qs i)

/-- One push is a push of every estimator. -/
theorem push_eq_some {s t : Quantiles} {x : ℚ} (h : ∀ i, (s.qs i).next x = some (t.qs i)) :
    s.push x = some t := by
  have hrun := Foundations.run_update_of_forall (f := fun q : QuantileEstimator => q.next x) h
    (List.nodup_finRange 100)
  rw [push]
  refine (congrArg (Option.map Quantiles.mk) hrun).trans ?_
  simp

/-- **The hundred estimators run independently** on the samples of the stream. -/
theorem exists_pushAll (xs : List ℚ) : ∃ s, pushAll xs = some s ∧ Cells xs s := by
  have hnew : Cells [] new := fun _ => rfl
  refine Foundations.exists_run_of_history hnew (fun h s hs x => ?_) xs
  have hnext : ∀ i, ∃ q, (s.qs i).next x = some q := fun i => by
    obtain ⟨q, hq, -⟩ := exists_pushAll_after_spans ((i.val : ℚ) / 100) (h ++ [x])
    exact ⟨q, by rw [← pushAll_snoc (hs i), hq]⟩
  choose q hq using hnext
  exact ⟨⟨q⟩, push_eq_some hq, fun i => (pushAll_snoc (hs i) x).trans (hq i)⟩

/-- A report is the quantile of the estimator of its percentile. -/
theorem quantile_eq {s : Quantiles} {i : ℤ} (h0 : 0 ≤ i) (h99 : i ≤ 99) :
    ∃ k : Fin 100, (k.val : ℤ) = i ∧ s.quantile i = (s.qs k).quantile := by
  refine ⟨Fin.ofNat 100 i.toNat, ?_, ?_⟩
  · rw [Fin.val_ofNat, Nat.mod_eq_of_lt (by omega), Int.toNat_of_nonneg h0]
  · rw [quantile, if_neg (by omega), if_neg (by omega)]

theorem quantile_val (s : Quantiles) (i : Fin 100) : s.quantile i.val = (s.qs i).quantile := by
  have hi := i.isLt
  rw [quantile, if_neg (by omega), if_neg (by omega), Int.toNat_natCast, Fin.ofNat_val_eq_self]

/-! ## Two percentiles at the same heights and positions -/

/-- `m` and `m'` have the same heights and positions, and the desired positions of `m` are not
ahead of those of `m'`. -/
structure Behind (m m' : Markers) : Prop where
  q : ∀ i, (m i).q = (m' i).q
  n : ∀ i, (m i).n = (m' i).n
  np : ∀ i, (m i).np ≤ (m' i).np

section Behind

variable {m m' : Markers}

/-- A marker of the lower percentile does not move further to the right, from the same position
between neighbours that are at the same place or, on the left, further to the left. -/
theorem move_le {i : Fin 6} (hself : (m i).n = (m' i).n) (hnp : (m i).np ≤ (m' i).np)
    (hright : (m (i + 1)).n = (m' (i + 1)).n) (hleft : (m (i - 1)).n ≤ (m' (i - 1)).n) :
    move m i ≤ move m' i := by
  rcases move_cases m i with h | h | h
  · -- A marker at rest: had the higher percentile moved to the left, so would have the lower.
    rcases move_cases m' i with h' | h' | h'
    · rw [h, h']
    · rw [h, h']
      decide
    · obtain ⟨hlag, hgap⟩ := of_move_eq_neg_one h'
      unfold lag at hlag
      have h₁ : ¬ ((m i).np - (m i).n ≥ 1 ∧ (m (i + 1)).n - (m i).n > 1) := by
        intro h₁
        linarith [h₁.1]
      have h₂ : (m i).np - (m i).n ≤ -1 ∧ (m (i - 1)).n - (m i).n < -1 := by
        constructor <;> linarith
      rw [move, if_neg h₁, if_pos h₂] at h
      exact absurd h (by decide)
  · obtain ⟨hlag, hgap⟩ := of_move_eq_one h
    unfold lag at hlag
    have h₁ : (m' i).np - (m' i).n ≥ 1 ∧ (m' (i + 1)).n - (m' i).n > 1 := by
      constructor <;> linarith
    rw [h, move, if_pos h₁]
  · rw [h]
    rcases move_cases m' i with h' | h' | h' <;> rw [h'] <;> decide

/-- Predictions read heights and positions only. -/
theorem Behind.predict_eq (h : Behind m m') (i : Fin 6) (d : ℤ) : predict m i d = predict m' i d := by
  unfold predict parabolicEstimate linearEstimate
  simp only [h.q, h.n]

/-- Two adjustments by the same move lead to the same heights and positions. -/
theorem Behind.steered (h : Behind m m') {i : Fin 6} {m₂ m₂' : Markers} (ha : Steered m i m₂)
    (ha' : Steered m' i m₂') (hmove : move m i = move m' i) : Behind m₂ m₂' := by
  have hq : (m₂ i).q = (m₂' i).q := by
    by_cases h₀ : move m i = 0
    · rw [ha.stays h₀, ha'.stays (hmove ▸ h₀), h.q]
    · have hp := ha.predicted h₀
      rw [h.predict_eq, hmove, ha'.predicted (hmove ▸ h₀)] at hp
      exact (Option.some_inj.mp hp).symm
  refine ⟨fun j => ?_, fun j => ?_, fun j => ?_⟩
  · by_cases hj : j = i
    · rw [hj, hq]
    · rw [ha.adjusted.of_ne hj, ha'.adjusted.of_ne hj, h.q]
  · by_cases hj : j = i
    · rw [hj, ha.adjusted.n_self, ha'.adjusted.n_self, h.n, hmove]
    · rw [ha.adjusted.of_ne hj, ha'.adjusted.of_ne hj, h.n]
  · rw [ha.adjusted.np_eq, ha'.adjusted.np_eq]
    exact h.np j

/-- A value is located by the heights alone. -/
theorem locate_congr (h : ∀ i, (m i).q = (m' i).q) (x : ℚ) :
    (locate m x).2 = (locate m' x).2 ∧
      ∀ i, ((locate m x).1 i).q = ((locate m' x).1 i).q := by
  have hupdate : ∀ j i : Fin 6, (Function.update m j { m j with q := x } i).q =
      (Function.update m' j { m' j with q := x } i).q := by
    intro j i
    by_cases hij : i = j
    · simp [hij]
    · simp [hij, h]
  unfold locate
  simp only [h]
  split_ifs <;> first | exact ⟨rfl, hupdate _⟩ | exact ⟨rfl, h⟩

theorem Behind.shifted (h : Behind m m') (hdn : ∀ i, (m i).dn ≤ (m' i).dn) (x : ℚ) :
    Behind (shifted m x) (shifted m' x) := by
  obtain ⟨hcell, hq⟩ := locate_congr h.q x
  refine ⟨fun i => ?_, fun i => ?_, fun i => ?_⟩
  · rw [QuantileEstimator.shifted, QuantileEstimator.shifted, advance_q, advance_q, hq]
  · by_cases hi : i = 0
    · subst hi
      simpa [QuantileEstimator.shifted, advance, locate_frame] using h.n 0
    · rw [QuantileEstimator.shifted, QuantileEstimator.shifted, advance_n _ _ hi,
        advance_n _ _ hi, hcell, (locate_frame m x i).1, (locate_frame m' x i).1, h.n]
  · by_cases hi : i = 0
    · subst hi
      simpa [QuantileEstimator.shifted, advance, locate_frame] using h.np 0
    · rw [QuantileEstimator.shifted, QuantileEstimator.shifted, advance_np _ _ hi,
        advance_np _ _ hi, (locate_frame m x i).2.1, (locate_frame m' x i).2.1,
        (locate_frame m x i).2.2, (locate_frame m' x i).2.2]
      exact add_le_add (h.np i) (hdn i)

/-- After the second markers are adjusted, the middle marker of the lower percentile still does not
move further to the right. -/
theorem Behind.third_move_le (h : Behind m m') {m₂ m₂' : Markers} (ha : Steered m 2 m₂)
    (ha' : Steered m' 2 m₂') : move m₂ 3 ≤ move m₂' 3 := by
  have hmove : move m 2 ≤ move m' 2 := move_le (h.n 2) (h.np 2) (h.n 3) (h.n 1).le
  have hleft : (m₂ 2).n ≤ (m₂' 2).n := by
    rw [ha.adjusted.n_self, ha'.adjusted.n_self, h.n]
    exact add_le_add_right (by exact_mod_cast hmove) _
  refine move_le ?_ ?_ ?_ hleft
  · rw [ha.adjusted.of_ne (by decide), ha'.adjusted.of_ne (by decide), h.n]
  · rw [ha.adjusted.np_eq, ha'.adjusted.np_eq]
    exact h.np 3
  · rw [ha.adjusted.of_ne (by decide), ha'.adjusted.of_ne (by decide), h.n]

end Behind

/-- **The middle heights of two percentiles** after one value, from the same heights and positions:
they are ordered as the percentiles are, if the second markers move alike whenever both middle
markers move the same way. -/
theorem middle_le_of_behind {m m₂ m₃ m₄ m' m₂' m₃' m₄' : Markers} (h : Behind m m')
    (hs : Swept m m₂ m₃ m₄) (hs' : Swept m' m₂' m₃' m₄')
    (halike : move m₂ 3 = move m₂' 3 → move m₂ 3 ≠ 0 → move m 2 = move m' 2) :
    (m₄ 3).q ≤ (m₄' 3).q := by
  obtain ⟨e₃, -, f₃, -, -⟩ := hs.heights
  obtain ⟨e₃', -, f₃', -, -⟩ := hs'.heights
  rw [f₃, f₃']
  by_cases heq : move m₂ 3 = move m₂' 3 ∧ move m₂ 3 ≠ 0
  · have hb := h.steered hs.second hs'.second (halike heq.1 heq.2)
    exact ((hb.steered hs.third hs'.third heq.1).q 3).le
  · -- Else one of the middle markers moves outwards, or neither moves.
    have hmove := h.third_move_le hs.second hs'.second
    have hcases := move_cases m₂ 3
    have hcases' := move_cases m₂' 3
    have hle : (m₃ 3).q ≤ (m₂ 3).q := hs.third.ge_of_not_right fun h₁ => heq (by omega)
    have hge : (m₂' 3).q ≤ (m₃' 3).q := hs'.third.le_of_not_left fun h₁ => heq (by omega)
    linarith [h.q 3]

/-! ## Up to the sixth sample -/

/-- While the first four markers span at most four positions, at most one of their gaps is wider
than one, and it decides how the second marker moved when the middle one moves next. -/
theorem second_move_eq {m m₂ : Markers} (hm : Ordered m) (hspan : (m 4).n ≤ (m 1).n + 4)
    (ha : Adjusted m 2 m₂) (hne : move m₂ 3 ≠ 0) :
    move m 2 = if move m₂ 3 = -1 ∧ (m 3).n < (m 2).n + 2 then -1 else 0 := by
  obtain ⟨h₁₂, h₂₃, h₃₄, -⟩ := hm.positions
  obtain ⟨hright, hleft⟩ := two_le_of_move hm inner_two
  have hright : move m 2 = 1 → (m 2).n + 2 ≤ (m 3).n := hright
  have hleft : move m 2 = -1 → (m 1).n + 2 ≤ (m 2).n := hleft
  have hself := ha.n_self
  have f₃ : (m₂ 3).n = (m 3).n := by rw [ha.of_ne (by decide)]
  have f₄ : (m₂ 4).n = (m 4).n := by rw [ha.of_ne (by decide)]
  have hordered := ha.ordered hm inner_two
  obtain ⟨hright₃, hleft₃⟩ := two_le_of_move hordered inner_three
  rcases (move_cases m₂ 3).resolve_left hne with hmove | hmove
  · -- The wide gap is to the right of the middle marker, so the second one had no room.
    have hgap : (m₂ 3).n + 2 ≤ (m₂ 4).n := hright₃ hmove
    rw [hmove, if_neg (by simp)]
    rcases move_cases m 2 with h | h | h
    · exact h
    · exact absurd (hright h) (by linarith)
    · exact absurd (hleft h) (by linarith)
  · have hgap : (m₂ 2).n + 2 ≤ (m₂ 3).n := hleft₃ hmove
    rcases move_cases m 2 with h | h | h
    · rw [h, Int.cast_zero] at hself
      rw [h, if_neg (fun hc => by linarith [hc.2])]
    · -- The second marker would have needed a gap of three positions.
      rw [h, Int.cast_one] at hself
      exact absurd (hright h) (by linarith)
    · rw [h, if_pos ⟨hmove, by linarith [hleft h]⟩]

/-- The two percentiles at the sixth sample. -/
theorem middle_le_of_span {m m₂ m₃ m₄ m' m₂' m₃' m₄' : Markers} (h : Behind m m')
    (hs : Swept m m₂ m₃ m₄) (hs' : Swept m' m₂' m₃' m₄') (hspan : (m 4).n ≤ (m 1).n + 4) :
    (m₄ 3).q ≤ (m₄' 3).q := by
  refine middle_le_of_behind h hs hs' fun heq hne => ?_
  have hspan' : (m' 4).n ≤ (m' 1).n + 4 := by rwa [← h.n, ← h.n]
  rw [second_move_eq hs.ordered hspan hs.second.adjusted hne,
    second_move_eq hs'.ordered hspan' hs'.second.adjusted (heq ▸ hne), heq, h.n, h.n]

/-- The initial markers of two percentiles differ in the desired positions only. -/
theorem behind_initMarkers {p p' : ℚ} (hp : p ≤ p') (m : Markers) (l : List ℚ) :
    Behind (initMarkers m l p) (initMarkers m l p') ∧
      ∀ i, (initMarkers m l p i).dn ≤ (initMarkers m l p' i).dn := by
  refine ⟨⟨fun i => ?_, fun i => ?_, fun i => ?_⟩, fun i => ?_⟩
  · match i with
    | 0 | 1 | 2 | 3 | 4 | 5 => rfl
  · match i with
    | 0 | 1 | 2 | 3 | 4 | 5 => rfl
  · match i with
    | 0 | 1 | 5 => exact le_rfl
    | 2 | 3 | 4 =>
      simp only [initMarkers]
      linarith
  · match i with
    | 0 | 1 | 5 => exact le_rfl
    | 2 | 3 | 4 =>
      simp only [initMarkers]
      linarith

/-- The markers after six samples are those of one value on the initial markers. -/
theorem observe_of_six {p : ℚ} {h : List ℚ} (hlen : h.length = 5) {x : ℚ} {s : QuantileEstimator}
    (hs : QuantileEstimator.pushAll p (h ++ [x]) = some s) :
    ∃ k d, observe (initMarkers (fun _ => ⟨0, 0, 0, 0⟩) (h.insertionSort (· ≤ ·)) p) 0 x =
      some (s.marker, k, d) := by
  rw [pushAll_snoc (pushAll_of_length_le p hlen.le), hlen, next_of_le le_rfl] at hs
  obtain ⟨⟨m, k, d⟩, ho, hs⟩ := Option.map_eq_some_iff.mp hs
  refine ⟨k, d, ?_⟩
  rw [← hs]
  exact ho

/-- **Six samples**: the quantiles are ordered as the percentiles are. -/
theorem quantile_le_of_six {p p' : ℚ} (hp : p ≤ p') {xs : List ℚ} (hlen : xs.length = 6)
    {s s' : QuantileEstimator} (hs : QuantileEstimator.pushAll p xs = some s)
    (hs' : QuantileEstimator.pushAll p' xs = some s') : s.quantile ≤ s'.quantile := by
  obtain rfl | ⟨h, x, rfl⟩ := xs.eq_nil_or_concat'
  · simp at hlen
  have hlen : h.length = 5 := by simpa using hlen
  obtain ⟨k, d, ho⟩ := observe_of_six hlen hs
  obtain ⟨k', d', ho'⟩ := observe_of_six hlen hs'
  obtain ⟨hb, hdn⟩ := behind_initMarkers hp (fun _ => ⟨0, 0, 0, 0⟩) (h.insertionSort (· ≤ ·))
  have hm := spans_initMarkers hlen (fun _ => ⟨0, 0, 0, 0⟩) p
  have hm' := spans_initMarkers hlen (fun _ => ⟨0, 0, 0, 0⟩) p'
  obtain ⟨m₂, m₃, m₄, d₄, hobs, hswept⟩ := observe_swept hm.ordered 0 x
  obtain ⟨m₂', m₃', m₄', d₄', hobs', hswept'⟩ := observe_swept hm'.ordered 0 x
  obtain rfl := observe_unique hobs ho
  obtain rfl := observe_unique hobs' ho'
  refine middle_le_of_span (hb.shifted hdn x) hswept hswept' ?_
  rw [(shifted_outer _ x).1, QuantileEstimator.shifted, advance_n _ _ (by decide),
    (locate_frame _ x 4).1]
  simp only [initMarkers]
  split_ifs <;> norm_num

/-! ## From the seventh sample on -/

/-- The middle marker stands at the maximum `M`, and is not about to leave it to the left. -/
structure Pinned (M : ℚ) (m : Markers) : Prop where
  ordered : Ordered m
  last : (m 5).q = M
  middle : (m 3).q = M
  lag : -1 < lag m 3
  increment : 0 ≤ (m 3).dn

/-- The middle marker stands below the maximum `M`. -/
structure Below (M : ℚ) (m : Markers) : Prop where
  ordered : Ordered m
  last : (m 5).q = M
  middle : (m 3).q < M

section Maximum

variable {M : ℚ} {m m₂ m₃ m₄ : Markers}

/-- A repeated maximum falls into the last cell, and leaves the heights alone. -/
theorem locate_maximum (hm : Ordered m) (hlast : (m 5).q = M) : locate m M = (m, 4) := by
  obtain ⟨h₁, h₂, h₃, h₄⟩ := hm.heights
  rw [locate, if_neg (by linarith), if_neg (by linarith), if_neg (by linarith),
    if_neg (by linarith), if_pos hlast.ge]

theorem shifted_maximum (hm : Ordered m) (hlast : (m 5).q = M) (i : Fin 6) :
    (shifted m M i).q = (m i).q := by
  rw [shifted, advance_q, locate_maximum hm hlast]

theorem last_of_maximum (hm : Ordered m) (hlast : (m 5).q = M)
    (h : Swept (shifted m M) m₂ m₃ m₄) : (m₄ 5).q = M := by
  obtain ⟨-, -, -, -, f₅⟩ := h.heights
  rw [f₅, shifted_maximum hm hlast, hlast]

/-- A middle marker below the maximum stays below it. -/
theorem Below.swept (hm : Below M m) (h : Swept (shifted m M) m₂ m₃ m₄) : Below M m₄ := by
  have hq := shifted_maximum hm.ordered hm.last
  have hlast := last_of_maximum hm.ordered hm.last h
  have hlt := middle_lt_last_of_lt h (by rw [hq, hq, hm.last]; exact hm.middle)
  exact ⟨h.ordered_after, hlast, hlast ▸ hlt⟩

/-- A middle marker pinned to the maximum stays there. -/
theorem Pinned.swept (hm : Pinned M m) (h : Swept (shifted m M) m₂ m₃ m₄) : Pinned M m₄ := by
  have hloc := locate_maximum hm.ordered hm.last
  have hq := shifted_maximum hm.ordered hm.last
  have hlast := last_of_maximum hm.ordered hm.last h
  have hlag : -1 < QuantileEstimator.lag (shifted m M) 3 := by
    rw [lag_shifted m M (by decide), hloc]
    have hcell : ¬ (4 : ℤ) + 1 ≤ ((3 : Fin 6).val : ℤ) := by decide
    rw [if_neg hcell]
    linarith [hm.lag, hm.increment]
  have heq := middle_eq_last_of_eq h (by rw [hq, hq, hm.last, hm.middle]) hlag
  have hdn : (m₄ 3).dn = (m 3).dn := by
    rw [h.fourth.adjusted.dn_eq, h.third.adjusted.dn_eq, h.second.adjusted.dn_eq,
      QuantileEstimator.shifted, advance_dn, hloc]
  refine ⟨h.ordered_after, hlast, heq.trans hlast, ?_, hdn ▸ hm.increment⟩
  -- The marker moves to the right at most, and then it lagged by at least one.
  rw [h.fourth.adjusted.lag_of_ne (by decide), h.third.adjusted.lag_self]
  rcases move_cases m₂ 3 with h₀ | h₁ | h₁
  · rw [h₀, h.second.adjusted.lag_of_ne (by decide)]
    simpa using hlag
  · have := (of_move_eq_one h₁).1
    rw [h₁]
    push_cast
    linarith
  · have := (of_move_eq_neg_one h₁).1
    rw [h.second.adjusted.lag_of_ne (by decide)] at this
    linarith

end Maximum

/-- Markers that a repeated value keeps in `P` are in `P` after any number of its repetitions. -/
theorem run_replicate_preserves {P : Markers → Prop} {M : ℚ}
    (hP : ∀ m m₂ m₃ m₄, P m → Swept (shifted m M) m₂ m₃ m₄ → P m₄) (hord : ∀ m, P m → Ordered m)
    {s s' : QuantileEstimator} (hs : 6 ≤ s.mSamples) (hm : P s.marker) {n : ℕ}
    (hrun : Foundations.run next s (List.replicate n M) = some s') : P s'.marker := by
  have hstep : ∀ x ∈ List.replicate n M, ∀ s s' : QuantileEstimator,
      (6 ≤ s.mSamples ∧ P s.marker) → s.next x = some s' → 6 ≤ s'.mSamples ∧ P s'.marker := by
    rintro x hx s s' ⟨h6, hm⟩ hnext
    obtain rfl : x = M := List.eq_of_mem_replicate hx
    have hready : s.ready = s.marker := if_neg (by omega)
    rw [next_of_le (by omega), hready] at hnext
    obtain ⟨m₂, m₃, m₄, d', ho, hswept⟩ := observe_swept (hord _ hm) s.d x
    rw [ho] at hnext
    obtain rfl := Option.some_inj.mp hnext
    exact ⟨by simp only; omega, hP _ _ _ _ hm hswept⟩
  exact (Foundations.run_preserves hstep ⟨hs, hm⟩ hrun).2

/-- The samples after which the maximum keeps the percentiles `34` and `43` crossed. -/
def crossed : List ℚ := [0, 0, 1, 1, 1, 1, 1, 1, 0, 0]

/-- Repetitions of the maximum after `crossed`, from markers in `P`. -/
theorem marker_of_crossed {P : Markers → Prop} {p : ℚ}
    (hP : ∀ m m₂ m₃ m₄, P m → Swept (shifted m 1) m₂ m₃ m₄ → P m₄) (hord : ∀ m, P m → Ordered m)
    (hbase : ∀ s, QuantileEstimator.pushAll p crossed = some s → Ordered s.marker → P s.marker)
    {n : ℕ} {s : QuantileEstimator}
    (hs : QuantileEstimator.pushAll p (crossed ++ List.replicate n 1) = some s) : P s.marker := by
  obtain ⟨s₀, hs₀, hsamples, hspans⟩ := exists_pushAll_spans p
    (by decide : 6 ≤ crossed.length)
  rw [QuantileEstimator.pushAll, Foundations.run_append, ← QuantileEstimator.pushAll, hs₀] at hs
  have h6 : 6 ≤ s₀.mSamples := by
    rw [hsamples]
    decide
  exact run_replicate_preserves hP hord h6 (hbase s₀ hs₀ hspans.ordered) hs

/-- **Crossed forever**: after `crossed` and any number of repetitions of its maximum, the report
of the percentile `43` is below the one of the percentile `34`. -/
theorem quantile_lt_of_crossed (n : ℕ) {s s' : QuantileEstimator}
    (hs : QuantileEstimator.pushAll (34 / 100) (crossed ++ List.replicate n 1) = some s)
    (hs' : QuantileEstimator.pushAll (43 / 100) (crossed ++ List.replicate n 1) = some s') :
    s'.quantile < s.quantile := by
  have hpinned : Pinned 1 s.marker := by
    refine marker_of_crossed (fun _ _ _ _ hm h => hm.swept h) (fun _ hm => hm.ordered)
      (fun s₀ hs₀ hord => ?_) hs
    have heval : (QuantileEstimator.pushAll (34 / 100) crossed).map (fun s => ((s.marker 5).q,
        (s.marker 3).q, lag s.marker 3, (s.marker 3).dn)) = some (1, 1, -47 / 50, 17 / 50) := by
      decide +kernel
    rw [hs₀] at heval
    simp only [Option.map_some, Option.some_inj, Prod.mk.injEq] at heval
    obtain ⟨h₅, h₃, hlag, hdn⟩ := heval
    exact ⟨hord, h₅, h₃, by rw [hlag]; norm_num, by rw [hdn]; norm_num⟩
  have hbelow : Below 1 s'.marker := by
    refine marker_of_crossed (fun _ _ _ _ hm h => hm.swept h) (fun _ hm => hm.ordered)
      (fun s₀ hs₀ hord => ?_) hs'
    have heval : (QuantileEstimator.pushAll (43 / 100) crossed).map (fun s => ((s.marker 5).q,
        (s.marker 3).q)) = some (1, 7 / 8) := by
      decide +kernel
    rw [hs₀] at heval
    simp only [Option.map_some, Option.some_inj, Prod.mk.injEq] at heval
    obtain ⟨h₅, h₃⟩ := heval
    exact ⟨hord, h₅, by rw [h₃]; norm_num⟩
  change (s'.marker 3).q < (s.marker 3).q
  rw [hpinned.middle]
  exact hbelow.middle

/-- Two percentiles whose reports on `xs` are crossed. -/
def Crosses (xs : List ℚ) (i j : Fin 100) : Prop :=
  i ≤ j ∧ ∀ s s', QuantileEstimator.pushAll ((i.val : ℚ) / 100) xs = some s →
    QuantileEstimator.pushAll ((j.val : ℚ) / 100) xs = some s' → s'.quantile < s.quantile

theorem crosses_of_eval {xs : List ℚ} {i j : Fin 100} (hij : i ≤ j) {a b : ℚ}
    (hi : (QuantileEstimator.pushAll ((i.val : ℚ) / 100) xs).map QuantileEstimator.quantile = some a)
    (hj : (QuantileEstimator.pushAll ((j.val : ℚ) / 100) xs).map QuantileEstimator.quantile = some b)
    (hlt : b < a) : Crosses xs i j := by
  refine ⟨hij, fun s s' hs hs' => ?_⟩
  rw [hs, Option.map_some, Option.some_inj] at hi
  rw [hs', Option.map_some, Option.some_inj] at hj
  rwa [hi, hj]

theorem crosses_seven : Crosses [0, 0, 0, 1, 1, 1, 0] 50 60 :=
  crosses_of_eval (a := 1 / 3) (b := 1 / 6) (by decide) (by decide +kernel) (by decide +kernel)
    (by norm_num)

/-- From seven samples on, some stream of every length has crossed reports. -/
theorem exists_crosses {n : ℕ} (hn : 7 ≤ n) : ∃ xs : List ℚ, xs.length = n ∧
    ∃ i j, Crosses xs i j := by
  obtain rfl | rfl | rfl | h10 : n = 7 ∨ n = 8 ∨ n = 9 ∨ 10 ≤ n := by omega
  · exact ⟨_, rfl, 50, 60, crosses_seven⟩
  · exact ⟨[0, 0, 0, 0, 0, 0, 1, 0], rfl, 50, 60, crosses_of_eval (a := 1 / 36) (b := 0)
      (by decide) (by decide +kernel) (by decide +kernel) (by norm_num)⟩
  · exact ⟨[0, 0, 0, 0, 0, 0, 0, 1, 0], rfl, 60, 70, crosses_of_eval (a := 1 / 36) (b := 0)
      (by decide) (by decide +kernel) (by decide +kernel) (by norm_num)⟩
  · have hlen : (crossed ++ List.replicate (n - 10) 1).length = n := by
      rw [List.length_append, List.length_replicate, show crossed.length = 10 from rfl]
      omega
    exact ⟨_, hlen, 34, 43, by decide, fun s s' hs hs' => quantile_lt_of_crossed (n - 10) hs hs'⟩

/-- Up to six samples the quantiles are ordered as the percentiles are. -/
theorem quantile_le_of_length_le {p p' : ℚ} (hp : p ≤ p') {xs : List ℚ} (hlen : xs.length ≤ 6)
    {s s' : QuantileEstimator} (hs : QuantileEstimator.pushAll p xs = some s)
    (hs' : QuantileEstimator.pushAll p' xs = some s') : s.quantile ≤ s'.quantile := by
  by_cases h6 : xs.length = 6
  · exact quantile_le_of_six hp h6 hs hs'
  · rw [quantile_eq_zero (by omega) hs, quantile_eq_zero (by omega) hs']

/-- **Reports never cross exactly up to the sixth sample**: after every stream of `n` samples the
hundred reports are ordered, if and only if `n` is at most six. -/
theorem ordered_iff (n : ℕ) :
    (∀ xs : List ℚ, xs.length = n → ∃ s, pushAll xs = some s ∧
      ∀ i j : ℤ, 0 ≤ i → i ≤ j → j ≤ 99 → s.quantile i ≤ s.quantile j) ↔ n ≤ 6 := by
  constructor
  · intro h
    by_contra hn
    obtain ⟨xs, hlen, i, j, hij, hcross⟩ := exists_crosses (n := n) (by omega)
    obtain ⟨s, hs, hall⟩ := h xs hlen
    obtain ⟨t, ht, hcells⟩ := exists_pushAll xs
    obtain rfl : s = t := Option.some_inj.mp (hs.symm.trans ht)
    have hle := hall i.val j.val (by omega) (by exact_mod_cast hij) (by omega)
    rw [quantile_val, quantile_val] at hle
    exact absurd (hcross _ _ (hcells i) (hcells j)) (not_lt.mpr hle)
  · intro hn xs hlen
    obtain ⟨s, hs, hcells⟩ := exists_pushAll xs
    refine ⟨s, hs, fun i j hi hij hj => ?_⟩
    obtain ⟨k, hk, hki⟩ := quantile_eq (s := s) hi (hij.trans hj)
    obtain ⟨l, hl, hlj⟩ := quantile_eq (s := s) (hi.trans hij) hj
    have hkl : ((k.val : ℚ)) / 100 ≤ (l.val : ℚ) / 100 := by
      have : k.val ≤ l.val := by omega
      have : (k.val : ℚ) ≤ l.val := by exact_mod_cast this
      linarith
    rw [hki, hlj]
    exact quantile_le_of_length_le hkl (by omega) (hcells k) (hcells l)

/-- Seven samples whose median is reported above the sixtieth percentile. -/
theorem seven_samples_cross :
    ∃ s, pushAll [0, 0, 0, 1, 1, 1, 0] = some s ∧ ¬ s.quantile 50 ≤ s.quantile 60 := by
  obtain ⟨s, hs, hcells⟩ := exists_pushAll [0, 0, 0, 1, 1, 1, 0]
  exact ⟨s, hs, not_le.mpr (crosses_seven.2 _ _ (hcells 50) (hcells 60))⟩

end Quantiles

end LinuxTest.Latency
