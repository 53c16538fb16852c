import LinuxTest.Latency.MarkerInvariant

/-!
# Affine equivariance of the quantile estimator

Replacing every sample `x` by `a * x + b` with `a > 0` replaces every height in the same way and
changes no position. Every comparison of a push is between heights or between positions, and both
predictions are affine in the heights, with coefficients that depend on the positions alone; so
each phase of a push commutes with the replacement, and so does every run.

## Main definitions

* `rescale a b m`: the markers with the heights replaced
* `rescaleState a b s`: the object with the stored samples and the heights replaced

## Main results

* `predict_rescale`, `adjust_rescale`, `locate_rescale`, `observe_rescale`: each phase commutes
  with the replacement
* `pushAll_map`: so does every run
* `pushAll_affine`: the heights and the positions after two such runs
-/

namespace LinuxTest.Latency

namespace QuantileEstimator

/-- The markers `1` to `5` with every height `q` replaced by `a * q + b`. -/
def rescale (a b : ℚ) (m : Markers) : Markers := fun i =>
  if i = 0 then m 0 else { m i with q := a * (m i).q + b }

section Rescale

variable {a b : ℚ} {m : Markers} {i : Fin 6}

theorem rescale_q (hi : i ≠ 0) : (rescale a b m i).q = a * (m i).q + b := by
  simp [rescale, hi]

@[simp] theorem rescale_n : (rescale a b m i).n = (m i).n := by
  unfold rescale
  split_ifs with h
  · rw [h]
  · rfl

@[simp] theorem rescale_np : (rescale a b m i).np = (m i).np := by
  unfold rescale
  split_ifs with h
  · rw [h]
  · rfl

@[simp] theorem rescale_dn : (rescale a b m i).dn = (m i).dn := by
  unfold rescale
  split_ifs with h
  · rw [h]
  · rfl

/-- Replacing a marker commutes with replacing the heights. -/
theorem rescale_update (hi : i ≠ 0) (y : Marker) :
    rescale a b (Function.update m i y) =
      Function.update (rescale a b m) i { y with q := a * y.q + b } := by
  funext j
  by_cases hj : j = i
  · subst hj
    simp [rescale, hi]
  · by_cases h0 : j = 0
    · subst h0
      simp [rescale, hj]
    · simp [rescale, hj, h0]

end Rescale

/-- The replacement keeps the order of heights. -/
theorem affine_lt_iff {a : ℚ} (ha : 0 < a) (b x y : ℚ) : a * x + b < a * y + b ↔ x < y := by
  rw [add_lt_add_iff_right, mul_lt_mul_iff_right₀ ha]

theorem affine_le_iff {a : ℚ} (ha : 0 < a) (b x y : ℚ) : a * x + b ≤ a * y + b ↔ x ≤ y := by
  rw [add_le_add_iff_right, mul_le_mul_iff_right₀ ha]

/-! ## The predictions -/

theorem divide_mul (a x y : ℚ) : divide (a * x) y = (divide x y).map (a * ·) := by
  unfold divide
  split_ifs
  · rfl
  · rw [Option.map_some, mul_div_assoc]

section Predictions

variable {a : ℚ} (b : ℚ) (m : Markers) {i : Fin 6}

/-- The parabolic prediction is affine in the heights. -/
theorem parabolicEstimate_rescale (hi : Inner i) (d : ℤ) :
    parabolicEstimate (rescale a b m) i d = (parabolicEstimate m i d).map (a * · + b) := by
  -- The offset cancels in a difference of heights, and the factor leaves the quotients.
  have hright : ∀ c : ℚ, c * (a * (m (i + 1)).q + b - (a * (m i).q + b)) =
      a * (c * ((m (i + 1)).q - (m i).q)) := fun c => by ring
  have hleft : ∀ c : ℚ, c * (a * (m i).q + b - (a * (m (i - 1)).q + b)) =
      a * (c * ((m i).q - (m (i - 1)).q)) := fun c => by ring
  simp only [parabolicEstimate, rescale_n, rescale_q hi.1, rescale_q (inner_succ_ne_zero hi),
    rescale_q (inner_pred hi).1, hright, hleft, divide_mul a]
  cases divide (d : ℚ) ((m (i + 1)).n - (m (i - 1)).n) with
  | none => rfl
  | some lead =>
    cases divide (((m i).n - (m (i - 1)).n + d) * ((m (i + 1)).q - (m i).q))
        ((m (i + 1)).n - (m i).n) with
    | none => rfl
    | some right =>
      cases divide (((m (i + 1)).n - (m i).n - d) * ((m i).q - (m (i - 1)).q))
          ((m i).n - (m (i - 1)).n) with
      | none => rfl
      | some left =>
        change some (a * (m i).q + b + lead * (a * right + a * left)) =
          some (a * ((m i).q + lead * (right + left)) + b)
        congr 1
        ring

/-- The linear prediction is affine in the heights. -/
theorem linearEstimate_rescale (hi : Inner i) {d : ℤ} (hd : d = 1 ∨ d = -1) :
    linearEstimate (rescale a b m) i d = (linearEstimate m i d).map (a * · + b) := by
  have hcell : cell i d ≠ 0 := by
    rcases hd with rfl | rfl
    · rw [cell_one hi]
      exact inner_succ_ne_zero hi
    · rw [cell_neg_one hi]
      exact (inner_pred hi).1
  have hslope : (d : ℚ) * (a * (m (cell i d)).q + b - (a * (m i).q + b)) =
      a * (d * ((m (cell i d)).q - (m i).q)) := by ring
  simp only [linearEstimate, rescale_n, rescale_q hi.1, rescale_q hcell, hslope, divide_mul a]
  cases divide (d * ((m (cell i d)).q - (m i).q)) ((m (cell i d)).n - (m i).n) with
  | none => rfl
  | some slope =>
    change some (a * (m i).q + b + a * slope) = some (a * ((m i).q + slope) + b)
    congr 1
    ring

/-- The choice between the predictions compares heights only. -/
theorem predict_rescale (ha : 0 < a) (hi : Inner i) {d : ℤ} (hd : d = 1 ∨ d = -1) :
    predict (rescale a b m) i d = (predict m i d).map (a * · + b) := by
  unfold predict
  rw [parabolicEstimate_rescale b m hi]
  cases parabolicEstimate m i d with
  | none => rfl
  | some qip =>
    simp only [Option.map_some, Option.bind_eq_bind, Option.bind_some,
      rescale_q (inner_succ_ne_zero hi), rescale_q (inner_pred hi).1, affine_lt_iff ha]
    split_ifs
    · rfl
    · exact linearEstimate_rescale b m hi hd

end Predictions

/-! ## The phases of a push -/

section Phases

variable {a : ℚ} (b : ℚ) (m : Markers)

theorem moveBy_rescale (ha : 0 < a) {i : Fin 6} (hi : Inner i) {d : ℤ} (hd : d = 1 ∨ d = -1) :
    moveBy (rescale a b m) i d = (moveBy m i d).map (rescale a b) := by
  unfold moveBy
  rw [predict_rescale b m ha hi hd]
  cases predict m i d with
  | none => rfl
  | some q => simp [rescale_update hi.1]

/-- One adjustment commutes with the replacement: whether and where a marker moves depends on the
positions only. -/
theorem adjust_rescale (ha : 0 < a) {i : Fin 6} (hi : Inner i) (d : ℤ) :
    adjust (rescale a b m) d i = (adjust m d i).map fun r => (rescale a b r.1, r.2) := by
  simp only [adjust, rescale_n, rescale_np]
  -- Both sides take the same branch, as the tests read positions only.
  split_ifs with hmove hsign
  · rw [moveBy_rescale b m ha hi (Or.inl rfl)]
    cases moveBy m i 1 <;> rfl
  · rw [moveBy_rescale b m ha hi (Or.inr rfl)]
    cases moveBy m i (-1) <;> rfl
  · rfl

/-- Locating a value commutes with the replacement: it compares heights only. -/
theorem locate_rescale (ha : 0 < a) (x : ℚ) :
    locate (rescale a b m) (a * x + b) = (rescale a b (locate m x).1, (locate m x).2) := by
  have hq : ∀ i : Fin 6, i ≠ 0 → (rescale a b m i).q = a * (m i).q + b := fun i hi => rescale_q hi
  simp only [locate, hq 1 (by decide), hq 2 (by decide), hq 3 (by decide), hq 4 (by decide),
    hq 5 (by decide), affine_lt_iff ha, affine_le_iff ha]
  split_ifs <;> simp [rescale_update]

theorem advance_rescale (k : ℤ) :
    advance (rescale a b m) k = rescale a b (advance m k) := by
  funext i
  by_cases hi : i = 0
  · simp [advance, rescale, hi]
  · simp [advance, rescale, hi]

/-- **One new value commutes with the replacement.** -/
theorem observe_rescale (ha : 0 < a) (d : ℤ) (x : ℚ) :
    observe (rescale a b m) d (a * x + b) =
      (observe m d x).map fun r => (rescale a b r.1, r.2) := by
  simp only [observe, locate_rescale b m ha, advance_rescale, adjust_rescale b _ ha inner_two]
  cases adjust (advance (locate m x).1 (locate m x).2) d 2 with
  | none => rfl
  | some r₂ =>
    simp only [Option.map_some, Option.bind_eq_bind, Option.bind_some,
      adjust_rescale b _ ha inner_three]
    cases adjust r₂.1 r₂.2 3 with
    | none => rfl
    | some r₃ =>
      simp only [Option.map_some, Option.bind_some, adjust_rescale b _ ha inner_four]
      cases adjust r₃.1 r₃.2 4 with
      | none => rfl
      | some r₄ => rfl

/-- The markers of the sorted first five samples. -/
theorem initMarkers_rescale {five : List ℚ} (hfive : five.length = 5) (p : ℚ) :
    initMarkers m (five.map (a * · + b)) p = rescale a b (initMarkers m five p) := by
  match five, hfive with
  | [x₁, x₂, x₃, x₄, x₅], _ =>
    funext i
    match i with
    | 0 | 1 | 2 | 3 | 4 | 5 => rfl

end Phases

/-! ## Runs -/

/-- The object with the stored samples replaced and, once they are in use, the heights of the
markers. -/
def rescaleState (a b : ℚ) (s : QuantileEstimator) : QuantileEstimator :=
  { s with
    firstfive := s.firstfive.map (a * · + b)
    marker := if s.mSamples ≤ 5 then s.marker else rescale a b s.marker }

/-- The stored samples are the first five. -/
def Stored (s : QuantileEstimator) : Prop := s.firstfive.length = min s.mSamples 5

theorem stored_next {s s' : QuantileEstimator} {x : ℚ} (hs : Stored s)
    (h : s.next x = some s') : Stored s' := by
  unfold Stored at *
  by_cases hlt : s.mSamples < 5
  · rw [next_of_lt hlt] at h
    obtain rfl := Option.some.inj h
    simp only [List.length_append, List.length_singleton, hs]
    omega
  · rw [next_of_le (by omega)] at h
    obtain ⟨r, -, rfl⟩ := Option.map_eq_some_iff.mp h
    dsimp only
    split_ifs
    · rw [List.length_insertionSort, hs]
      omega
    · rw [hs]
      omega

/-- Sorting commutes with an increasing map. -/
theorem insertionSort_affine {a : ℚ} (ha : 0 < a) (b : ℚ) (l : List ℚ) :
    (l.map (a * · + b)).insertionSort (· ≤ ·) =
      (l.insertionSort (· ≤ ·)).map (a * · + b) :=
  (List.map_insertionSort (r := (· ≤ ·)) (s := (· ≤ ·)) _ l
    fun x _ y _ => (affine_le_iff ha b x y).symm).symm

theorem ready_rescaleState {a : ℚ} (ha : 0 < a) (b : ℚ) {s : QuantileEstimator} (hs : Stored s)
    (h5 : 5 ≤ s.mSamples) : (rescaleState a b s).ready = rescale a b s.ready := by
  by_cases he : s.mSamples = 5
  · have hlen : (s.firstfive.insertionSort (· ≤ ·)).length = 5 := by
      rw [List.length_insertionSort, hs, he]
      rfl
    simp only [ready, rescaleState, he, if_pos, le_refl]
    rw [insertionSort_affine ha, initMarkers_rescale _ _ hlen]
  · simp only [ready, rescaleState, if_neg he, if_neg (show ¬ s.mSamples ≤ 5 by omega)]

/-- **One push commutes with the replacement.** -/
theorem next_rescaleState {a : ℚ} (ha : 0 < a) (b : ℚ) {s : QuantileEstimator} (hs : Stored s)
    (x : ℚ) : (rescaleState a b s).next (a * x + b) = (s.next x).map (rescaleState a b) := by
  by_cases hlt : s.mSamples < 5
  · rw [next_of_lt hlt, next_of_lt (show (rescaleState a b s).mSamples < 5 from hlt)]
    simp [rescaleState, hlt.le, Nat.succ_le_of_lt hlt]
  · have h5 : 5 ≤ s.mSamples := by omega
    have h6 : ¬ s.mSamples + 1 ≤ 5 := by omega
    rw [next_of_le h5, next_of_le (show 5 ≤ (rescaleState a b s).mSamples from h5),
      ready_rescaleState ha b hs h5]
    rw [show (rescaleState a b s).d = s.d from rfl, observe_rescale b _ ha]
    cases observe s.ready s.d x with
    | none => rfl
    | some r =>
      -- The sixth push also leaves the stored samples sorted.
      by_cases he : s.mSamples = 5
      · simp [rescaleState, he, insertionSort_affine ha]
      · simp [rescaleState, he, h6]

/-- **Every run commutes with the replacement** of its samples. -/
theorem pushAll_map {a : ℚ} (ha : 0 < a) (b p : ℚ) (xs : List ℚ) :
    pushAll p (xs.map (a * · + b)) = (pushAll p xs).map (rescaleState a b) :=
  Foundations.run_map_of_equivariant Stored (rescaleState a b) _
    (fun _ _ _ hs h => stored_next hs h) (fun _ x hs => next_rescaleState ha b hs x)
    (s := new p) rfl xs

/-- **Affine equivariance.** The runs on `xs` and on the samples `a * x + b` end with the same
positions, and the heights of the second, the current quantile included, are those of the first
replaced in the same way. -/
theorem pushAll_affine (p a b : ℚ) (ha : 0 < a) (xs : List ℚ) (hN : 6 ≤ xs.length) :
    ∃ s s', pushAll p xs = some s ∧ pushAll p (xs.map fun x => a * x + b) = some s' ∧
      (∀ i, i ≠ 0 → (s'.marker i).n = (s.marker i).n ∧ (s'.marker i).np = (s.marker i).np ∧
        (s'.marker i).q = a * (s.marker i).q + b) ∧
      s'.quantile = a * s.quantile + b := by
  obtain ⟨s, hs, hn, -⟩ := exists_pushAll_spans p hN
  have hmarker : (rescaleState a b s).marker = rescale a b s.marker :=
    if_neg (show ¬ s.mSamples ≤ 5 by omega)
  refine ⟨s, rescaleState a b s, hs, by rw [pushAll_map ha, hs]; rfl, fun i hi => ?_, ?_⟩
  · rw [hmarker]
    exact ⟨rescale_n, rescale_np, rescale_q hi⟩
  · rw [quantile, hmarker, rescale_q (by decide)]
    rfl

/-- Samples in milliseconds and in microseconds with an offset of five. -/
theorem pushAll_affine_units :
    ∃ s s', pushAll (19 / 20) [3, 1, 4, 1, 5, 9, 2, 6] = some s ∧
      pushAll (19 / 20) (([3, 1, 4, 1, 5, 9, 2, 6] : List ℚ).map fun x => 1000 * x + 5) =
        some s' ∧
      s'.quantile = 1000 * s.quantile + 5 := by
  obtain ⟨s, s', hs, hs', -, hq⟩ := pushAll_affine (19 / 20) 1000 5 (by norm_num)
    [3, 1, 4, 1, 5, 9, 2, 6] (by decide)
  exact ⟨s, s', hs, hs', hq⟩

end QuantileEstimator

end LinuxTest.Latency
