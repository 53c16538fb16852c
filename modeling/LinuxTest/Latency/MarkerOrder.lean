import LinuxTest.Latency.QuantileEstimator
import Mathlib.Tactic.Linarith
import Mathlib.Tactic.Ring
import Mathlib.Algebra.Order.Field.Basic

/-!
# The order of the markers

Between two pushes the positions of the five markers are integers at distance at least one, and
the heights are ordered. The phases of a push keep both: locating a value can only widen the
extreme heights, advancing increments a final segment of the positions, and an adjustment moves
one marker strictly inside the gap of its neighbours, at a height between theirs. The same order
makes every denominator of the two predictions nonzero, so that a push is always defined.

## Main definitions

* `Ordered m`: the positions and the heights are ordered
* `move m i`: by how much the adjustment moves marker `i`

## Main results

* `adjust_spec`: an adjustment is defined, changes marker `i` only, and keeps its height between
  the neighbours'
* `observe_spec`: what one new value does to the markers
-/

namespace LinuxTest.Latency

namespace QuantileEstimator

/-- The markers `1` to `5` stand at integer positions at distance at least one, and their heights
are ordered. -/
structure Ordered (m : Markers) : Prop where
  integral : ∀ i, i ≠ 0 → ∃ z : ℤ, (m i).n = z
  position : ∀ i, i ≠ 0 → i ≠ 5 → (m i).n + 1 ≤ (m (i + 1)).n
  height : ∀ i, i ≠ 0 → i ≠ 5 → (m i).q ≤ (m (i + 1)).q

/-- The indices of the adjustment loop. -/
def Inner (i : Fin 6) : Prop := i ≠ 0 ∧ i ≠ 1 ∧ i ≠ 5

instance (i : Fin 6) : Decidable (Inner i) := inferInstanceAs (Decidable (_ ∧ _ ∧ _))

@[simp] theorem pred_add_one : ∀ i : Fin 6, i - 1 + 1 = i := by decide

@[simp] theorem add_one_pred : ∀ i : Fin 6, i + 1 - 1 = i := by decide

theorem inner_succ_ne_zero : ∀ {i : Fin 6}, Inner i → i + 1 ≠ 0 := by decide

theorem inner_pred : ∀ {i : Fin 6}, Inner i → i - 1 ≠ 0 ∧ i - 1 ≠ 5 := by decide

theorem inner_two : Inner 2 := by decide

theorem inner_three : Inner 3 := by decide

theorem inner_four : Inner 4 := by decide

theorem cell_one : ∀ {i : Fin 6}, Inner i → cell i 1 = i + 1 := by decide

theorem cell_neg_one : ∀ {i : Fin 6}, Inner i → cell i (-1) = i - 1 := by decide

theorem inner_add_one_ne : ∀ {i : Fin 6}, Inner i → i + 1 ≠ i ∧ i - 1 ≠ i := by decide

section Neighbours

variable {m : Markers} {i : Fin 6}

theorem Ordered.position_left (hm : Ordered m) (hi : Inner i) :
    (m (i - 1)).n + 1 ≤ (m i).n := by
  simpa using hm.position (i - 1) (inner_pred hi).1 (inner_pred hi).2

theorem Ordered.position_right (hm : Ordered m) (hi : Inner i) :
    (m i).n + 1 ≤ (m (i + 1)).n :=
  hm.position i hi.1 hi.2.2

theorem Ordered.height_left (hm : Ordered m) (hi : Inner i) : (m (i - 1)).q ≤ (m i).q := by
  simpa using hm.height (i - 1) (inner_pred hi).1 (inner_pred hi).2

theorem Ordered.height_right (hm : Ordered m) (hi : Inner i) : (m i).q ≤ (m (i + 1)).q :=
  hm.height i hi.1 hi.2.2

/-- Positions are integers, so two of them more than one apart are at least two apart. -/
theorem Ordered.two_le_of_one_lt (hm : Ordered m) {i j : Fin 6} (hi : i ≠ 0) (hj : j ≠ 0)
    (h : 1 < (m j).n - (m i).n) : (m i).n + 2 ≤ (m j).n := by
  -- The gap is an integer, so it cannot lie strictly between one and two.
  obtain ⟨a, ha⟩ := hm.integral i hi
  obtain ⟨b, hb⟩ := hm.integral j hj
  rw [ha, hb] at h ⊢
  have hlt : (1 : ℤ) < b - a := by exact_mod_cast h
  have hle : a + 2 ≤ b := by omega
  exact_mod_cast hle

end Neighbours

/-! ## Replacing one marker -/

/-- A marker moved to an integer position inside the gap of its neighbours, at a height between
theirs, leaves the markers ordered. -/
theorem Ordered.update {m : Markers} (hm : Ordered m) {i : Fin 6} (hi : Inner i) {y : Marker}
    (hint : ∃ z : ℤ, y.n = z) (hnl : (m (i - 1)).n + 1 ≤ y.n) (hnr : y.n + 1 ≤ (m (i + 1)).n)
    (hql : (m (i - 1)).q ≤ y.q) (hqr : y.q ≤ (m (i + 1)).q) :
    Ordered (Function.update m i y) := by
  -- A pair of neighbours contains the replaced marker on its left, on its right, or not at all.
  have hpair : ∀ j : Fin 6, j = i ∨ j + 1 = i ∨ (j ≠ i ∧ j + 1 ≠ i) := fun j => by tauto
  have hself := (inner_add_one_ne hi).1
  refine ⟨fun j hj => ?_, fun j hj hj' => ?_, fun j hj hj' => ?_⟩
  · by_cases h : j = i
    · subst h
      simpa using hint
    · simpa [h] using hm.integral j hj
  · rcases hpair j with rfl | rfl | ⟨h, h'⟩
    · simpa [hself] using hnr
    · have hne : j ≠ j + 1 := fun h => hself (by rw [← h, ← h])
      simpa [hne] using hnl
    · simpa [h, h'] using hm.position j hj hj'
  · rcases hpair j with rfl | rfl | ⟨h, h'⟩
    · simpa [hself] using hqr
    · have hne : j ≠ j + 1 := fun h => hself (by rw [← h, ← h])
      simpa [hne] using hql
    · simpa [h, h'] using hm.height j hj hj'

/-! ## The predictions are defined -/

theorem divide_of_ne {x y : ℚ} (hy : y ≠ 0) : divide x y = some (x / y) := if_neg hy

section Predictions

variable {m : Markers} {i : Fin 6}

/-- The three denominators of the parabolic prediction are nonzero. -/
theorem parabolicEstimate_eq (hm : Ordered m) (hi : Inner i) (di : ℤ) :
    parabolicEstimate m i di = some ((m i).q + di / ((m (i + 1)).n - (m (i - 1)).n) *
      (((m i).n - (m (i - 1)).n + di) * ((m (i + 1)).q - (m i).q) / ((m (i + 1)).n - (m i).n) +
        ((m (i + 1)).n - (m i).n - di) * ((m i).q - (m (i - 1)).q) /
          ((m i).n - (m (i - 1)).n))) := by
  have hl := hm.position_left hi
  have hr := hm.position_right hi
  unfold parabolicEstimate
  rw [divide_of_ne (by linarith), divide_of_ne (by linarith), divide_of_ne (by linarith)]
  rfl

/-- The parabolic prediction is taken strictly between the neighbours only. -/
theorem exists_predict_eq (hm : Ordered m) (hi : Inner i) (d : ℤ) :
    ∃ qip, parabolicEstimate m i d = some qip ∧
      predict m i d = if (m (i - 1)).q < qip ∧ qip < (m (i + 1)).q then some qip
        else linearEstimate m i d := by
  refine ⟨_, parabolicEstimate_eq hm hi d, ?_⟩
  rw [predict, parabolicEstimate_eq hm hi, Option.bind_eq_bind, Option.bind_some]

/-- A point one position along a segment of length `t` from height `q` to height `r`. -/
theorem segment_between {q r t : ℚ} (hq : q ≤ r) (ht : 1 ≤ t) :
    q ≤ q + (r - q) / t ∧ q + (r - q) / t ≤ r := by
  have hpos : 0 < t := by linarith
  have hnonneg : 0 ≤ (r - q) / t := div_nonneg (by linarith) hpos.le
  have hle : (r - q) / t ≤ r - q := by
    rw [div_le_iff₀ hpos]
    nlinarith
  constructor <;> linarith

theorem linearEstimate_one (hm : Ordered m) (hi : Inner i) :
    linearEstimate m i 1 =
      some ((m i).q + ((m (i + 1)).q - (m i).q) / ((m (i + 1)).n - (m i).n)) := by
  have hgap := hm.position_right hi
  unfold linearEstimate
  rw [cell_one hi, divide_of_ne (by linarith), Int.cast_one, one_mul]
  rfl

theorem linearEstimate_neg_one (hm : Ordered m) (hi : Inner i) :
    linearEstimate m i (-1) =
      some ((m i).q - ((m i).q - (m (i - 1)).q) / ((m i).n - (m (i - 1)).n)) := by
  have hgap := hm.position_left hi
  unfold linearEstimate
  rw [cell_neg_one hi, divide_of_ne (by linarith)]
  -- Both the numerator and the denominator are negated with respect to the segment.
  have hneg : ((-1 : ℤ) : ℚ) * ((m (i - 1)).q - (m i).q) / ((m (i - 1)).n - (m i).n) =
      -(((m i).q - (m (i - 1)).q) / ((m i).n - (m (i - 1)).n)) := by
    rw [show (m (i - 1)).n - (m i).n = -((m i).n - (m (i - 1)).n) by ring, div_neg]
    push_cast
    congr 2
    ring
  rw [hneg]
  exact congrArg some (sub_eq_add_neg _ _).symm

/-- The linear prediction to the right lies between the marker and its right neighbour. -/
theorem linearEstimate_right (hm : Ordered m) (hi : Inner i) :
    ∃ q, linearEstimate m i 1 = some q ∧ (m (i - 1)).q ≤ q ∧ q ≤ (m (i + 1)).q := by
  have hgap := hm.position_right hi
  have hbetween := segment_between (hm.height_right hi)
    (t := (m (i + 1)).n - (m i).n) (by linarith)
  exact ⟨_, linearEstimate_one hm hi, (hm.height_left hi).trans hbetween.1, hbetween.2⟩

/-- The linear prediction to the left lies between the left neighbour and the marker. -/
theorem linearEstimate_left (hm : Ordered m) (hi : Inner i) :
    ∃ q, linearEstimate m i (-1) = some q ∧ (m (i - 1)).q ≤ q ∧ q ≤ (m (i + 1)).q := by
  have hgap := hm.position_left hi
  have hright := hm.height_right hi
  have hbetween := segment_between (q := 0) (r := (m i).q - (m (i - 1)).q)
    (t := (m i).n - (m (i - 1)).n) (by linarith [hm.height_left hi]) (by linarith)
  rw [sub_zero, zero_add] at hbetween
  refine ⟨_, linearEstimate_neg_one hm hi, ?_, ?_⟩ <;> linarith [hbetween.1, hbetween.2]

end Predictions

/-! ## One adjustment -/

/-- By how much the adjustment loop moves marker `i`: one position towards the desired one when
the marker is at least one away from it, and its neighbour there more than one away. -/
def move (m : Markers) (i : Fin 6) : ℤ :=
  if (m i).np - (m i).n ≥ 1 ∧ (m (i + 1)).n - (m i).n > 1 then 1
  else if (m i).np - (m i).n ≤ -1 ∧ (m (i - 1)).n - (m i).n < -1 then -1
  else 0

theorem move_cases (m : Markers) (i : Fin 6) : move m i = 0 ∨ move m i = 1 ∨ move m i = -1 := by
  unfold move
  split_ifs <;> simp

/-- The body of the adjustment loop, by the move it makes. -/
theorem adjust_eq (m : Markers) (d : ℤ) (i : Fin 6) :
    adjust m d i = if move m i = 0 then some (m, d)
      else (moveBy m i (move m i)).map fun m' => (m', move m i) := by
  -- The two halves of the test exclude each other, and fix the sign of the move.
  by_cases hright : (m i).np - (m i).n ≥ 1 ∧ (m (i + 1)).n - (m i).n > 1
  · have hsign : (m i).np - (m i).n ≥ 0 := by linarith [hright.1]
    simp only [adjust, move, if_pos (Or.inl hright), if_pos hsign, if_pos hright]
    cases moveBy m i 1 <;> rfl
  · by_cases hleft : (m i).np - (m i).n ≤ -1 ∧ (m (i - 1)).n - (m i).n < -1
    · have hsign : ¬ (m i).np - (m i).n ≥ 0 := by linarith [hleft.1]
      simp only [adjust, move, if_pos (Or.inr hleft), if_neg hsign, if_neg hright, if_pos hleft]
      cases moveBy m i (-1) <;> rfl
    · simp only [adjust, move, if_neg (not_or.mpr ⟨hright, hleft⟩), if_neg hright, if_neg hleft,
        if_true]

/-- A move stays strictly inside the gap of the neighbours. -/
theorem move_inside {m : Markers} (hm : Ordered m) {i : Fin 6} (hi : Inner i) :
    (m (i - 1)).n + 1 ≤ (m i).n + move m i ∧ (m i).n + move m i + 1 ≤ (m (i + 1)).n := by
  have hl := hm.position_left hi
  have hr := hm.position_right hi
  unfold move
  split_ifs with h₁ h₂
  -- The neighbour that is approached is more than one away, so at least two.
  · have := hm.two_le_of_one_lt hi.1 (inner_succ_ne_zero hi) h₁.2
    push_cast
    constructor <;> linarith
  · have := hm.two_le_of_one_lt (inner_pred hi).1 hi.1 (by linarith [h₂.2])
    push_cast
    constructor <;> linarith
  · push_cast
    constructor <;> linarith

theorem Ordered.integral_move {m : Markers} (hm : Ordered m) {i : Fin 6} (hi : Inner i) :
    ∃ z : ℤ, (m i).n + move m i = z := by
  obtain ⟨z, hz⟩ := hm.integral i hi.1
  exact ⟨z + move m i, by rw [hz]; push_cast; ring⟩

/-- The new height lies between the neighbours', whichever prediction gives it. -/
theorem exists_predict {m : Markers} (hm : Ordered m) {i : Fin 6} (hi : Inner i) {d : ℤ}
    (hd : d = 1 ∨ d = -1) :
    ∃ q, predict m i d = some q ∧ (m (i - 1)).q ≤ q ∧ q ≤ (m (i + 1)).q := by
  obtain ⟨qip, -, hpredict⟩ := exists_predict_eq hm hi d
  rw [hpredict]
  split_ifs with hbetween
  · exact ⟨qip, rfl, hbetween.1.le, hbetween.2.le⟩
  · rcases hd with rfl | rfl
    · exact linearEstimate_right hm hi
    · exact linearEstimate_left hm hi

/-- `m'` is `m` with marker `i` moved by `move m i`, to a height between its neighbours'. -/
def Adjusted (m : Markers) (i : Fin 6) (m' : Markers) : Prop :=
  ∃ q, m' = Function.update m i { m i with q := q, n := (m i).n + move m i } ∧
    (m (i - 1)).q ≤ q ∧ q ≤ (m (i + 1)).q

/-- **One adjustment** of ordered markers is defined, and is a move inside the gap. -/
theorem adjust_spec {m : Markers} (hm : Ordered m) {i : Fin 6} (hi : Inner i) (d : ℤ) :
    ∃ m' d', adjust m d i = some (m', d') ∧ Adjusted m i m' := by
  rw [adjust_eq]
  split_ifs with h
  · refine ⟨m, d, rfl, (m i).q, ?_, hm.height_left hi, hm.height_right hi⟩
    simp [h]
  · obtain ⟨q, hq, hbetween⟩ := exists_predict hm hi ((move_cases m i).resolve_left h)
    refine ⟨_, move m i, ?_, q, rfl, hbetween⟩
    rw [moveBy, hq]
    rfl

section Adjusted

variable {m m' : Markers} {i : Fin 6}

theorem Adjusted.ordered (h : Adjusted m i m') (hm : Ordered m) (hi : Inner i) : Ordered m' := by
  obtain ⟨q, rfl, hl, hr⟩ := h
  exact hm.update hi (hm.integral_move hi) (move_inside hm hi).1 (move_inside hm hi).2 hl hr

theorem Adjusted.of_ne (h : Adjusted m i m') {j : Fin 6} (hj : j ≠ i) : m' j = m j := by
  obtain ⟨q, rfl, -⟩ := h
  exact Function.update_of_ne hj _ _

theorem Adjusted.n_self (h : Adjusted m i m') : (m' i).n = (m i).n + move m i := by
  obtain ⟨q, rfl, -⟩ := h
  simp

theorem Adjusted.np_eq (h : Adjusted m i m') (j : Fin 6) : (m' j).np = (m j).np := by
  by_cases hj : j = i
  · obtain ⟨q, rfl, -⟩ := h
    simp [hj]
  · rw [h.of_ne hj]

theorem Adjusted.dn_eq (h : Adjusted m i m') (j : Fin 6) : (m' j).dn = (m j).dn := by
  by_cases hj : j = i
  · obtain ⟨q, rfl, -⟩ := h
    simp [hj]
  · rw [h.of_ne hj]

end Adjusted

/-! ## Locating the value and advancing the positions -/

section Locate

variable (m : Markers) (x : ℚ)

/-- Locating a value changes heights only. -/
theorem locate_frame (i : Fin 6) :
    ((locate m x).1 i).n = (m i).n ∧ ((locate m x).1 i).np = (m i).np ∧
      ((locate m x).1 i).dn = (m i).dn := by
  have hupdate : ∀ j : Fin 6, ∀ q, (Function.update m j { m j with q := q } i).n = (m i).n ∧
      (Function.update m j { m j with q := q } i).np = (m i).np ∧
      (Function.update m j { m j with q := q } i).dn = (m i).dn := by
    intro j q
    by_cases h : i = j
    · simp [h]
    · simp [h]
  unfold locate
  split_ifs <;> first | exact hupdate _ _ | exact ⟨rfl, rfl, rfl⟩

/-- The cell is one of the four between the markers. -/
theorem locate_cell : 1 ≤ (locate m x).2 ∧ (locate m x).2 ≤ 4 := by
  unfold locate
  split_ifs <;> norm_num

variable {m}

theorem Ordered.heights (hm : Ordered m) :
    (m 1).q ≤ (m 2).q ∧ (m 2).q ≤ (m 3).q ∧ (m 3).q ≤ (m 4).q ∧ (m 4).q ≤ (m 5).q :=
  ⟨hm.height 1 (by decide) (by decide), hm.height 2 (by decide) (by decide),
    hm.height 3 (by decide) (by decide), hm.height 4 (by decide) (by decide)⟩

theorem Ordered.positions (hm : Ordered m) :
    (m 1).n + 1 ≤ (m 2).n ∧ (m 2).n + 1 ≤ (m 3).n ∧ (m 3).n + 1 ≤ (m 4).n ∧
      (m 4).n + 1 ≤ (m 5).n :=
  ⟨hm.position 1 (by decide) (by decide), hm.position 2 (by decide) (by decide),
    hm.position 3 (by decide) (by decide), hm.position 4 (by decide) (by decide)⟩

/-- The new heights: the extremes are widened to the value, the others are unchanged. -/
theorem locate_heights (hm : Ordered m) :
    ((locate m x).1 1).q = min (m 1).q x ∧ ((locate m x).1 2).q = (m 2).q ∧
      ((locate m x).1 3).q = (m 3).q ∧ ((locate m x).1 4).q = (m 4).q ∧
      ((locate m x).1 5).q = max (m 5).q x := by
  obtain ⟨h₁, h₂, h₃, h₄⟩ := hm.heights
  unfold locate
  split_ifs with c₁ c₂ c₃ c₄ c₅
  · have hmax : x ≤ (m 5).q := by linarith
    simp [c₁.le, hmax]
  -- In the inner cells neither extreme changes; above the last marker the greatest does.
  all_goals first
    | (have hmin : (m 1).q ≤ x := by linarith
       have hmax : x ≤ (m 5).q := by linarith
       simp [hmin, hmax])
    | (have hmin : (m 1).q ≤ x := by linarith
       have hmax : (m 5).q ≤ x := by linarith
       simp [hmin, hmax])

theorem Ordered.locate (hm : Ordered m) : Ordered (locate m x).1 := by
  obtain ⟨h₁, h₂, h₃, h₄⟩ := hm.heights
  obtain ⟨e₁, e₂, e₃, e₄, e₅⟩ := locate_heights x hm
  refine ⟨fun i hi => ?_, fun i hi hi' => ?_, fun i hi hi' => ?_⟩
  · rw [(locate_frame m x i).1]
    exact hm.integral i hi
  · rw [(locate_frame m x i).1, (locate_frame m x (i + 1)).1]
    exact hm.position i hi hi'
  · -- Widening moves an extreme height away from its neighbour.
    match i with
    | 0 => exact absurd rfl hi
    | 1 => exact e₁.le.trans ((min_le_left _ _).trans (h₁.trans e₂.ge))
    | 2 => exact e₂.le.trans (h₂.trans e₃.ge)
    | 3 => exact e₃.le.trans (h₃.trans e₄.ge)
    | 4 => exact e₄.le.trans (h₄.trans ((le_max_left _ _).trans e₅.ge))
    | 5 => exact absurd rfl hi'

end Locate

section Advance

variable {m : Markers}

@[simp] theorem advance_q (m : Markers) (k : ℤ) (i : Fin 6) : (advance m k i).q = (m i).q := by
  unfold advance
  split_ifs <;> rfl

@[simp] theorem advance_dn (m : Markers) (k : ℤ) (i : Fin 6) : (advance m k i).dn = (m i).dn := by
  unfold advance
  split_ifs <;> rfl

theorem advance_np (m : Markers) (k : ℤ) {i : Fin 6} (hi : i ≠ 0) :
    (advance m k i).np = (m i).np + (m i).dn := by
  simp [advance, hi]

theorem advance_n (m : Markers) (k : ℤ) {i : Fin 6} (hi : i ≠ 0) :
    (advance m k i).n = (m i).n + if k + 1 ≤ i.val then 1 else 0 := by
  simp only [advance, if_neg hi]
  split_ifs <;> simp

theorem val_add_one : ∀ {i : Fin 6}, i ≠ 5 → (i + 1).val = i.val + 1 ∧ i + 1 ≠ 0 := by decide

/-- A final segment of the positions is incremented, so no gap closes. -/
theorem Ordered.advance (hm : Ordered m) (k : ℤ) : Ordered (advance m k) := by
  refine ⟨fun i hi => ?_, fun i hi hi' => ?_, fun i hi hi' => ?_⟩
  · obtain ⟨z, hz⟩ := hm.integral i hi
    rw [advance_n m k hi, hz]
    exact ⟨z + if k + 1 ≤ i.val then 1 else 0, by push_cast; rfl⟩
  · have hgap := hm.position i hi hi'
    obtain ⟨hval, hne⟩ := val_add_one hi'
    rw [advance_n m k hi, advance_n m k hne, hval]
    push_cast
    -- Where marker `i` advances, the next one does too.
    split_ifs <;> linarith
  · rw [advance_q, advance_q]
    exact hm.height i hi hi'

end Advance

/-! ## One new value -/

/-- The markers when the adjustment loop starts. -/
def shifted (m : Markers) (x : ℚ) : Markers := advance (locate m x).1 (locate m x).2

theorem Ordered.shifted {m : Markers} (hm : Ordered m) (x : ℚ) : Ordered (shifted m x) :=
  (hm.locate x).advance _

/-- Whatever holds of every adjustment of ordered markers, and keeps them ordered, holds of the
three adjustments of a new value. -/
theorem exists_observe {R : Markers → Fin 6 → Markers → Prop}
    (hadjust : ∀ {m i}, Ordered m → Inner i → ∀ d, ∃ m' d', adjust m d i = some (m', d') ∧ R m i m')
    (hordered : ∀ {m i m'}, R m i m' → Ordered m → Inner i → Ordered m')
    {m : Markers} (hm : Ordered m) (d : ℤ) (x : ℚ) :
    ∃ m₂ m₃ m₄ d', observe m d x = some (m₄, (locate m x).2, d') ∧
      R (shifted m x) 2 m₂ ∧ R m₂ 3 m₃ ∧ R m₃ 4 m₄ := by
  have hm₁ := hm.shifted x
  obtain ⟨m₂, d₂, h₂, ha₂⟩ := hadjust hm₁ inner_two d
  have hm₂ := hordered ha₂ hm₁ inner_two
  obtain ⟨m₃, d₃, h₃, ha₃⟩ := hadjust hm₂ inner_three d₂
  have hm₃ := hordered ha₃ hm₂ inner_three
  obtain ⟨m₄, d₄, h₄, ha₄⟩ := hadjust hm₃ inner_four d₃
  refine ⟨m₂, m₃, m₄, d₄, ?_, ha₂, ha₃, ha₄⟩
  rw [shifted] at h₂
  simp [observe, h₂, h₃, h₄]

/-- **One new value** on ordered markers is defined: three adjustments, of the markers `2`, `3`
and `4`, from the shifted markers. -/
theorem observe_spec {m : Markers} (hm : Ordered m) (d : ℤ) (x : ℚ) :
    ∃ m₂ m₃ m₄ d', observe m d x = some (m₄, (locate m x).2, d') ∧
      Adjusted (shifted m x) 2 m₂ ∧ Adjusted m₂ 3 m₃ ∧ Adjusted m₃ 4 m₄ :=
  exists_observe (fun hm hi d => adjust_spec hm hi d) Adjusted.ordered hm d x

/-- Three adjustments leave the first and the last marker alone. -/
theorem adjusted_outer {m m₂ m₃ m₄ : Markers} (h₂ : Adjusted m 2 m₂) (h₃ : Adjusted m₂ 3 m₃)
    (h₄ : Adjusted m₃ 4 m₄) : m₄ 1 = m 1 ∧ m₄ 5 = m 5 := by
  constructor
  · rw [h₄.of_ne (by decide), h₃.of_ne (by decide), h₂.of_ne (by decide)]
  · rw [h₄.of_ne (by decide), h₃.of_ne (by decide), h₂.of_ne (by decide)]

end QuantileEstimator

end LinuxTest.Latency
