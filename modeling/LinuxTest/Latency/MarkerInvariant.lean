import LinuxTest.Foundations.Extremes
import LinuxTest.Latency.MarkerOrder

/-!
# The representation invariant of the quantile estimator

From the sixth push on, the markers span the samples: the first marker stands at position `1` and
the last at the number of samples, at the heights of the smallest and the largest sample, with
the inner markers ordered between them. The invariant is established by sorting the first five
samples and kept by every new value, and every push is defined.

## Main definitions

* `Spans h m`: the markers `m` span the samples `h`

## Main results

* `spans_initMarkers`, `Spans.observe`: the invariant holds initially and is kept
* `pushAll_representation`: the invariant after every run of at least six pushes
-/

namespace LinuxTest.Latency

namespace QuantileEstimator

/-- The markers are ordered, from position `1` at the smallest of the samples `h` to the position
of their number at the largest. -/
structure Spans (h : List ℚ) (m : Markers) : Prop where
  ordered : Ordered m
  first : (m 1).n = 1
  last : (m 5).n = h.length
  least : IsLeast {x | x ∈ h} (m 1).q
  greatest : IsGreatest {x | x ∈ h} (m 5).q

/-! ## The first five samples -/

/-- Five sorted samples. -/
theorem exists_insertionSort_five {h : List ℚ} (hlen : h.length = 5) :
    ∃ a b c d e, h.insertionSort (· ≤ ·) = [a, b, c, d, e] ∧
      a ≤ b ∧ b ≤ c ∧ c ≤ d ∧ d ≤ e := by
  have hsorted : List.Pairwise (· ≤ ·) (h.insertionSort (· ≤ ·)) := List.pairwise_insertionSort _ h
  have hlen' : (h.insertionSort (· ≤ ·)).length = 5 := by
    rw [List.length_insertionSort, hlen]
  match hl : h.insertionSort (· ≤ ·), hlen', hsorted with
  | [a, b, c, d, e], _, hsorted =>
    simp only [List.pairwise_cons, List.mem_cons, forall_eq_or_imp] at hsorted
    obtain ⟨⟨hab, -⟩, ⟨hbc, -⟩, ⟨hcd, -⟩, ⟨hde, -⟩, -⟩ := hsorted
    exact ⟨a, b, c, d, e, rfl, hab, hbc, hcd, hde⟩

/-- The markers of five sorted heights are ordered. -/
theorem ordered_initMarkers (m : Markers) (p : ℚ) {a b c d e : ℚ} (hab : a ≤ b) (hbc : b ≤ c)
    (hcd : c ≤ d) (hde : d ≤ e) : Ordered (initMarkers m [a, b, c, d, e] p) := by
  refine ⟨fun i hi => ?_, fun i hi hi' => ?_, fun i hi hi' => ?_⟩
  · match i with
    | 0 => exact absurd rfl hi
    | 1 => exact ⟨1, by norm_num [initMarkers]⟩
    | 2 => exact ⟨2, by norm_num [initMarkers]⟩
    | 3 => exact ⟨3, by norm_num [initMarkers]⟩
    | 4 => exact ⟨4, by norm_num [initMarkers]⟩
    | 5 => exact ⟨5, by norm_num [initMarkers]⟩
  · match i with
    | 0 => exact absurd rfl hi
    | 1 => exact (by norm_num : (1 : ℚ) + 1 ≤ 2)
    | 2 => exact (by norm_num : (2 : ℚ) + 1 ≤ 3)
    | 3 => exact (by norm_num : (3 : ℚ) + 1 ≤ 4)
    | 4 => exact (by norm_num : (4 : ℚ) + 1 ≤ 5)
    | 5 => exact absurd rfl hi'
  · match i with
    | 0 => exact absurd rfl hi
    | 1 => exact hab
    | 2 => exact hbc
    | 3 => exact hcd
    | 4 => exact hde
    | 5 => exact absurd rfl hi'

/-- **The sixth push starts from a valid representation** of the first five samples. -/
theorem spans_initMarkers {h : List ℚ} (hlen : h.length = 5) (m : Markers) (p : ℚ) :
    Spans h (initMarkers m (h.insertionSort (· ≤ ·)) p) := by
  obtain ⟨a, b, c, d, e, hsort, hab, hbc, hcd, hde⟩ := exists_insertionSort_five hlen
  have hmem : ∀ x, x ∈ h ↔ x = a ∨ x = b ∨ x = c ∨ x = d ∨ x = e := fun x => by
    rw [← List.mem_insertionSort (· ≤ ·), hsort]
    simp
  rw [hsort]
  refine ⟨ordered_initMarkers m p hab hbc hcd hde, rfl, ?_, ⟨?_, ?_⟩, ⟨?_, ?_⟩⟩
  · rw [hlen]
    rfl
  · exact (hmem _).mpr (Or.inl rfl)
  · intro x hx
    change a ≤ x
    rcases (hmem x).mp hx with rfl | rfl | rfl | rfl | rfl <;> linarith
  · exact (hmem _).mpr (Or.inr (Or.inr (Or.inr (Or.inr rfl))))
  · intro x hx
    change x ≤ e
    rcases (hmem x).mp hx with rfl | rfl | rfl | rfl | rfl <;> linarith

/-! ## One new value -/

/-- The first position never advances, and the last one always does. -/
theorem shifted_outer (m : Markers) (x : ℚ) :
    (shifted m x 1).n = (m 1).n ∧ (shifted m x 5).n = (m 5).n + 1 := by
  obtain ⟨hk₁, hk₄⟩ := locate_cell m x
  have h₁ : ¬ (locate m x).2 + 1 ≤ ((1 : Fin 6).val : ℤ) := by
    change ¬ (locate m x).2 + 1 ≤ 1
    omega
  have h₅ : (locate m x).2 + 1 ≤ ((5 : Fin 6).val : ℤ) := by
    change (locate m x).2 + 1 ≤ 5
    omega
  constructor
  · rw [shifted, advance_n _ _ (by decide), if_neg h₁, (locate_frame m x 1).1, add_zero]
  · rw [shifted, advance_n _ _ (by decide), if_pos h₅, (locate_frame m x 5).1]

/-- **A new value keeps the representation**, for the samples extended by it. -/
theorem Spans.observe {h : List ℚ} {m : Markers} (hm : Spans h m) (d : ℤ) (x : ℚ) :
    ∃ m' k d', observe m d x = some (m', k, d') ∧ Spans (h ++ [x]) m' := by
  obtain ⟨m₂, m₃, m₄, d', ho, h₂, h₃, h₄⟩ := observe_spec hm.ordered d x
  have hord₂ := h₂.ordered (hm.ordered.shifted x) inner_two
  have hord := h₄.ordered (h₃.ordered hord₂ inner_three) inner_four
  -- The outer markers are those of the shift: the adjustments leave them alone.
  obtain ⟨hout₁, hout₅⟩ := adjusted_outer h₂ h₃ h₄
  obtain ⟨hs₁, hs₅⟩ := shifted_outer m x
  obtain ⟨hq₁, -, -, -, hq₅⟩ := locate_heights x hm.ordered
  refine ⟨m₄, _, d', ho, hord, ?_, ?_, ?_, ?_⟩
  · rw [hout₁, hs₁, hm.first]
  · rw [hout₅, hs₅, hm.last]
    simp
  · rw [hout₁, shifted, advance_q, hq₁]
    exact Foundations.isLeast_snoc hm.least x
  · rw [hout₅, shifted, advance_q, hq₅]
    exact Foundations.isGreatest_snoc hm.greatest x

/-! ## Runs -/

/-- After every run of at least six pushes, all of them defined, the markers span the samples. -/
theorem exists_pushAll_spans (p : ℚ) {xs : List ℚ} (hxs : 6 ≤ xs.length) :
    ∃ s, pushAll p xs = some s ∧ s.mSamples = xs.length ∧ Spans xs s.marker :=
  exists_pushAll (fun _ m hlen => spans_initMarkers hlen m p)
    (fun _ _ _ hm d x => hm.observe d x) hxs

/-- **The representation invariant.** After every run of at least six pushes, none of which
divides by zero, the positions are integers with `1 = n₁ < n₂ < n₃ < n₄ < n₅ = N`, the heights are
ordered, and the extreme heights are the minimum and the maximum of the samples. -/
theorem pushAll_representation (p : ℚ) (xs : List ℚ) (hN : 6 ≤ xs.length) :
    ∃ s, pushAll p xs = some s ∧
      (∀ i, i ≠ 0 → ∃ z : ℤ, (s.marker i).n = z) ∧
      (s.marker 1).n = 1 ∧ (s.marker 1).n < (s.marker 2).n ∧
      (s.marker 2).n < (s.marker 3).n ∧ (s.marker 3).n < (s.marker 4).n ∧
      (s.marker 4).n < (s.marker 5).n ∧ (s.marker 5).n = xs.length ∧
      (s.marker 1).q ≤ (s.marker 2).q ∧ (s.marker 2).q ≤ (s.marker 3).q ∧
      (s.marker 3).q ≤ (s.marker 4).q ∧ (s.marker 4).q ≤ (s.marker 5).q ∧
      IsLeast {x | x ∈ xs} (s.marker 1).q ∧ IsGreatest {x | x ∈ xs} (s.marker 5).q := by
  obtain ⟨s, hs, -, hspan⟩ := exists_pushAll_spans p hN
  obtain ⟨n₁, n₂, n₃, n₄⟩ := hspan.ordered.positions
  obtain ⟨q₁, q₂, q₃, q₄⟩ := hspan.ordered.heights
  exact ⟨s, hs, hspan.ordered.integral, hspan.first, by linarith, by linarith, by linarith,
    by linarith, hspan.last, q₁, q₂, q₃, q₄, hspan.least, hspan.greatest⟩

/-- The invariant on a stream whose last sample is a new minimum. -/
theorem pushAll_representation_new_minimum :
    ∃ s, pushAll (1 / 2) [5, 1, 4, 2, 3, 0] = some s ∧
      (s.marker 5).n = ([5, 1, 4, 2, 3, 0] : List ℚ).length ∧
      IsLeast {x | x ∈ ([5, 1, 4, 2, 3, 0] : List ℚ)} (s.marker 1).q := by
  obtain ⟨s, hs, -, -, -, -, -, -, hlast, -, -, -, -, hleast, -⟩ :=
    pushAll_representation (1 / 2) [5, 1, 4, 2, 3, 0] (by decide)
  exact ⟨s, hs, hlast, hleast⟩

end QuantileEstimator

end LinuxTest.Latency
