import LinuxTest.Foundations.PartialRun
import Mathlib.Data.List.Sort
import Mathlib.Data.Rat.Cast.Order

/-!
# The quantile estimator of the latency test

`rt_test/latency/QuantileEstimator.h`: five markers follow the minimum, the maximum and three
quantiles of a stream of samples. Each sample falls into one of the four cells between the
markers, the positions to its right advance by one, and the three inner markers are moved one
position towards their desired ones, their heights by a parabolic prediction or, where that would
break the order of the heights, by a linear one. Doubles are exact rationals; a division by zero
has no result.

## Main definitions

* `Marker`, `QuantileEstimator`: one marker, and the object
* `parabolicEstimate`, `linearEstimate`, `predict`: the two predictions, and the choice between
  them
* `initMarkers`, `locate`, `advance`, `adjust`: the phases of a push
* `observe`: the markers after a new value
* `push`, `quantile`: the public operations
* `pushAll p xs`: the object after the samples `xs`

## Main results

* `exists_pushAll`: the induction principle for runs of at least six pushes
-/

namespace LinuxTest.Latency

/-- One marker: its height `q`, its desired position `np`, the increment `dn` of the desired
position and its position `n`. -/
structure Marker where
  q : ℚ
  np : ℚ
  dn : ℚ
  n : ℚ
deriving Repr, DecidableEq, Inhabited

/-- The array `marker[6]`; cell `0` is never used. -/
abbrev Markers := Fin 6 → Marker

/-- The array is not empty, so that numerals are indices. -/
instance neZero_six : NeZero 6 := ⟨Nat.succ_ne_zero 5⟩

/-- The private state of the estimator. -/
structure QuantileEstimator where
  marker : Markers
  mSamples : ℕ
  firstfive : List ℚ
  mPerc : ℚ
  k : ℤ
  d : ℤ

namespace QuantileEstimator

/-- Division of doubles, read as exact rationals: undefined at a zero denominator. -/
def divide (x y : ℚ) : Option ℚ :=
  if y = 0 then none else some (x / y)

/-- The index `i + di` of the array. -/
def cell (i : Fin 6) (di : ℤ) : Fin 6 :=
  Fin.ofNat 6 (i.val + di).toNat

/-- The parabolic prediction of the height of marker `i` moved by `di`. -/
def parabolicEstimate (marker : Markers) (i : Fin 6) (di : ℤ) : Option ℚ := do
  let lead ← divide di ((marker (i + 1)).n - (marker (i - 1)).n)
  let right ← divide
    (((marker i).n - (marker (i - 1)).n + di) * ((marker (i + 1)).q - (marker i).q))
    ((marker (i + 1)).n - (marker i).n)
  let left ← divide
    (((marker (i + 1)).n - (marker i).n - di) * ((marker i).q - (marker (i - 1)).q))
    ((marker i).n - (marker (i - 1)).n)
  return (marker i).q + lead * (right + left)

/-- The linear prediction of the height of marker `i` moved by `di`. -/
def linearEstimate (marker : Markers) (i : Fin 6) (di : ℤ) : Option ℚ := do
  let slope ← divide (di * ((marker (cell i di)).q - (marker i).q))
    ((marker (cell i di)).n - (marker i).n)
  return (marker i).q + slope

/-- The constructor: every marker is zeroed. -/
def new (perc : ℚ) : QuantileEstimator where
  marker := fun _ => ⟨0, 0, 0, 0⟩
  mSamples := 0
  firstfive := []
  mPerc := perc
  k := 0
  d := 0

/-- The markers after the first five samples: the heights are the sorted samples, the positions
`1` to `5`, with the desired positions and their increments for the percentile. -/
def initMarkers (marker : Markers) (firstfive : List ℚ) (mPerc : ℚ) : Markers
  | 0 => marker 0
  | 1 => ⟨firstfive.getD 0 0, 1, 0, 1⟩
  | 2 => ⟨firstfive.getD 1 0, 1 + 2 * mPerc, mPerc / 2, 2⟩
  | 3 => ⟨firstfive.getD 2 0, 1 + 4 * mPerc, mPerc, 3⟩
  | 4 => ⟨firstfive.getD 3 0, 3 + 2 * mPerc, (1 + mPerc) / 2, 4⟩
  | 5 => ⟨firstfive.getD 4 0, 5, 1, 5⟩

/-- The cell `k` of the new value; a value outside the markers becomes the new extreme height. -/
def locate (marker : Markers) (newValue : ℚ) : Markers × ℤ :=
  if newValue < (marker 1).q then
    (Function.update marker 1 { marker 1 with q := newValue }, 1)
  else if newValue < (marker 2).q then (marker, 1)
  else if newValue < (marker 3).q then (marker, 2)
  else if newValue < (marker 4).q then (marker, 3)
  else if newValue ≤ (marker 5).q then (marker, 4)
  else (Function.update marker 5 { marker 5 with q := newValue }, 4)

/-- The positions of the markers `k + 1` to `5` are incremented, and the desired positions of the
markers `1` to `5` by their increments. -/
def advance (marker : Markers) (k : ℤ) : Markers := fun i =>
  if i = 0 then marker i
  else
    { marker i with
      n := if k + 1 ≤ i.val then (marker i).n + 1 else (marker i).n
      np := (marker i).np + (marker i).dn }

/-- The new height of marker `i` moved by `d`: the parabolic prediction where it lies strictly
between the neighbours, else the linear one. -/
def predict (marker : Markers) (i : Fin 6) (d : ℤ) : Option ℚ := do
  let qip ← parabolicEstimate marker i d
  if (marker (i - 1)).q < qip ∧ qip < (marker (i + 1)).q then some qip
  else linearEstimate marker i d

/-- Marker `i` moved by `d`, to its new height. -/
def moveBy (marker : Markers) (i : Fin 6) (d : ℤ) : Option Markers := do
  let q ← predict marker i d
  return Function.update marker i { marker i with q := q, n := (marker i).n + d }

/-- The body of the adjustment loop at marker `i`: a marker at least one position away from its
desired one moves by one towards it, unless its neighbour there is at distance one. The second
component is the member `d`. -/
def adjust (marker : Markers) (d : ℤ) (i : Fin 6) : Option (Markers × ℤ) :=
  let di := (marker i).np - (marker i).n
  if (di ≥ 1 ∧ (marker (i + 1)).n - (marker i).n > 1) ∨
      (di ≤ -1 ∧ (marker (i - 1)).n - (marker i).n < -1) then do
    let d := if di ≥ 0 then 1 else -1
    let marker ← moveBy marker i d
    return (marker, d)
  else some (marker, d)

/-- The markers after a new value, with the members `k` and `d`: the value is located, the
positions advance, and the markers `2` to `4` are adjusted in this order. -/
def observe (marker : Markers) (d : ℤ) (newValue : ℚ) : Option (Markers × ℤ × ℤ) := do
  let (marker, k) := locate marker newValue
  let marker := advance marker k
  let (marker, d) ← adjust marker d 2
  let (marker, d) ← adjust marker d 3
  let (marker, d) ← adjust marker d 4
  return (marker, k, d)

/-- The value a push returns from the markers: at the percentiles `0` and `1` the extremes. -/
def reported (marker : Markers) (mPerc : ℚ) : ℚ :=
  if mPerc = 0 then (marker 1).q
  else if mPerc = 1 then (marker 5).q
  else (marker 3).q

/-- One push: the returned value and the object after it. -/
def push (s : QuantileEstimator) (newValue : ℚ) : Option (ℚ × QuantileEstimator) :=
  if s.mSamples < 5 then
    some (0, { s with firstfive := s.firstfive ++ [newValue], mSamples := s.mSamples + 1 })
  else do
    let firstfive := if s.mSamples = 5 then s.firstfive.insertionSort (· ≤ ·) else s.firstfive
    let marker := if s.mSamples = 5 then initMarkers s.marker firstfive s.mPerc else s.marker
    let (marker, k, d) ← observe marker s.d newValue
    return (reported marker s.mPerc,
      { s with marker, firstfive, k, d, mSamples := s.mSamples + 1 })

/-- The current quantile. -/
def quantile (s : QuantileEstimator) : ℚ := (s.marker 3).q

/-- The object after one push. -/
def next (s : QuantileEstimator) (newValue : ℚ) : Option QuantileEstimator :=
  (s.push newValue).map Prod.snd

/-- The object for the percentile `p` after the samples `xs`. -/
def pushAll (p : ℚ) (xs : List ℚ) : Option QuantileEstimator :=
  Foundations.run next (new p) xs

/-! ## Runs of pushes -/

/-- The markers a push starts from: those of the sorted first five samples at the sixth push. -/
def ready (s : QuantileEstimator) : Markers :=
  if s.mSamples = 5 then initMarkers s.marker (s.firstfive.insertionSort (· ≤ ·)) s.mPerc
  else s.marker

theorem next_of_lt {s : QuantileEstimator} (h : s.mSamples < 5) (x : ℚ) :
    s.next x = some { s with firstfive := s.firstfive ++ [x], mSamples := s.mSamples + 1 } := by
  simp [next, push, h]

/-- From the sixth on, a push observes the new value. -/
theorem next_of_le {s : QuantileEstimator} (h : 5 ≤ s.mSamples) (x : ℚ) :
    s.next x = (observe s.ready s.d x).map fun r =>
      { s with
        marker := r.1
        firstfive :=
          if s.mSamples = 5 then s.firstfive.insertionSort (· ≤ ·) else s.firstfive
        k := r.2.1
        d := r.2.2
        mSamples := s.mSamples + 1 } := by
  have hready : (if s.mSamples = 5 then
      initMarkers s.marker (if s.mSamples = 5 then s.firstfive.insertionSort (· ≤ ·)
        else s.firstfive) s.mPerc else s.marker) = s.ready := by
    unfold ready
    split_ifs <;> rfl
  simp only [next, push, if_neg (Nat.not_lt.mpr h), hready]
  cases observe s.ready s.d x <;> rfl

theorem pushAll_snoc {p : ℚ} {h : List ℚ} {s : QuantileEstimator} (hs : pushAll p h = some s)
    (x : ℚ) : pushAll p (h ++ [x]) = s.next x := by
  rw [pushAll, Foundations.run_snoc, ← pushAll, hs, Option.bind_some]

/-- The object after the samples `h`: the first five are only stored, and from the sixth on the
markers are in the relation `P` to the samples. -/
structure After (p : ℚ) (P : List ℚ → Markers → Prop) (h : List ℚ) (s : QuantileEstimator) :
    Prop where
  samples : s.mSamples = h.length
  perc : s.mPerc = p
  stored : h.length ≤ 5 → s.firstfive = h
  markers : 6 ≤ h.length → P h s.marker

section Runs

variable {p : ℚ} {P : List ℚ → Markers → Prop}

/-- The markers of the next push are in the relation `P` from five samples on. -/
theorem After.ready (hinit : ∀ h m, h.length = 5 → P h (initMarkers m (h.insertionSort (· ≤ ·)) p))
    {h : List ℚ} {s : QuantileEstimator} (hs : After p P h s) (h5 : 5 ≤ h.length) :
    P h s.ready := by
  by_cases he : h.length = 5
  · rw [QuantileEstimator.ready, if_pos (hs.samples.trans he), hs.stored he.le, hs.perc]
    exact hinit h s.marker he
  · rw [QuantileEstimator.ready, if_neg (hs.samples ▸ he)]
    exact hs.markers (by omega)

/-- One push from the object after `h`. -/
theorem After.next (hinit : ∀ h m, h.length = 5 → P h (initMarkers m (h.insertionSort (· ≤ ·)) p))
    (hstep : ∀ h m, 5 ≤ h.length → P h m → ∀ d x,
      ∃ m' k d', observe m d x = some (m', k, d') ∧ P (h ++ [x]) m')
    {h : List ℚ} {s : QuantileEstimator} (hs : After p P h s) (x : ℚ) :
    ∃ s', s.next x = some s' ∧ After p P (h ++ [x]) s' := by
  have hlen : (h ++ [x]).length = h.length + 1 := by simp
  by_cases hlt : h.length < 5
  · refine ⟨_, next_of_lt (hs.samples ▸ hlt) x, ?_, hs.perc, fun _ => ?_, fun h6 => ?_⟩
    · rw [hlen, ← hs.samples]
    · rw [← hs.stored hlt.le]
    · omega
  · have h5 : 5 ≤ h.length := by omega
    obtain ⟨m', k, d', ho, hP⟩ := hstep h _ h5 (hs.ready hinit h5) s.d x
    rw [next_of_le (hs.samples ▸ h5), ho]
    refine ⟨_, rfl, ?_, hs.perc, fun hle => ?_, fun _ => hP⟩
    · rw [hlen, ← hs.samples]
    · omega

/-- Every run is defined, whatever its length. -/
theorem exists_pushAll_after
    (hinit : ∀ h m, h.length = 5 → P h (initMarkers m (h.insertionSort (· ≤ ·)) p))
    (hstep : ∀ h m, 5 ≤ h.length → P h m → ∀ d x,
      ∃ m' k d', observe m d x = some (m', k, d') ∧ P (h ++ [x]) m')
    (xs : List ℚ) : ∃ s, pushAll p xs = some s ∧ After p P xs s := by
  have hnew : After p P [] (new p) := ⟨rfl, rfl, fun _ => rfl, fun h => by simp at h⟩
  exact Foundations.exists_run_of_history hnew (fun h s hs x => hs.next hinit hstep x) xs

/-- **The rule for whole runs**: a relation between the samples and the markers that holds of the
markers initialised from five samples, and that every new value extends, holds after every run of
at least six pushes; and every such run is defined. -/
theorem exists_pushAll
    (hinit : ∀ h m, h.length = 5 → P h (initMarkers m (h.insertionSort (· ≤ ·)) p))
    (hstep : ∀ h m, 5 ≤ h.length → P h m → ∀ d x,
      ∃ m' k d', observe m d x = some (m', k, d') ∧ P (h ++ [x]) m')
    {xs : List ℚ} (hxs : 6 ≤ xs.length) :
    ∃ s, pushAll p xs = some s ∧ s.mSamples = xs.length ∧ P xs s.marker := by
  obtain ⟨s, hs, hafter⟩ := exists_pushAll_after hinit hstep xs
  exact ⟨s, hs, hafter.samples, hafter.markers hxs⟩

end Runs

end QuantileEstimator

end LinuxTest.Latency
