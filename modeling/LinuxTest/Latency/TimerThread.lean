import LinuxTest.Latency.Histogram
import LinuxTest.Latency.OnlineStats
import LinuxTest.Latency.Reports
import LinuxTest.Libc

/-!
# The measuring thread of the latency test

`timerthread` of `rt_test/latency/latency.cpp` sleeps for a tenth of a second again and again, and
records by how much it overslept: the difference of two clock readings less the time asked for, in
microseconds. An `int` is a word of 32 bits and an `int64_t` one of 64; the times of a `timespec`
are integers, cast where the source casts them.

The nanoseconds are computed exactly, and then cast to an `int` before they are divided by a
thousand. An overshoot of `2 ^ 31` nanoseconds, a little over two seconds, no longer fits. The value
is then negative, and the histogram writes in front of its array: from there on the thread has no
defined result.

## Main definitions

* `Timespec`, `calcdiff`, `timens`, `delta`: the arithmetic of one measurement
* `TimerCtx`, `Reading`, `TimerCtx.record`, `TimerCtx.measure`, `timerthread`: the thread
* `overshoot now next`: the nanoseconds by which the thread overslept

## Main results

* `delta_eq_iff`: the recorded value is the overshoot in microseconds exactly below `2 ^ 31`
  nanoseconds
* `timerthread_recorded`: all estimators, the statistics and the histogram receive the recorded
  values of all iterations, if none of them is below the range of the histogram
-/

namespace LinuxTest.Latency

open Foundations

/-- A `struct timespec`. -/
structure Timespec where
  tvSec : ℤ
  tvNsec : ℤ
deriving Repr, DecidableEq

/-- The cast `(int)`. -/
def int (x : ℤ) : BitVec 32 := BitVec.ofInt 32 x

/-- `NSEC_PER_SEC`. -/
def nsecPerSec : BitVec 64 := 1000000000

/-- The nanoseconds from `t2` to `t1`. -/
def calcdiff (t1 t2 : Timespec) : BitVec 64 :=
  let diff := nsecPerSec * (int t1.tvSec - int t2.tvSec).signExtend 64
  diff + (int t1.tvNsec - int t2.tvNsec).signExtend 64

/-- The nanoseconds of a time. -/
def timens (t1 : Timespec) : BitVec 64 :=
  let tm := nsecPerSec * (int t1.tvSec).signExtend 64
  tm + BitVec.ofInt 64 t1.tvNsec

/-- The time the thread asks to sleep. -/
def req : Timespec := ⟨0, 100 * (1000 * 1000)⟩

/-- The value recorded for one sleep. The cast to `int` binds tighter than the division. -/
def delta (now next : Timespec) : BitVec 32 :=
  (int (calcdiff next now - timens req).toInt).sdiv 1000

/-! ## The thread -/

/-- The context of a thread, with what it records into. -/
structure TimerCtx where
  iterations : BitVec 32
  pmQ5 : QuantileEstimator
  pmQ50 : QuantileEstimator
  pmQ95 : QuantileEstimator
  pmQ99 : QuantileEstimator
  pstats : OnlineStats
  phist : Histogram

/-- What the kernel returns in one iteration: the results of the two `clock_gettime` and of
`clock_nanosleep`, the two clock readings, and the text of `errno` after the first call. -/
structure Reading where
  retNow : BitVec 32
  now : Timespec
  error : CString
  retSleep : BitVec 32
  retNext : BitVec 32
  next : Timespec

namespace TimerCtx

/-- The constructor, with the number of iterations that `main` sets; the other arguments are what
the memory held. -/
def new (mMin mMax : ℚ) (w : ℕ) (memory : ℤ → BitVec 32) (iterations : BitVec 32) : TimerCtx where
  iterations
  pmQ5 := QuantileEstimator.new (5 / 100)
  pmQ50 := QuantileEstimator.new (50 / 100)
  pmQ95 := QuantileEstimator.new (95 / 100)
  pmQ99 := QuantileEstimator.new (99 / 100)
  pstats := OnlineStats.new mMin mMax
  phist := Histogram.new w memory 1000

/-- One value goes into the four estimators, the statistics and the histogram. A write outside the
array of the histogram has no defined result. -/
def record (ctx : TimerCtx) (delta : BitVec 32) : Option TimerCtx := do
  let (_, pmQ5) ← ctx.pmQ5.push delta.toInt
  let (_, pmQ50) ← ctx.pmQ50.push delta.toInt
  let (_, pmQ99) ← ctx.pmQ99.push delta.toInt
  let (_, pmQ95) ← ctx.pmQ95.push delta.toInt
  let pstats := (ctx.pstats.push delta.toInt).2
  let phist := (ctx.phist.acc delta).2
  if ctx.phist.inArray delta then return { ctx with pmQ5, pmQ50, pmQ95, pmQ99, pstats, phist }
  else none

/-- The measurement loop; it ends early when a call fails. Without a result an estimator divided by
zero, or the histogram wrote outside its array. -/
def measure (ctx : TimerCtx) : List Reading → Option (Except Exit TimerCtx)
  | [] => some (.ok ctx)
  | r :: rs =>
    if r.retNow ≠ 0 then
      some (.error ⟨1, "clock_gettime failed ".toList ++ decimal r.retNow.toInt ++ ", ".toList ++
        r.error ++ "\n".toList⟩)
    else if r.retSleep ≠ 0 then
      some (.error ⟨1, "clock_nanosleep failed ".toList ++ decimal r.retSleep.toInt ++
        "\n".toList⟩)
    else if r.retNext ≠ 0 then
      some (.error ⟨1, "clock_gettime failed ".toList ++ decimal r.retNext.toInt ++ "\n".toList⟩)
    else (ctx.record (delta r.now r.next)).bind fun ctx => ctx.measure rs

end TimerCtx

/-- The thread: `kernel i` is what the kernel returns in iteration `i`, `sched` and `mlock` are the
results of the two calls before the loop and `error` the text of `errno` after one of them. -/
def timerthread (sched mlock : BitVec 32) (error : CString) (ctx : TimerCtx)
    (kernel : ℕ → Reading) : Option (Except Exit TimerCtx) :=
  if sched = -1 then
    some (.error ⟨-1, perror "sched_setscheduler failed".toList error⟩)
  else if mlock = -1 then
    some (.error ⟨-2, perror "mlockall failed".toList error⟩)
  else ctx.measure ((List.range ctx.iterations.toInt.toNat).map kernel)

/-! ## One measurement -/

/-- The nanoseconds since the epoch. -/
def Timespec.nanoseconds (t : Timespec) : ℤ := t.tvSec * 1000000000 + t.tvNsec

/-- A time as the kernel reports it: the nanoseconds are less than a second, and the seconds are
not negative and fit an `int`. -/
structure Timespec.Normalised (t : Timespec) : Prop where
  nsec : 0 ≤ t.tvNsec ∧ t.tvNsec < 1000000000
  sec : 0 ≤ t.tvSec ∧ t.tvSec < 2 ^ 31

/-- The exact number of nanoseconds by which a sleep was longer than the time asked for. -/
def overshoot (now next : Timespec) : ℤ := next.nanoseconds - now.nanoseconds - 100000000

section Measurement

theorem toInt_int {x : ℤ} (hlo : -2 ^ 31 ≤ x) (hhi : x < 2 ^ 31) : (int x).toInt = x :=
  toInt_ofInt_of_mem 31 hlo hhi

/-- The difference of two numbers that fit an `int`, if it does. -/
theorem toInt_int_sub {x y : ℤ} (hx : -2 ^ 31 ≤ x ∧ x < 2 ^ 31) (hy : -2 ^ 31 ≤ y ∧ y < 2 ^ 31)
    (hsub : -2 ^ 31 ≤ x - y ∧ x - y < 2 ^ 31) :
    ((int x - int y).signExtend 64).toInt = x - y := by
  rw [BitVec.toInt_signExtend_of_le (by decide), BitVec.toInt_sub, toInt_int hx.1 hx.2,
    toInt_int hy.1 hy.2]
  exact bmod_of_mem 31 hsub.1 hsub.2

variable {now next : Timespec}

/-- `calcdiff` is exact on normalised times. -/
theorem toInt_calcdiff (hnow : now.Normalised) (hnext : next.Normalised) :
    (calcdiff next now).toInt = next.nanoseconds - now.nanoseconds := by
  obtain ⟨⟨hn0, hn1⟩, hs0, hs1⟩ := hnow
  obtain ⟨⟨hn0', hn1'⟩, hs0', hs1'⟩ := hnext
  have hsec := toInt_int_sub (x := next.tvSec) (y := now.tvSec) (by omega) (by omega) (by omega)
  have hnsec := toInt_int_sub (x := next.tvNsec) (y := now.tvNsec) (by omega) (by omega) (by omega)
  have hper : nsecPerSec.toInt = 1000000000 := by decide
  have hmul : (nsecPerSec * (int next.tvSec - int now.tvSec).signExtend 64).toInt =
      1000000000 * (next.tvSec - now.tvSec) := by
    rw [BitVec.toInt_mul, hsec, hper]
    exact bmod_of_mem 63 (by omega) (by omega)
  rw [calcdiff, BitVec.toInt_add, hmul, hnsec, Timespec.nanoseconds, Timespec.nanoseconds]
  exact (bmod_of_mem 63 (by omega) (by omega)).trans (by ring)

/-- The nanoseconds of a measurement are exact. -/
theorem toInt_overshoot (hnow : now.Normalised) (hnext : next.Normalised) :
    (calcdiff next now - timens req).toInt = overshoot now next := by
  have hreq : (timens req).toInt = 100000000 := by decide
  have hdiff := toInt_calcdiff hnow hnext
  rw [BitVec.toInt_sub, hreq, hdiff, overshoot]
  obtain ⟨⟨hn0, hn1⟩, hs0, hs1⟩ := hnow
  obtain ⟨⟨hn0', hn1'⟩, hs0', hs1'⟩ := hnext
  unfold Timespec.nanoseconds
  exact bmod_of_mem 63 (by omega) (by omega)

/-- Division by a thousand, with truncation toward zero. -/
theorem tdiv_thousand (x : ℤ) :
    (0 ≤ x → x.tdiv 1000 = x / 1000) ∧ (x < 0 → x.tdiv 1000 = -(-x / 1000)) := by
  refine ⟨fun h => Int.tdiv_eq_ediv_of_nonneg h, fun h => ?_⟩
  have hneg : x.tdiv 1000 = -((-x).tdiv 1000) := by rw [Int.neg_tdiv, neg_neg]
  rw [hneg, Int.tdiv_eq_ediv_of_nonneg (by omega)]

/-- The recorded value: the nanoseconds are wrapped to an `int`, and then divided. -/
theorem toInt_delta (hnow : now.Normalised) (hnext : next.Normalised) :
    (delta now next).toInt = ((overshoot now next).bmod (2 ^ 32)).tdiv 1000 := by
  have hlo := Int.le_bmod (x := overshoot now next) (m := 2 ^ 32) (by norm_num)
  have hhi := Int.bmod_lt (x := overshoot now next) (m := 2 ^ 32) (by norm_num)
  have hword : (int (overshoot now next)).toInt = (overshoot now next).bmod (2 ^ 32) := by
    rw [int, BitVec.toInt_ofInt]
  rw [delta, toInt_overshoot hnow hnext, BitVec.toInt_sdiv, hword]
  generalize (overshoot now next).bmod (2 ^ 32) = x at *
  obtain ⟨hpos, hneg⟩ := tdiv_thousand x
  by_cases h0 : 0 ≤ x
  · have := hpos h0
    exact bmod_of_mem 31 (x := x.tdiv 1000) (by omega) (by omega)
  · have := hneg (by omega)
    exact bmod_of_mem 31 (x := x.tdiv 1000) (by omega) (by omega)

/-- Wrapping a large overshoot to an `int` changes its microseconds. -/
theorem tdiv_bmod_ne {x : ℤ} (hx : 2 ^ 31 ≤ x) : (x.bmod (2 ^ 32)).tdiv 1000 ≠ x.tdiv 1000 := by
  intro heq
  have hhi := Int.bmod_lt (x := x) (m := 2 ^ 32) (by norm_num)
  have hself := (tdiv_thousand x).1 (by omega)
  obtain ⟨hpos, hneg⟩ := tdiv_thousand (x.bmod (2 ^ 32))
  by_cases h0 : 0 ≤ x.bmod (2 ^ 32)
  · -- Equal quotients leave only overshoots just above the limit, and these wrap to negative ones.
    have := hpos h0
    have hwrap : x.bmod (2 ^ 32) = x - 2 ^ 32 := bmod_of_ge 31 (by omega) (by omega)
    omega
  · have := hneg (by omega)
    omega

/-- **The recorded value is the overshoot in microseconds**, truncated toward zero, exactly when
the overshoot is less than `2 ^ 31` nanoseconds. -/
theorem delta_eq_iff (hnow : now.Normalised) (hnext : next.Normalised)
    (hle : now.nanoseconds ≤ next.nanoseconds) :
    (delta now next).toInt = (overshoot now next).tdiv 1000 ↔ overshoot now next < 2 ^ 31 := by
  rw [toInt_delta hnow hnext]
  constructor
  · intro heq
    by_contra hge
    exact tdiv_bmod_ne (not_lt.mp hge) heq
  · intro hlt
    have hlo : -2 ^ 31 ≤ overshoot now next := by
      unfold overshoot
      omega
    exact congrArg (·.tdiv 1000) (bmod_of_mem 31 hlo hlt)

/-- A sleep that is a tenth of a millisecond late, across a full second. -/
theorem delta_eq_late_sleep :
    (delta ⟨5, 950000000⟩ ⟨6, 50100000⟩).toInt =
      (overshoot ⟨5, 950000000⟩ ⟨6, 50100000⟩).tdiv 1000 := by
  refine (delta_eq_iff ⟨?_, ?_⟩ ⟨?_, ?_⟩ ?_).mpr ?_ <;> norm_num [Timespec.nanoseconds, overshoot]

/-- A stall of three seconds is recorded as a negative latency. -/
theorem delta_ne_long_stall :
    ¬ (delta ⟨0, 0⟩ ⟨3, 0⟩).toInt = (overshoot ⟨0, 0⟩ ⟨3, 0⟩).tdiv 1000 := by
  decide

end Measurement

/-! ## What the thread records -/

section Thread

variable {mMin mMax : ℚ} {w : ℕ} {memory : ℤ → BitVec 32} {iterations : BitVec 32}

/-- The context after the values `ds`: every estimator, the statistics and the histogram hold
them. -/
structure Recorded (mMin mMax : ℚ) (w : ℕ) (memory : ℤ → BitVec 32) (ds : List (BitVec 32))
    (ctx : TimerCtx) : Prop where
  q5 : QuantileEstimator.pushAll (5 / 100) (ds.map fun d => (d.toInt : ℚ)) = some ctx.pmQ5
  q50 : QuantileEstimator.pushAll (50 / 100) (ds.map fun d => (d.toInt : ℚ)) = some ctx.pmQ50
  q95 : QuantileEstimator.pushAll (95 / 100) (ds.map fun d => (d.toInt : ℚ)) = some ctx.pmQ95
  q99 : QuantileEstimator.pushAll (99 / 100) (ds.map fun d => (d.toInt : ℚ)) = some ctx.pmQ99
  stats : ctx.pstats = OnlineStats.afterCalls mMin mMax (ds.map fun d => .push d.toInt)
  hist : ctx.phist = ((Histogram.new w memory 1000).accAll ds).2

theorem recorded_new :
    Recorded mMin mMax w memory [] (TimerCtx.new mMin mMax w memory iterations) :=
  ⟨rfl, rfl, rfl, rfl, rfl, rfl⟩

/-- No recorded value is near the limit of an `int`. -/
theorem toInt_delta_lt (now next : Timespec) : (delta now next).toInt + 1000 < 2 ^ 31 := by
  obtain ⟨hlo, hhi⟩ := Histogram.toInt_mem (int (calcdiff next now - timens req).toInt)
  have hthousand : (1000 : BitVec 32).toInt = 1000 := by decide
  rw [delta, BitVec.toInt_sdiv, hthousand]
  generalize (int (calcdiff next now - timens req).toInt).toInt = x at *
  obtain ⟨hpos, hneg⟩ := tdiv_thousand x
  have hrange : -2 ^ 31 ≤ x.tdiv 1000 ∧ x.tdiv 1000 + 1000 < 2 ^ 31 := by
    by_cases h0 : 0 ≤ x
    · have := hpos h0
      omega
    · have := hneg (by omega)
      omega
  have hself : (x.tdiv 1000).bmod (2 ^ 32) = x.tdiv 1000 := bmod_of_mem 31 hrange.1 (by omega)
  rw [hself]
  exact hrange.2

/-- The histogram of the thread takes a recorded value exactly if it is not below its range. -/
theorem Recorded.inArray_iff {ds : List (BitVec 32)} {ctx : TimerCtx}
    (h : Recorded mMin mMax w memory ds ctx) (now next : Timespec) :
    ctx.phist.inArray (delta now next) = true ↔ -1000 ≤ (delta now next).toInt := by
  have hbuckets : ctx.phist.buckets = 1000 * 2 := by
    rw [h.hist, Histogram.buckets_accAll]
    rfl
  have hthousand : (1000 : BitVec 32).toInt = 1000 := by decide
  rw [Histogram.inArray_iff hbuckets (by decide) (by decide), hthousand]
  exact and_iff_left (toInt_delta_lt now next)

/-- The estimators take every value, so it depends on the histogram alone whether there is a
result. -/
theorem Recorded.record {ds : List (BitVec 32)} {ctx : TimerCtx}
    (h : Recorded mMin mMax w memory ds ctx) (d : BitVec 32) :
    ∃ ctx', ctx.record d = (if ctx.phist.inArray d then some ctx' else none) ∧
      Recorded mMin mMax w memory (ds ++ [d]) ctx' := by
  obtain ⟨r5, q5, h5, e5⟩ := QuantileEstimator.exists_push h.q5 d.toInt
  obtain ⟨r50, q50, h50, e50⟩ := QuantileEstimator.exists_push h.q50 d.toInt
  obtain ⟨r95, q95, h95, e95⟩ := QuantileEstimator.exists_push h.q95 d.toInt
  obtain ⟨r99, q99, h99, e99⟩ := QuantileEstimator.exists_push h.q99 d.toInt
  refine ⟨{ ctx with
    pmQ5 := q5, pmQ50 := q50, pmQ95 := q95, pmQ99 := q99
    pstats := (ctx.pstats.push d.toInt).2
    phist := (ctx.phist.acc d).2 }, ?_, ?_⟩
  · rw [TimerCtx.record, h5, h50, h99, h95]
    rfl
  · refine ⟨?_, ?_, ?_, ?_, ?_, ?_⟩
    · rw [List.map_append, List.map_singleton, e5]
    · rw [List.map_append, List.map_singleton, e50]
    · rw [List.map_append, List.map_singleton, e95]
    · rw [List.map_append, List.map_singleton, e99]
    · rw [List.map_append, List.map_singleton, OnlineStats.afterCalls_snoc, ← h.stats]
      rfl
    · rw [Histogram.accAll_snoc, ← h.hist]

/-- The calls of an iteration succeed. -/
structure Reading.Succeeds (r : Reading) : Prop where
  now : r.retNow = 0
  sleep : r.retSleep = 0
  next : r.retNext = 0

/-- The value that is recorded for an iteration. -/
def Reading.delta (r : Reading) : BitVec 32 := Latency.delta r.now r.next

theorem measure_cons {r : Reading} (hr : r.Succeeds) (ctx : TimerCtx) (rs : List Reading) :
    ctx.measure (r :: rs) = (ctx.record r.delta).bind fun ctx => ctx.measure rs := by
  rw [TimerCtx.measure, if_neg (not_not.mpr hr.now), if_neg (not_not.mpr hr.sleep),
    if_neg (not_not.mpr hr.next)]
  rfl

/-- **A run of the loop** without failing calls records the value of every iteration, if none is
below the range of the histogram; if one is, there is no defined result. -/
theorem Recorded.measure {ds : List (BitVec 32)} {ctx : TimerCtx}
    (h : Recorded mMin mMax w memory ds ctx) {rs : List Reading} (hrs : ∀ r ∈ rs, r.Succeeds) :
    ((∀ r ∈ rs, -1000 ≤ r.delta.toInt) → ∃ ctx', ctx.measure rs = some (.ok ctx') ∧
      Recorded mMin mMax w memory (ds ++ rs.map Reading.delta) ctx') ∧
    ((∃ r ∈ rs, r.delta.toInt < -1000) → ctx.measure rs = none) := by
  induction rs generalizing ds ctx with
  | nil =>
    refine ⟨fun _ => ⟨ctx, rfl, by simpa using h⟩, ?_⟩
    rintro ⟨r, hr, -⟩
    exact absurd hr List.not_mem_nil
  | cons r rs ih =>
    obtain ⟨hr, hrest⟩ := List.forall_mem_cons.mp hrs
    obtain ⟨ctx₁, hrec, h₁⟩ := h.record r.delta
    have hinArray := h.inArray_iff r.now r.next
    obtain ⟨hok, hnone⟩ := ih h₁ hrest
    rw [measure_cons hr, hrec]
    by_cases hin : ctx.phist.inArray r.delta = true
    · rw [if_pos hin, Option.bind_some]
      constructor
      · intro hall
        obtain ⟨ctx', hmeasure, h'⟩ := hok (List.forall_mem_cons.mp hall).2
        exact ⟨ctx', hmeasure, by simpa using h'⟩
      · rintro ⟨r', hr', hlow⟩
        rcases List.mem_cons.mp hr' with rfl | hr'
        · exact absurd (hinArray.mp hin) (not_le.mpr hlow)
        · exact hnone ⟨r', hr', hlow⟩
    · -- The first write outside the array ends the run.
      rw [if_neg hin]
      refine ⟨fun hall => ?_, fun _ => rfl⟩
      exact absurd (hinArray.mpr (List.forall_mem_cons.mp hall).1) hin

/-- **All sinks receive the recorded values of all iterations**, when no call fails and no value is
below the range of the histogram; if a value is, the thread has no defined result. -/
theorem timerthread_recorded {sched mlock : BitVec 32} (hsched : sched ≠ -1) (hmlock : mlock ≠ -1)
    (error : CString) {kernel : ℕ → Reading}
    (hkernel : ∀ i < iterations.toInt.toNat, (kernel i).Succeeds) :
    ((∀ i < iterations.toInt.toNat, -1000 ≤ (kernel i).delta.toInt) →
      ∃ ctx, timerthread sched mlock error (TimerCtx.new mMin mMax w memory iterations) kernel =
          some (.ok ctx) ∧
        Recorded mMin mMax w memory
          ((List.range iterations.toInt.toNat).map fun i => (kernel i).delta) ctx) ∧
    ((∃ i < iterations.toInt.toNat, (kernel i).delta.toInt < -1000) →
      timerthread sched mlock error (TimerCtx.new mMin mMax w memory iterations) kernel =
        none) := by
  have hnew : Recorded mMin mMax w memory [] (TimerCtx.new mMin mMax w memory iterations) :=
    recorded_new
  have hthread : timerthread sched mlock error (TimerCtx.new mMin mMax w memory iterations) kernel =
      (TimerCtx.new mMin mMax w memory iterations).measure
        ((List.range iterations.toInt.toNat).map kernel) := by
    rw [timerthread, if_neg hsched, if_neg hmlock]
    rfl
  have hsucceeds : ∀ r ∈ (List.range iterations.toInt.toNat).map kernel, r.Succeeds :=
    List.forall_mem_map.mpr fun i hi => hkernel i (List.mem_range.mp hi)
  obtain ⟨hok, hnone⟩ := hnew.measure hsucceeds
  rw [hthread]
  constructor
  · intro hall
    obtain ⟨ctx, hmeasure, hrec⟩ :=
      hok (List.forall_mem_map.mpr fun i hi => hall i (List.mem_range.mp hi))
    rw [List.nil_append, List.map_map] at hrec
    exact ⟨ctx, hmeasure, hrec⟩
  · rintro ⟨i, hi, hlow⟩
    exact hnone ⟨kernel i, List.mem_map_of_mem (List.mem_range.mpr hi), hlow⟩

/-- Three sleeps that are five microseconds late are recorded. If the second one takes three
seconds, the histogram writes outside its array. -/
theorem timerthread_recorded_three :
    (∃ ctx, timerthread 0 0 [] (TimerCtx.new 0 0 32 (fun _ => 0) 3)
        (fun _ => ⟨0, ⟨0, 0⟩, [], 0, 0, ⟨0, 100005000⟩⟩) = some (.ok ctx) ∧
      Recorded 0 0 32 (fun _ => 0) ((List.range 3).map fun _ => delta ⟨0, 0⟩ ⟨0, 100005000⟩) ctx) ∧
    timerthread 0 0 [] (TimerCtx.new 0 0 32 (fun _ => 0) 3)
      (fun i => ⟨0, ⟨0, 0⟩, [], 0, 0, if i = 1 then ⟨3, 0⟩ else ⟨0, 100005000⟩⟩) = none :=
  ⟨(timerthread_recorded (by decide) (by decide) [] fun _ _ => ⟨rfl, rfl, rfl⟩).1
      (by intro i _; decide),
    (timerthread_recorded (by decide) (by decide) [] fun _ _ => ⟨rfl, rfl, rfl⟩).2
      ⟨1, by decide, by decide⟩⟩

end Thread

end LinuxTest.Latency
