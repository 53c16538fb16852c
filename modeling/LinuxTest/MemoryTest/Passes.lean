import LinuxTest.Foundations.WhileLoop
import LinuxTest.MemoryTest.Tests
import Mathlib.Tactic.IntervalCases

/-!
# The passes of the memory tester

The loop of `main` in `memory_test/memtester/memtester.c`. A pass runs the test of the address lines
on the whole buffer, and then the tests that the mask selects on its two halves. A test that fails
sets a bit of the exit code: `0x02` for the address lines, `0x04` for the others.

The tests `0x02` to `0x40` change the two halves in place, and pass only if the halves are read
alike before. The test of the address lines leaves them different, so `main` turns on the test of
random values, which comes first, with any of them.

Addresses are those of words, so a buffer has to begin at a word and its halves have to be whole
words: this is what `Region` adds to a buffer.

## Main definitions

* `tests`, `loopBody`: the table of the tests, and a pass
* `enableRandomValue`: the mask that `main` uses
* `testLoop`: the loop over the passes
* `Region`: a buffer of whole words

## Main results

* `exitCode_testLoop_eq_zero_iff`: the exit code is zero exactly if the memory has no faults
* `exitCode_testLoop_of_injective`: the exit code for a memory without aliases
* `loopBody_iterate_agrees`: the exit code agrees with what is printed
* `exitCode_loopBody_of_not_enabled`: what the mask of the user does without the additional test
* `exists_testLoop_iff`: when the loop ends
-/

namespace LinuxTest.MemoryTest

open Foundations

variable {C : Type}

/-! ## The program -/

/-- An entry of the table of tests. -/
structure Test (C : Type) where
  name : CString
  fp : Machine C → Halves → World C → ℤ × World C

/-- The table `tests`, with the narrow tests. -/
def tests [DecidableEq C] : List (Test C) :=
  [⟨"Random Value".toList, testRandomValue⟩,
    ⟨"Compare XOR".toList, testXorComparison⟩,
    ⟨"Compare SUB".toList, testSubComparison⟩,
    ⟨"Compare MUL".toList, testMulComparison⟩,
    ⟨"Compare DIV".toList, testDivComparison⟩,
    ⟨"Compare OR".toList, testOrComparison⟩,
    ⟨"Compare AND".toList, testAndComparison⟩,
    ⟨"Sequential Increment".toList, testSeqincComparison⟩,
    ⟨"Solid Bits".toList, testSolidbitsComparison⟩,
    ⟨"Block Sequential".toList, testBlockseqComparison⟩,
    ⟨"Checkerboard".toList, testCheckerboardComparison⟩,
    ⟨"Bit Spread".toList, testBitspreadComparison⟩,
    ⟨"Bit Flip".toList, testBitflipComparison⟩,
    ⟨"Walking Ones".toList, testWalkbits1Comparison⟩,
    ⟨"Walking Zeroes".toList, testWalkbits0Comparison⟩,
    ⟨"8-bit Writes".toList, test8bitWideRandom⟩,
    ⟨"16-bit Writes".toList, test16bitWideRandom⟩]

/-- The state of `main` in its loop: the exit code, what the tests change, and the tests that were
run, with whether `ok` was printed after their names. -/
structure Run (C : Type) where
  exitCode : BitVec 32
  world : World C
  verdicts : List (CString × Bool)

/-- A test was run: the bit for it is set unless it returned zero. -/
def Run.record (r : Run C) (bit : BitVec 32) (name : CString) (x : ℤ × World C) : Run C where
  exitCode := if x.1 = 0 then r.exitCode else r.exitCode ||| bit
  world := x.2
  verdicts := r.verdicts ++ [(name, decide (x.1 = 0))]

/-- The buffer to test: its first address and its size in bytes. -/
structure Buffer where
  aligned : ℕ
  bufsize : ℕ
deriving Repr, DecidableEq

/-- The halves of a buffer. -/
def Buffer.halves (g : Buffer) : Halves := ⟨g.aligned, g.aligned + g.bufsize / 2, g.bufsize / 2 / 4⟩

/-- A mask leaves out a test. -/
def Skips (testmask : Ul) (i : ℕ) : Prop := testmask ≠ 0 ∧ ((1 : Ul) <<< i) &&& testmask = 0

instance (testmask : Ul) (i : ℕ) : Decidable (Skips testmask i) := by unfold Skips; infer_instance

section Loop

variable [DecidableEq C] (t : Machine C) (g : Buffer) (testmask : Ul)

/-- The `i`-th test of the table. -/
def runTest (r : Run C) (x : Test C × ℕ) : Run C :=
  if Skips testmask x.2 then r else r.record 4 x.1.name (x.1.fp t g.halves r.world)

/-- The test of the address lines. -/
def runStuckAddress (r : Run C) : Run C :=
  r.record 2 "Stuck Address".toList (testStuckAddress t g.aligned (g.bufsize / 4) r.world)

/-- The body of the loop: a pass. -/
def loopBody (r : Run C) : Run C :=
  tests.zipIdx.foldl (runTest t g testmask) (runStuckAddress t g r)

/-- The loop of `main`, with a bound on its iterations. No passes at all are asked for with a zero,
which stands for passes without an end. -/
def testLoop (loops : Ul) (fuel : ℕ) (r : Run C) : Option (Run C) :=
  (whileLoop (fun x : Ul × Run C => loops = 0 ∨ x.1 ≤ loops)
    (fun x => (x.1 + 1, loopBody t g testmask x.2)) fuel (1, r)).map Prod.snd

end Loop

/-- The mask after the test of random values was turned on for the tests that need it. -/
def enableRandomValue (testmask : Ul) : Ul :=
  if testmask &&& 0x7E ≠ 0 ∧ testmask &&& 0x1 = 0 then testmask ||| 0x1 else testmask

/-- A buffer of whole words that does not reach over the end of the address space. -/
structure Region extends Buffer where
  fits : aligned + bufsize ≤ 2 ^ 32
  whole : 8 ∣ bufsize

/-! ## The masks -/

/-- A mask with which the tests that need equal halves come after the one that makes them so. -/
def Enabled (testmask : Ul) : Prop := testmask &&& 0x7E = 0 ∨ testmask &&& 0x1 ≠ 0

theorem enabled_enableRandomValue (testmask : Ul) : Enabled (enableRandomValue testmask) := by
  unfold Enabled enableRandomValue
  split_ifs with hmask
  · right
    intro h
    have hbit := congrArg (fun x : Ul => x.getLsbD 0) h
    simp at hbit
  · rw [not_and_or, not_not] at hmask
    exact hmask

/-- Without the test of random values, none of the tests that need it is run. -/
theorem Enabled.skips {testmask : Ul} (h : Enabled testmask) (h0 : Skips testmask 0) {i : ℕ}
    (hi : 1 ≤ i ∧ i ≤ 6) : Skips testmask i := by
  refine ⟨h0.1, ?_⟩
  have hzero : testmask &&& 0x1 = 0 := by
    rw [BitVec.and_comm]
    exact h0.2
  have hmask : testmask &&& 0x7E = 0 := h.resolve_right fun hne => hne hzero
  have hbit : (1 : Ul) <<< i = 0x7E &&& (1 : Ul) <<< i := by
    obtain ⟨h1, h6⟩ := hi
    interval_cases i <;> rfl
  rw [hbit, BitVec.and_comm, ← BitVec.and_assoc, hmask]
  exact BitVec.zero_and

/-! ## The halves of a region -/

section Regions

variable {t : Machine C} {g : Region}

/-- The decoder tells the words of a range apart. -/
def Injective (R : Ram ℕ C 32) (p n : ℕ) : Prop :=
  ∀ i < n, ∀ k < n, R.decode (word p i) = R.decode (word p k) → i = k

theorem Faultless.injective {R : Ram ℕ C 32} {p n : ℕ} (h : Faultless R p n) : Injective R p n :=
  h.1

theorem Region.word_bufb (g : Region) (i : ℕ) :
    word g.halves.bufb i = word g.aligned (g.halves.count + i) := by
  obtain ⟨k, hk⟩ := g.whole
  simp only [Buffer.halves, word]
  omega

theorem Region.count_add_lt (g : Region) {i : ℕ} (hi : i < g.halves.count) :
    g.halves.count + i < g.bufsize / 4 := by
  simp only [Buffer.halves] at hi ⊢
  omega

/-- No two words of the halves are aliases, if no two of the region are. -/
theorem Injective.separate (h : Injective t.ram g.aligned (g.bufsize / 4)) :
    Separate t g.halves where
  bufa i hi k hk heq :=
    h i (by have := g.count_add_lt hi; omega) k (by have := g.count_add_lt hk; omega) heq
  bufb i hi k hk heq := by
    rw [g.word_bufb, g.word_bufb] at heq
    have := h _ (g.count_add_lt hi) _ (g.count_add_lt hk) heq
    omega
  disjoint i hi k hk heq := by
    rw [g.word_bufb] at heq
    have := h i (by have := g.count_add_lt hi; omega) _ (g.count_add_lt hk) heq
    omega

theorem Faultless.sameFaults (h : Faultless t.ram g.aligned (g.bufsize / 4)) :
    SameFaults t g.halves := by
  intro i hi
  have ha := h.2 i (by have := g.count_add_lt hi; omega)
  have hb := h.2 _ (g.count_add_lt hi)
  rw [← g.word_bufb] at hb
  funext v
  exact (ha.hold v).trans (hb.hold v).symm

end Regions

/-- A machine without aliases, on which some data lines are stuck at one. -/
def dataLines (stuck : Ul) : Machine ℕ where
  ram := ⟨id, fun _ => 0, fun _ => stuck⟩
  randUl k := BitVec.ofNat 32 k
  shiftOut _ := 0
  physaddrbase := none

/-- A region of sixteen words. -/
def sixteenWords : Region where
  aligned := 4096
  bufsize := 64
  fits := by decide
  whole := by decide

theorem injective_dataLines (stuck : Ul) (p n : ℕ) : Injective (dataLines stuck).ram p n := by
  intro i _ k _ h
  have hword : word p i = word p k := h
  unfold word at hword
  omega

theorem faultless_dataLines (p n : ℕ) : Faultless (dataLines 0).ram p n :=
  ⟨injective_dataLines 0 p n, fun _ _ => ⟨rfl, rfl⟩⟩

/-! ## A pass -/

section Pass

variable {t : Machine C} {g : Buffer} {testmask : Ul}

theorem Run.exitCode_record_of_eq_zero {x : ℤ × World C} (h : x.1 = 0) (r : Run C) (bit : BitVec 32)
    (name : CString) : (r.record bit name x).exitCode = r.exitCode := if_pos h

theorem Run.exitCode_record_of_ne_zero {x : ℤ × World C} (h : x.1 ≠ 0) (r : Run C)
    (bit : BitVec 32) (name : CString) : (r.record bit name x).exitCode = r.exitCode ||| bit :=
  if_neg h

theorem runTest_of_skips {x : Test C × ℕ} (h : Skips testmask x.2) (r : Run C) :
    runTest t g testmask r x = r := if_pos h

theorem runTest_of_not_skips {x : Test C × ℕ} (h : ¬ Skips testmask x.2) (r : Run C) :
    runTest t g testmask r x = r.record 4 x.1.name (x.1.fp t g.halves r.world) := if_neg h

/-- Tests that pass whenever an invariant holds, and keep it, leave the exit code alone. -/
theorem foldl_runTest_of_invariant {I : World C → Prop} {l : List (Test C × ℕ)}
    (hl : ∀ x ∈ l, ¬ Skips testmask x.2 → ∀ w, I w →
      (x.1.fp t g.halves w).1 = 0 ∧ I (x.1.fp t g.halves w).2) {r : Run C} (hr : I r.world) :
    (l.foldl (runTest t g testmask) r).exitCode = r.exitCode ∧
      I (l.foldl (runTest t g testmask) r).world := by
  induction l generalizing r with
  | nil => exact ⟨rfl, hr⟩
  | cons x l ih =>
    have htail : ∀ y ∈ l, ¬ Skips testmask y.2 → ∀ w, I w →
        (y.1.fp t g.halves w).1 = 0 ∧ I (y.1.fp t g.halves w).2 :=
      fun y hy => hl y (List.mem_cons_of_mem x hy)
    rw [List.foldl_cons]
    by_cases hskip : Skips testmask x.2
    · rw [runTest_of_skips hskip]
      exact ih htail hr
    · obtain ⟨hzero, hI⟩ := hl x List.mem_cons_self hskip r.world hr
      rw [runTest_of_not_skips hskip]
      obtain ⟨hexit, hworld⟩ := ih htail (r := r.record 4 x.1.name _) hI
      exact ⟨hexit.trans (r.exitCode_record_of_eq_zero hzero 4 x.1.name), hworld⟩

/-- The tests of the table can only set their own bit. -/
theorem exitCode_foldl_runTest (t : Machine C) (g : Buffer) (testmask : Ul)
    (l : List (Test C × ℕ)) (r : Run C) :
    (l.foldl (runTest t g testmask) r).exitCode = r.exitCode ∨
      (l.foldl (runTest t g testmask) r).exitCode = r.exitCode ||| 4 := by
  induction l generalizing r with
  | nil => exact Or.inl rfl
  | cons x l ih =>
    rw [List.foldl_cons]
    by_cases hskip : Skips testmask x.2
    · rw [runTest_of_skips hskip]
      exact ih r
    · rw [runTest_of_not_skips hskip]
      have hrest := ih (r.record 4 x.1.name (x.1.fp t g.halves r.world))
      by_cases hzero : (x.1.fp t g.halves r.world).1 = 0
      · rwa [r.exitCode_record_of_eq_zero hzero] at hrest
      · rw [r.exitCode_record_of_ne_zero hzero, BitVec.or_assoc, BitVec.or_self, or_self] at hrest
        exact Or.inr hrest

/-- A test that is selected and fails sets the bit. -/
theorem exitCode_foldl_runTest_of_fails {l : List (Test C × ℕ)} {x : Test C × ℕ} (hx : x ∈ l)
    (hskip : ¬ Skips testmask x.2) (hfail : ∀ w, (x.1.fp t g.halves w).1 ≠ 0) (r : Run C) :
    (l.foldl (runTest t g testmask) r).exitCode = r.exitCode ||| 4 := by
  obtain ⟨before, after, rfl⟩ := List.append_of_mem hx
  rw [List.foldl_append, List.foldl_cons, runTest_of_not_skips hskip]
  generalize hmid : before.foldl (runTest t g testmask) r = mid
  have hbefore := exitCode_foldl_runTest t g testmask before r
  have hafter := exitCode_foldl_runTest t g testmask after
    (mid.record 4 x.1.name (x.1.fp t g.halves mid.world))
  rw [hmid] at hbefore
  rw [mid.exitCode_record_of_ne_zero (hfail mid.world), BitVec.or_assoc, BitVec.or_self,
    or_self] at hafter
  rw [hafter]
  rcases hbefore with h | h
  · rw [h]
  · rw [h, BitVec.or_assoc, BitVec.or_self]

end Pass

variable [DecidableEq C]

section Tests

variable {t : Machine C} {g : Buffer} {testmask : Ul}

/-- The tests that change the words in place. -/
theorem operations_of_mirrored (hs : Separate t g.halves) (hsame : SameFaults t g.halves) :
    ∀ x ∈ ((tests (C := C)).zipIdx.drop 1).take 6, ∀ w, Mirrored t g.halves w.mem →
      (x.1.fp t g.halves w).1 = 0 ∧ Mirrored t g.halves (x.1.fp t g.halves w).2.mem := by
  simp only [tests, List.zipIdx_cons, List.drop_succ_cons, List.drop_zero, List.take_succ_cons,
    List.take_zero, List.forall_mem_cons]
  exact ⟨fun w => operation_of_mirrored hs hsame _, fun w => operation_of_mirrored hs hsame _,
    fun w => operation_of_mirrored hs hsame _, fun w => operation_of_mirrored hs hsame _,
    fun w => operation_of_mirrored hs hsame _, fun w => operation_of_mirrored hs hsame _,
    fun x hx => absurd hx List.not_mem_nil⟩

/-- The tests that write both halves first. -/
theorem patterns_of_sameFaults (hs : Separate t g.halves) (hsame : SameFaults t g.halves) :
    ∀ x ∈ (tests (C := C)).zipIdx.drop 7, ∀ w, (x.1.fp t g.halves w).1 = 0 := by
  simp only [tests, List.zipIdx_cons, List.zipIdx_nil, List.drop_succ_cons, List.drop_zero,
    List.forall_mem_cons]
  exact ⟨testSeqincComparison_of_sameFaults hs hsame, comparePatterns_of_sameFaults hs hsame _,
    comparePatterns_of_sameFaults hs hsame _, comparePatterns_of_sameFaults hs hsame _,
    comparePatterns_of_sameFaults hs hsame _, comparePatterns_of_sameFaults hs hsame _,
    comparePatterns_of_sameFaults hs hsame _, comparePatterns_of_sameFaults hs hsame _,
    wideRandom_of_sameFaults hs hsame (Or.inl rfl), wideRandom_of_sameFaults hs hsame (Or.inr rfl),
    fun x hx => absurd hx List.not_mem_nil⟩

theorem mem_operations_index :
    ∀ x ∈ ((tests (C := C)).zipIdx.drop 1).take 6, 1 ≤ x.2 ∧ x.2 ≤ 6 := by
  simp [tests]

/-- **The tests of the table pass** on halves with the same faults, with each mask that turns on the
test of random values where it is needed. -/
theorem exitCode_tests_of_sameFaults (hs : Separate t g.halves) (hsame : SameFaults t g.halves)
    (hmask : Enabled testmask) (r : Run C) :
    (tests.zipIdx.foldl (runTest t g testmask) r).exitCode = r.exitCode := by
  have htable : (tests (C := C)).zipIdx = (⟨"Random Value".toList, testRandomValue⟩, 0) ::
      (((tests (C := C)).zipIdx.drop 1).take 6 ++ (tests (C := C)).zipIdx.drop 7) := rfl
  have hrest : ∀ r : Run C, (((tests (C := C)).zipIdx.drop 7).foldl
      (runTest t g testmask) r).exitCode = r.exitCode := fun r =>
    (foldl_runTest_of_invariant (I := fun _ => True)
      (fun x hx _ w _ => ⟨patterns_of_sameFaults hs hsame x hx w, trivial⟩) trivial).1
  rw [htable, List.foldl_cons, List.foldl_append, hrest]
  by_cases hskip : Skips testmask 0
  · -- None of the tests that need equal halves is run.
    rw [runTest_of_skips hskip]
    exact (foldl_runTest_of_invariant (I := fun _ => True)
      (fun x hx hx' => absurd (hmask.skips hskip (mem_operations_index x hx)) hx') trivial).1
  · obtain ⟨hzero, hmirrored⟩ := testRandomValue_of_sameFaults hs hsame r.world
    rw [runTest_of_not_skips hskip]
    exact (foldl_runTest_of_invariant (I := fun w => Mirrored t g.halves w.mem)
      (fun x hx _ => operations_of_mirrored hs hsame x hx)
      (r := r.record 4 "Random Value".toList (testRandomValue t g.halves r.world))
      hmirrored).1.trans (r.exitCode_record_of_eq_zero hzero 4 _)

/-- Halves with different faults are found by the solid bits. -/
theorem exitCode_tests_of_not_sameFaults (hs : Separate t g.halves)
    (hsame : ¬ SameFaults t g.halves) (hsolid : ¬ Skips testmask 8) (r : Run C) :
    (tests.zipIdx.foldl (runTest t g testmask) r).exitCode = r.exitCode ||| 4 := by
  have hmem : (⟨"Solid Bits".toList, testSolidbitsComparison⟩, 8) ∈ (tests (C := C)).zipIdx := by
    rw [List.mk_mem_zipIdx_iff_getElem?]
    rfl
  exact exitCode_foldl_runTest_of_fails hmem hsolid
    (fun w hzero => hsame ((testSolidbitsComparison_eq_zero_iff hs w).mp hzero)) r

end Tests

section Codes

variable {t : Machine C} {g : Region} {testmask : Ul}

theorem testStuckAddress_region (t : Machine C) (g : Region) (w : World C) :
    (testStuckAddress t g.aligned (g.bufsize / 4) w).1 = 0 ↔
      Faultless t.ram g.aligned (g.bufsize / 4) :=
  testStuckAddress_eq_zero_iff_faultless (by have := g.fits; omega) w

/-- **A pass over a memory without faults** leaves the exit code alone. -/
theorem exitCode_loopBody_of_faultless (h : Faultless t.ram g.aligned (g.bufsize / 4))
    (hmask : Enabled testmask) (r : Run C) :
    (loopBody t g.toBuffer testmask r).exitCode = r.exitCode := by
  rw [loopBody, exitCode_tests_of_sameFaults h.injective.separate h.sameFaults hmask]
  exact r.exitCode_record_of_eq_zero ((testStuckAddress_region t g r.world).mpr h) 2 _

/-- The test of the address lines sets its bit for every fault. -/
theorem exitCode_runStuckAddress (h : ¬ Faultless t.ram g.aligned (g.bufsize / 4)) (r : Run C) :
    (runStuckAddress t g.toBuffer r).exitCode = r.exitCode ||| 2 :=
  r.exitCode_record_of_ne_zero (fun hzero => h ((testStuckAddress_region t g r.world).mp hzero)) 2 _

theorem exitCode_loopBody_of_not_faultless (h : ¬ Faultless t.ram g.aligned (g.bufsize / 4))
    (testmask : Ul) (r : Run C) :
    (loopBody t g.toBuffer testmask r).exitCode = r.exitCode ||| 2 ∨
      (loopBody t g.toBuffer testmask r).exitCode = r.exitCode ||| 6 := by
  have hcode := exitCode_foldl_runTest t g.toBuffer testmask tests.zipIdx
    (runStuckAddress t g.toBuffer r)
  rw [exitCode_runStuckAddress h, BitVec.or_assoc] at hcode
  exact hcode

theorem exitCode_loopBody_of_sameFaults (hinj : Injective t.ram g.aligned (g.bufsize / 4))
    (h : ¬ Faultless t.ram g.aligned (g.bufsize / 4)) (hsame : SameFaults t g.halves)
    (hmask : Enabled testmask) (r : Run C) :
    (loopBody t g.toBuffer testmask r).exitCode = r.exitCode ||| 2 := by
  rw [loopBody, exitCode_tests_of_sameFaults hinj.separate hsame hmask]
  exact exitCode_runStuckAddress h r

theorem exitCode_loopBody_of_not_sameFaults (hinj : Injective t.ram g.aligned (g.bufsize / 4))
    (hsame : ¬ SameFaults t g.halves) (hsolid : ¬ Skips testmask 8) (r : Run C) :
    (loopBody t g.toBuffer testmask r).exitCode = r.exitCode ||| 6 := by
  rw [loopBody, exitCode_tests_of_not_sameFaults hinj.separate hsame hsolid,
    exitCode_runStuckAddress fun h => hsame h.sameFaults, BitVec.or_assoc]
  rfl

end Codes

/-! ## All passes -/

section AllPasses

variable {t : Machine C} {g : Buffer} {testmask loops : Ul}

omit [DecidableEq C] in
/-- Passes that all set the same bits. -/
theorem exitCode_iterate {f : Run C → Run C} {code : BitVec 32}
    (hf : ∀ r, (f r).exitCode = r.exitCode ||| code) (n : ℕ) {r : Run C} (hr : r.exitCode = 0) :
    (f^[n + 1] r).exitCode = code := by
  induction n with
  | zero =>
    rw [Function.iterate_one, hf, hr]
    exact BitVec.zero_or
  | succ n ih => rw [Function.iterate_succ_apply', hf, ih, BitVec.or_self]

omit [DecidableEq C] in
/-- Passes that all set the bit for the address lines. -/
theorem exitCode_iterate_of_or {f : Run C → Run C}
    (hf : ∀ r, (f r).exitCode = r.exitCode ||| 2 ∨ (f r).exitCode = r.exitCode ||| 6) (n : ℕ)
    {r : Run C} (hr : r.exitCode = 0) :
    (f^[n + 1] r).exitCode = 2 ∨ (f^[n + 1] r).exitCode = 6 := by
  induction n with
  | zero =>
    rw [Function.iterate_one]
    rcases hf r with hlast | hlast <;> rw [hlast, hr]
    · exact Or.inl rfl
    · exact Or.inr rfl
  | succ n ih =>
    rw [Function.iterate_succ_apply']
    rcases hf (f^[n + 1] r) with hlast | hlast <;> rcases ih with hbefore | hbefore <;>
      rw [hlast, hbefore]
    · exact Or.inl rfl
    · exact Or.inr rfl
    · exact Or.inr rfl
    · exact Or.inr rfl

theorem iterate_testLoop (k : ℕ) (r : Run C) :
    (fun x : Ul × Run C => (x.1 + 1, loopBody t g testmask x.2))^[k] (1, r) =
      (BitVec.ofNat 32 (k + 1), (loopBody t g testmask)^[k] r) := by
  induction k with
  | zero => rfl
  | succ k ih =>
    rw [Function.iterate_succ_apply', ih, Function.iterate_succ_apply', BitVec.ofNat_add (k + 1)]
    rfl

/-- **As many passes as were asked for.** -/
theorem testLoop_toNat (t : Machine C) (g : Buffer) (testmask : Ul) (h0 : loops ≠ 0)
    (h1 : loops ≠ BitVec.allOnes 32) (r : Run C) :
    testLoop t g testmask loops loops.toNat r =
      some ((loopBody t g testmask)^[loops.toNat] r) := by
  have hlt := loops.isLt
  have hmax : loops.toNat ≠ 2 ^ 32 - 1 := fun h => h1 (BitVec.eq_of_toNat_eq (by simpa using h))
  have hstop : ∀ k ≤ loops.toNat, (BitVec.ofNat 32 (k + 1) ≤ loops ↔ k < loops.toNat) := by
    intro k hk
    rw [BitVec.le_def, BitVec.toNat_ofNat, Nat.mod_eq_of_lt (by omega), Nat.succ_le_iff]
  unfold testLoop
  rw [whileLoop_iterate, iterate_testLoop]
  · rfl
  · rw [iterate_testLoop, hstop _ (Nat.le_refl _)]
    exact not_or_intro h0 (Nat.lt_irrefl _)
  · intro k hk
    rw [iterate_testLoop, hstop k hk.le]
    exact Or.inr hk

/-- **When the loop ends**: a number of passes that is zero, or the largest one, is without an
end. -/
theorem exists_testLoop_iff (t : Machine C) (g : Buffer) (testmask loops : Ul) (r : Run C) :
    (∃ fuel r', testLoop t g testmask loops fuel r = some r') ↔
      loops ≠ 0 ∧ loops ≠ BitVec.allOnes 32 := by
  constructor
  · rintro ⟨fuel, r', hr'⟩
    obtain ⟨x, hx, -⟩ := Option.map_eq_some_iff.mp hr'
    obtain ⟨k, rfl, hstop, -⟩ := exists_iterate_of_whileLoop hx
    rw [not_or] at hstop
    refine ⟨hstop.1, fun hmax => hstop.2 ?_⟩
    rw [hmax, BitVec.le_def, BitVec.toNat_allOnes]
    have := (((fun x : Ul × Run C => (x.1 + 1, loopBody t g testmask x.2))^[k] (1, r)).1).isLt
    omega
  · rintro ⟨h0, h1⟩
    exact ⟨_, _, testLoop_toNat t g testmask h0 h1 r⟩

theorem testLoop_eq_some (t : Machine C) (g : Buffer) (testmask : Ul) (h0 : loops ≠ 0)
    (h1 : loops ≠ BitVec.allOnes 32) (r : Run C) :
    ∃ n, testLoop t g testmask loops loops.toNat r = some ((loopBody t g testmask)^[n + 1] r) := by
  have hpos : loops.toNat ≠ 0 := fun h => h0 (BitVec.eq_of_toNat_eq h)
  obtain ⟨n, hn⟩ := Nat.exists_eq_succ_of_ne_zero hpos
  refine ⟨n, ?_⟩
  rw [testLoop_toNat t g testmask h0 h1, hn]

theorem exitCode_iterate_of_faultless {g : Region} (h : Faultless t.ram g.aligned (g.bufsize / 4))
    (hmask : Enabled testmask) (n : ℕ) (w : World C) :
    ((loopBody t g.toBuffer testmask)^[n] ⟨0, w, []⟩).exitCode = 0 := by
  induction n with
  | zero => rfl
  | succ n ih => rw [Function.iterate_succ_apply', exitCode_loopBody_of_faultless h hmask, ih]

theorem exitCode_iterate_eq_zero_iff {g : Region} (hmask : Enabled testmask) (n : ℕ) (w : World C) :
    ((loopBody t g.toBuffer testmask)^[n + 1] ⟨0, w, []⟩).exitCode = 0 ↔
      Faultless t.ram g.aligned (g.bufsize / 4) := by
  by_cases h : Faultless t.ram g.aligned (g.bufsize / 4)
  · exact iff_of_true (exitCode_iterate_of_faultless h hmask (n + 1) w) h
  · refine iff_of_false ?_ h
    have hcode := exitCode_iterate_of_or (exitCode_loopBody_of_not_faultless h testmask) n
      (r := ⟨0, w, []⟩) rfl
    rcases hcode with hr | hr
    · rw [hr]
      decide
    · rw [hr]
      decide

/-- **The exit code finds every fault**: whatever the memory held before, and with each mask of the
user, it is zero exactly if no two words of the buffer are aliases and no bit is stuck. -/
theorem exitCode_testLoop_eq_zero_iff (t : Machine C) (g : Region) (testmask : Ul) (w : World C)
    (loops : Ul) (h0 : loops ≠ 0) (h1 : loops ≠ BitVec.allOnes 32) :
    ∃ fuel r, testLoop t g.toBuffer (enableRandomValue testmask) loops fuel ⟨0, w, []⟩ = some r ∧
      (r.exitCode = 0 ↔ Faultless t.ram g.aligned (g.bufsize / 4)) := by
  obtain ⟨n, hn⟩ := testLoop_eq_some t g.toBuffer (enableRandomValue testmask) h0 h1 ⟨0, w, []⟩
  exact ⟨_, _, hn, exitCode_iterate_eq_zero_iff (enabled_enableRandomValue testmask) n w⟩

/-- A pass over a memory without faults ends with zero. -/
theorem exitCode_testLoop_dataLines_zero :
    ∃ fuel r, testLoop (dataLines 0) sixteenWords.toBuffer (enableRandomValue 0x7E) 1 fuel
      ⟨0, ⟨fun _ => 0, 0, []⟩, []⟩ = some r ∧ r.exitCode = 0 := by
  obtain ⟨fuel, r, hr, hiff⟩ := exitCode_testLoop_eq_zero_iff (dataLines 0) sixteenWords 0x7E
    ⟨fun _ => 0, 0, []⟩ 1 (by decide) (by decide)
  exact ⟨fuel, r, hr, hiff.mpr (faultless_dataLines _ _)⟩

/-- **The exit codes of a memory without aliases**: two if the same bits are stuck in both halves,
as with a stuck data line, and six if not. The bit for the other tests is never set alone. -/
theorem exitCode_testLoop_of_injective (t : Machine C) (g : Region) (w : World C)
    (hinj : Injective t.ram g.aligned (g.bufsize / 4)) (loops : Ul) (h0 : loops ≠ 0)
    (h1 : loops ≠ BitVec.allOnes 32) :
    ∃ fuel r, testLoop t g.toBuffer 0 loops fuel ⟨0, w, []⟩ = some r ∧
      (Faultless t.ram g.aligned (g.bufsize / 4) ∧ r.exitCode = 0 ∨
        ¬ Faultless t.ram g.aligned (g.bufsize / 4) ∧ SameFaults t g.halves ∧ r.exitCode = 2 ∨
        ¬ SameFaults t g.halves ∧ r.exitCode = 6) := by
  have hmask : Enabled 0 := Or.inl rfl
  obtain ⟨n, hn⟩ := testLoop_eq_some t g.toBuffer 0 h0 h1 ⟨0, w, []⟩
  refine ⟨_, _, hn, ?_⟩
  by_cases hsame : SameFaults t g.halves
  · by_cases h : Faultless t.ram g.aligned (g.bufsize / 4)
    · exact Or.inl ⟨h, exitCode_iterate_of_faultless h hmask (n + 1) w⟩
    · exact Or.inr (Or.inl ⟨h, hsame,
        exitCode_iterate (exitCode_loopBody_of_sameFaults hinj h hsame hmask) n rfl⟩)
  · exact Or.inr (Or.inr ⟨hsame,
      exitCode_iterate (exitCode_loopBody_of_not_sameFaults hinj hsame fun h => h.1 rfl) n rfl⟩)

/-- A stuck data line is reported as a bad address line. -/
theorem exitCode_testLoop_dataLines_one :
    ∃ fuel r, testLoop (dataLines 1) sixteenWords.toBuffer 0 1 fuel
      ⟨0, ⟨fun _ => 0, 0, []⟩, []⟩ = some r ∧ r.exitCode = 2 := by
  have hsame : SameFaults (dataLines 1) sixteenWords.halves := fun _ _ => rfl
  have hfault : ¬ Faultless (dataLines 1).ram sixteenWords.aligned (sixteenWords.bufsize / 4) :=
    fun h => absurd (h.2 0 (by decide)).2 (by decide)
  obtain ⟨fuel, r, hr, hcode⟩ := exitCode_testLoop_of_injective (dataLines 1) sixteenWords
    ⟨fun _ => 0, 0, []⟩ (injective_dataLines 1 _ _) 1 (by decide) (by decide)
  refine ⟨fuel, r, hr, ?_⟩
  rcases hcode with ⟨h, -⟩ | ⟨-, -, hcode⟩ | ⟨h, -⟩
  · exact absurd h hfault
  · exact hcode
  · exact absurd hsame h

end AllPasses

/-! ## The mask without the test of random values -/

section Mask

variable {t : Machine C} {g : Region}

/-- The test of the address lines leaves the halves of a memory without faults different. -/
theorem read_halves_ne (h : Faultless t.ram g.aligned (g.bufsize / 4)) (r : Run C) {i : ℕ}
    (hi : i < g.halves.count) :
    t.ram.read (runStuckAddress t g.toBuffer r).world.mem (word g.halves.bufa i) ≠
      t.ram.read (runStuckAddress t g.toBuffer r).world.mem (word g.halves.bufb i) := by
  have hfit : g.aligned + 4 * (g.bufsize / 4) ≤ 2 ^ 32 := by
    have := g.fits
    omega
  have hlt := g.count_add_lt hi
  intro heq
  rw [g.word_bufb] at heq
  have hread := read_testStuckAddress h hfit r.world (i := i) (by omega)
  have hread' := read_testStuckAddress h hfit r.world hlt
  have hinj := addressPattern_injective hfit 15 i (by omega) _ hlt
    (hread.symm.trans (heq.trans hread'))
  omega

theorem not_skips_or {testmask : Ul} (h : testmask &&& 0x6 ≠ 0) :
    ¬ Skips testmask 1 ∨ ¬ Skips testmask 2 := by
  by_contra hall
  rw [not_or, not_not, not_not] at hall
  obtain ⟨⟨-, h1⟩, -, h2⟩ := hall
  have hbits : (0x6 : Ul) = (1 : Ul) <<< 1 ||| (1 : Ul) <<< 2 := rfl
  apply h
  ext i hi
  have hbit1 := congrArg (fun x : Ul => x[i]) h1
  have hbit2 := congrArg (fun x : Ul => x[i]) h2
  rw [hbits]
  simp only [BitVec.getElem_and, BitVec.getElem_or] at hbit1 hbit2 ⊢
  revert hbit1 hbit2
  cases testmask[i] <;> simp_all

/-- **Why the test of random values is turned on**: with the mask of the user alone, a comparison
of the halves after an exclusive or, or after a subtraction, fails on a memory without faults. -/
theorem exitCode_loopBody_of_not_enabled (h : Faultless t.ram g.aligned (g.bufsize / 4))
    (hsize : 8 ≤ g.bufsize) {testmask : Ul} (hrandom : testmask &&& 0x1 = 0)
    (hmask : testmask &&& 0x6 ≠ 0) (r : Run C) :
    (loopBody t g.toBuffer testmask r).exitCode = r.exitCode ||| 4 := by
  have hcount : 0 < g.halves.count := by
    simp only [Buffer.halves]
    omega
  have hskip : Skips testmask 0 := by
    refine ⟨fun hzero => hmask ?_, ?_⟩
    · rw [hzero]
      exact BitVec.zero_and
    · rw [BitVec.and_comm]
      exact hrandom
  have hstuck : (runStuckAddress t g.toBuffer r).exitCode = r.exitCode :=
    r.exitCode_record_of_eq_zero ((testStuckAddress_region t g r.world).mpr h) 2 _
  have hlt := g.count_add_lt hcount
  have hfail {op : Ul → Ul → Ul} (hop : ∀ q, Function.Injective fun x => op x q) :
      (operation t g.halves op (runStuckAddress t g.toBuffer r).world).1 ≠ 0 :=
    operation_ne_zero h.injective.separate hop hcount (h.2 0 (by omega))
      (g.word_bufb 0 ▸ h.2 _ hlt) (read_halves_ne h r hcount)
  have htable : (tests (C := C)).zipIdx = (⟨"Random Value".toList, testRandomValue⟩, 0) ::
      (⟨"Compare XOR".toList, testXorComparison⟩, 1) ::
      (⟨"Compare SUB".toList, testSubComparison⟩, 2) :: (tests (C := C)).zipIdx.drop 3 := rfl
  -- The first test that is run fails, and the others only set the bit again.
  have hrest (l : List (Test C × ℕ)) (r' : Run C) (hr' : r'.exitCode = r.exitCode ||| 4) :
      (l.foldl (runTest t g.toBuffer testmask) r').exitCode = r.exitCode ||| 4 := by
    rcases exitCode_foldl_runTest t g.toBuffer testmask l r' with hl | hl
    · rw [hl, hr']
    · rw [hl, hr', BitVec.or_assoc, BitVec.or_self]
  rw [loopBody, htable, List.foldl_cons, runTest_of_skips hskip, List.foldl_cons]
  by_cases hxor : Skips testmask 1
  · have hsub : ¬ Skips testmask 2 := (not_skips_or hmask).resolve_left (not_not_intro hxor)
    rw [runTest_of_skips hxor, List.foldl_cons, runTest_of_not_skips hsub]
    refine hrest _ _ ?_
    rw [Run.exitCode_record_of_ne_zero, hstuck]
    exact hfail fun q => sub_left_injective
  · rw [runTest_of_not_skips hxor]
    refine hrest _ _ ?_
    rw [Run.exitCode_record_of_ne_zero, hstuck]
    exact hfail fun q x y hxy => (BitVec.xor_left_inj q).mp hxy

/-- The comparison after an exclusive or, alone, fails on a memory without faults. -/
theorem exitCode_loopBody_xor_alone :
    (loopBody (dataLines 0) sixteenWords.toBuffer 0x2
      ⟨0, ⟨fun _ => 0, 0, []⟩, []⟩).exitCode = 0 ||| 4 :=
  exitCode_loopBody_of_not_enabled (faultless_dataLines _ _) (by decide) (by decide) (by decide) _

end Mask

/-! ## The exit code and the output -/

section Output

variable {t : Machine C} {g : Buffer} {testmask : Ul} {start : List CString}

/-- The exit code agrees with the lines on `stderr` since the start, and with the tests for which
`ok` was printed. -/
def Agrees (start : List CString) (r : Run C) : Prop :=
  ∃ lines, r.world.stderr = start ++ lines ∧ (lines = [] ↔ r.exitCode = 0) ∧
    (r.exitCode = 0 ↔ ∀ v ∈ r.verdicts, v.2 = true)

omit [DecidableEq C] in
/-- A test that reports its failures keeps the agreement. -/
theorem Agrees.record {r : Run C} (h : Agrees start r) {test : World C → ℤ × World C}
    (htest : Truthful test) {bit : BitVec 32} (hbit : bit ≠ 0) (name : CString) :
    Agrees start (r.record bit name (test r.world)) := by
  obtain ⟨before, hbefore, hlines, hverdicts⟩ := h
  obtain ⟨lines, hstderr, hzero⟩ := htest r.world
  have hor : r.exitCode ||| bit ≠ 0 := fun h => hbit (BitVec.or_eq_zero_iff.mp h).2
  refine ⟨before ++ lines, ?_, ?_, ?_⟩
  · rw [← List.append_assoc, ← hbefore]
    exact hstderr
  · by_cases hpass : (test r.world).1 = 0
    · rw [r.exitCode_record_of_eq_zero hpass, hzero.mpr hpass, List.append_nil]
      exact hlines
    · rw [r.exitCode_record_of_ne_zero hpass, List.append_eq_nil_iff]
      exact iff_of_false (fun h => hpass (hzero.mp h.2)) hor
  · have hsnoc : (∀ v ∈ (r.record bit name (test r.world)).verdicts, v.2 = true) ↔
        (∀ v ∈ r.verdicts, v.2 = true) ∧ (test r.world).1 = 0 := by
      simp [Run.record, or_imp, forall_and]
    rw [hsnoc, ← hverdicts]
    by_cases hpass : (test r.world).1 = 0
    · rw [r.exitCode_record_of_eq_zero hpass]
      exact ⟨fun h => ⟨h, hpass⟩, fun h => h.1⟩
    · rw [r.exitCode_record_of_ne_zero hpass]
      exact iff_of_false hor fun h => hpass h.2

theorem truthful_tests (h : Halves) : ∀ x ∈ tests (C := C), Truthful (x.fp t h) := by
  have hset (v : World C → ℕ → Ul) (calls : ℕ) : Truthful fun w =>
      compareRegions t h (setWords t h (v w) { w with rand := w.rand + calls }) :=
    truthful_compareRegions _ fun _ => rfl
  simp only [tests, List.forall_mem_cons]
  exact ⟨hset (fun w i => t.randUl (w.rand + i)) h.count, truthful_operation _,
    truthful_operation _, truthful_operation _, truthful_operation _, truthful_operation _,
    truthful_operation _, hset (fun w i => BitVec.ofNat 32 i + t.randUl w.rand) 1,
    truthful_comparePatterns _, truthful_comparePatterns _, truthful_comparePatterns _,
    truthful_comparePatterns _, truthful_comparePatterns _, truthful_comparePatterns _,
    truthful_comparePatterns _, truthful_wideRandom 8, truthful_wideRandom 16,
    fun x hx => absurd hx List.not_mem_nil⟩

/-- A pass keeps the agreement. -/
theorem Agrees.loopBody {r : Run C} (h : Agrees start r) :
    Agrees start (MemoryTest.loopBody t g testmask r) := by
  refine List.foldlRecOn _ _ (h.record (truthful_testStuckAddress _ _) (by decide) _) ?_
  intro r hr x hx
  have hmem : x.1 ∈ tests (C := C) := List.fst_mem_of_mem_zipIdx hx
  by_cases hskip : Skips testmask x.2
  · rw [runTest_of_skips hskip]
    exact hr
  · rw [runTest_of_not_skips hskip]
    exact hr.record (truthful_tests g.halves x.1 hmem) (by decide) x.1.name

/-- **The exit code agrees with the output**: on every machine and after every number of passes it
is zero exactly if nothing was reported, and exactly if `ok` was printed for every test. -/
theorem loopBody_iterate_agrees (t : Machine C) (g : Buffer) (testmask : Ul) (w : World C) (n : ℕ) :
    let r := (MemoryTest.loopBody t g testmask)^[n] ⟨0, w, []⟩
    (r.exitCode = 0 ↔ r.world.stderr = w.stderr) ∧
      (r.exitCode = 0 ↔ ∀ v ∈ r.verdicts, v.2 = true) := by
  have hagrees : Agrees w.stderr ((MemoryTest.loopBody t g testmask)^[n] ⟨0, w, []⟩) := by
    induction n with
    | zero =>
      exact ⟨[], (List.append_nil _).symm, iff_of_true rfl rfl,
        iff_of_true rfl fun v hv => absurd hv List.not_mem_nil⟩
    | succ n ih =>
      rw [Function.iterate_succ_apply']
      exact ih.loopBody
  obtain ⟨lines, hstderr, hlines, hverdicts⟩ := hagrees
  refine ⟨?_, hverdicts⟩
  rw [hstderr, List.append_right_eq_self]
  exact hlines.symm

end Output

end LinuxTest.MemoryTest
