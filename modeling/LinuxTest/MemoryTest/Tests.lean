import LinuxTest.Foundations.FaultyMemory
import LinuxTest.Libc

/-!
# The tests of the memory tester

`memory_test/memtester/tests.c`, for a machine with words of 32 bits and with the narrow tests that
the build turns on. All tests but one compare two halves of the memory that were treated alike. The
other one writes to every word of the memory its own address, or the complement of it, and reads it
back.

The memory may have any decoder and any bits that are stuck. The results of `rand_ul`, and of a
shift by the width of a word or more, which C leaves undefined, are parameters. Of the output the
lines on `stderr` are kept; the marks of progress on `stdout` are left out.

## Main definitions

* `Machine`, `World`: what the tests run on, and what they change
* `compareRegions`: the function `compare_regions`
* `testStuckAddress`: the test of the address lines
* `testRandomValue`, .., `test16bitWideRandom`: the tests that compare two halves
* `Mirrored`: the halves are read alike

## Main results

* `compareRegions_eq`: what is returned and reported
* `testStuckAddress_eq_zero_iff_faultless`: what the test of the address lines finds
* `comparePatterns_eq_zero_iff`: what the tests with fixed patterns find
* `operation_of_mirrored`: what the tests that change the words in place need
-/

namespace LinuxTest.MemoryTest

open Foundations

variable {C : Type}

/-! ## Words, memory and output -/

/-- The type `ul`. -/
abbrev Ul := BitVec 32

/-- What the tests run on. -/
structure Machine (C : Type) where
  /-- The memory: words at addresses of bytes. -/
  ram : Ram ℕ C 32
  /-- The results of `rand_ul`, in the order of the calls. -/
  randUl : ℕ → Ul
  /-- The value of `ONE << n` for an `n` that is too large. -/
  shiftOut : ℕ → Ul
  /-- The variable `physaddrbase`, if `use_phys` is set. -/
  physaddrbase : Option (BitVec 64)

/-- What the tests change: the memory, the number of calls of `rand_ul`, and `stderr`. -/
structure World (C : Type) where
  mem : C → Ul
  rand : ℕ
  stderr : List CString

/-- A line on `stderr`. -/
def World.fprintf (w : World C) (line : CString) : World C :=
  { w with stderr := w.stderr ++ [line] }

/-- The two halves that are compared. -/
structure Halves where
  bufa : ℕ
  bufb : ℕ
  count : ℕ

/-- The address of the `i`-th word after `p`. -/
def word (p i : ℕ) : ℕ := p + 4 * i

/-- The value of `ONE << n`. -/
def Machine.one (t : Machine C) (n : ℕ) : Ul := if n < 32 then (1 : Ul) <<< n else t.shiftOut n

/-- The macro `UL_ONEBITS`. -/
def ulOnebits : Ul := 0xffffffff

/-- The macro `UL_BYTE`. -/
def ulByte (x : Ul) : Ul := x ||| x <<< 8 ||| x <<< 16 ||| x <<< 24

/-- Where the `i`-th word is. A physical address is longer than the number that is printed. -/
def Machine.location (t : Machine C) (i : ℕ) : CString :=
  match t.physaddrbase with
  | some base =>
    "physical address 0x".toList ++
      lowerHex 8 ((base + BitVec.ofNat 64 (i * 4)).setWidth 32).toNat
  | none => "offset 0x".toList ++ lowerHex 8 (i * 4)

/-- The report of two words that differ. -/
def Machine.mismatch (t : Machine C) (p1 p2 : Ul) (i : ℕ) : CString :=
  "FAILURE: 0x".toList ++ lowerHex 8 p1.toNat ++ " != 0x".toList ++ lowerHex 8 p2.toNat ++
    " at ".toList ++ t.location i ++ ".\n".toList

/-- The report of a word that is not read back. -/
def Machine.badAddressLine (t : Machine C) (i : ℕ) : CString :=
  "FAILURE: possible bad address line at ".toList ++ t.location i ++ ".\n".toList

/-! ## The tests -/

section Tests

variable [DecidableEq C] (t : Machine C) (h : Halves)

/-- The function `compare_regions`. -/
def compareRegions (w : World C) : ℤ × World C :=
  forLoop h.count (fun i x =>
    let p1 := t.ram.read x.2.mem (word h.bufa i)
    let p2 := t.ram.read x.2.mem (word h.bufb i)
    if p1 ≠ p2 then (-1, x.2.fprintf (t.mismatch p1 p2 i)) else x) (0, w)

/-- The loop `*p1++ = *p2++ = v(i)`. -/
def setWords (v : ℕ → Ul) (w : World C) : World C :=
  { w with
    mem := forLoop h.count (fun i m =>
      t.ram.write (t.ram.write m (word h.bufb i) (v i)) (word h.bufa i) (v i)) w.mem }

/-- The loop `*p1++ = op(*p1); *p2++ = op(*p2)`. -/
def updateWords (op : Ul → Ul) (w : World C) : World C :=
  { w with
    mem := forLoop h.count (fun i m =>
      let m := t.ram.write m (word h.bufa i) (op (t.ram.read m (word h.bufa i)))
      t.ram.write m (word h.bufb i) (op (t.ram.read m (word h.bufb i)))) w.mem }

/-- What the `i`-th word is set to in round `j` of the test of the address lines. -/
def addressPattern (bufa j i : ℕ) : Ul :=
  if (j + i) % 2 = 0 then BitVec.ofNat 32 (word bufa i) else ~~~BitVec.ofNat 32 (word bufa i)

/-- The second loop of a round: it returns at the first word that is not read back. -/
def checkAddresses (bufa count j : ℕ) (w : World C) : ℤ × World C :=
  match (List.range count).find? fun i =>
    t.ram.read w.mem (word bufa i) ≠ addressPattern bufa j i with
  | some i => (-1, w.fprintf (t.badAddressLine i))
  | none => (0, w)

/-- A round of `test_stuck_address`. -/
def stuckAddressRound (bufa count j : ℕ) (w : World C) : ℤ × World C :=
  checkAddresses t bufa count j
    { w with mem := t.ram.fill (word bufa) (addressPattern bufa j) count w.mem }

/-- The function `test_stuck_address`. -/
def testStuckAddress (bufa count : ℕ) : World C → ℤ × World C :=
  untilFailure ((List.range 16).map (stuckAddressRound t bufa count))

/-- The function `test_random_value`. -/
def testRandomValue (w : World C) : ℤ × World C :=
  compareRegions t h
    (setWords t h (fun i => t.randUl (w.rand + i)) { w with rand := w.rand + h.count })

/-- A test that combines each word with the random number `q`. -/
def operation (op : Ul → Ul → Ul) (w : World C) : ℤ × World C :=
  let q := t.randUl w.rand
  compareRegions t h (updateWords t h (fun x => op x q) { w with rand := w.rand + 1 })

/-- The function `test_xor_comparison`. -/
def testXorComparison : World C → ℤ × World C := operation t h fun x q => x ^^^ q

/-- The function `test_sub_comparison`. -/
def testSubComparison : World C → ℤ × World C := operation t h fun x q => x - q

/-- The function `test_mul_comparison`. -/
def testMulComparison : World C → ℤ × World C := operation t h fun x q => x * q

/-- The function `test_div_comparison`. A divisor that is zero becomes one before the first
division. -/
def testDivComparison : World C → ℤ × World C :=
  operation t h fun x q => x / if q = 0 then q + 1 else q

/-- The function `test_or_comparison`. -/
def testOrComparison : World C → ℤ × World C := operation t h fun x q => x ||| q

/-- The function `test_and_comparison`. -/
def testAndComparison : World C → ℤ × World C := operation t h fun x q => x &&& q

/-- The function `test_seqinc_comparison`. -/
def testSeqincComparison (w : World C) : ℤ × World C :=
  let q := t.randUl w.rand
  compareRegions t h (setWords t h (fun i => BitVec.ofNat 32 i + q) { w with rand := w.rand + 1 })

/-- A test that sets both halves to one pattern after the other. -/
def comparePatterns (patterns : List (ℕ → Ul)) : World C → ℤ × World C :=
  untilFailure (patterns.map fun v w => compareRegions t h (setWords t h v w))

/-- The words are `q` and its complement in turn. -/
def alternate (q : Ul) (i : ℕ) : Ul := if i % 2 = 0 then q else ~~~q

/-- The function `test_solidbits_comparison`. -/
def testSolidbitsComparison : World C → ℤ × World C :=
  comparePatterns t h ((List.range 64).map fun j => alternate (if j % 2 = 0 then ulOnebits else 0))

/-- The function `test_checkerboard_comparison`. -/
def testCheckerboardComparison : World C → ℤ × World C :=
  comparePatterns t h
    ((List.range 64).map fun j => alternate (if j % 2 = 0 then 0x55555555 else 0xaaaaaaaa))

/-- The function `test_blockseq_comparison`. -/
def testBlockseqComparison : World C → ℤ × World C :=
  comparePatterns t h ((List.range 256).map fun j _ => ulByte (BitVec.ofNat 32 j))

/-- The function `test_walkbits0_comparison`. -/
def testWalkbits0Comparison : World C → ℤ × World C :=
  comparePatterns t h
    ((List.range (32 * 2)).map fun j _ => if j < 32 then t.one j else t.one (32 * 2 - j - 1))

/-- The function `test_walkbits1_comparison`. -/
def testWalkbits1Comparison : World C → ℤ × World C :=
  comparePatterns t h
    ((List.range (32 * 2)).map fun j _ =>
      if j < 32 then ulOnebits ^^^ t.one j else ulOnebits ^^^ t.one (32 * 2 - j - 1))

/-- The two bits of a round of the next test. -/
def spread (j : ℕ) : Ul :=
  if j < 32 then t.one j ||| t.one (j + 2) else t.one (32 * 2 - 1 - j) ||| t.one (32 * 2 + 1 - j)

/-- The function `test_bitspread_comparison`. -/
def testBitspreadComparison : World C → ℤ × World C :=
  comparePatterns t h
    ((List.range (32 * 2)).map fun j i =>
      if i % 2 = 0 then spread t j else ulOnebits ^^^ spread t j)

/-- The patterns of the rounds that flip `q`. -/
def flips (q : Ul) : ℕ → List (ℕ → Ul)
  | 0 => []
  | n + 1 => alternate (~~~q) :: flips (~~~q) n

/-- The function `test_bitflip_comparison`. -/
def testBitflipComparison : World C → ℤ × World C :=
  comparePatterns t h ((List.range 32).flatMap fun k => flips (t.one k) 8)

/-- An attempt of a narrow test: random words are written whole after `p2`, and in parts of `width`
bits after `p1`. -/
def narrowAttempt (width : ℕ) (p1 p2 : ℕ) (w : World C) : World C :=
  { w with
    mem := forLoop h.count (fun i m =>
      let val := t.randUl (w.rand + i)
      forLoop (32 / width) (fun b m =>
        t.ram.writeMasked m (word p1 i) (BitVec.ofNat 32 (2 ^ width - 1) <<< (width * b)) val)
        (t.ram.write m (word p2 i) val)) w.mem
    rand := w.rand + h.count }

/-- A narrow test: first the second half is written in parts, and then the first one. -/
def wideRandom (width : ℕ) : World C → ℤ × World C :=
  untilFailure ([(h.bufb, h.bufa), (h.bufa, h.bufb)].map fun p w =>
    compareRegions t h (narrowAttempt t h width p.1 p.2 w))

/-- The function `test_8bit_wide_random`. -/
def test8bitWideRandom : World C → ℤ × World C := wideRandom t h 8

/-- The function `test_16bit_wide_random`. -/
def test16bitWideRandom : World C → ℤ × World C := wideRandom t h 16

end Tests

/-! ## Comparing -/

section Comparing

variable (t : Machine C) (h : Halves)

/-- The halves are read alike. -/
def Mirrored (m : C → Ul) : Prop :=
  ∀ i < h.count, t.ram.read m (word h.bufa i) = t.ram.read m (word h.bufb i)

/-- The report for the `i`-th words, if they differ. -/
def reportAt (m : C → Ul) (i : ℕ) : Option CString :=
  let p1 := t.ram.read m (word h.bufa i)
  let p2 := t.ram.read m (word h.bufb i)
  if p1 ≠ p2 then some (t.mismatch p1 p2 i) else none

instance (m : C → Ul) : Decidable (Mirrored t h m) := by unfold Mirrored; infer_instance

/-- **What `compare_regions` returns and reports**: one line for each pair of words that differ. -/
theorem compareRegions_eq (w : World C) :
    compareRegions t h w =
      (if Mirrored t h w.mem then 0 else -1,
        { w with stderr := w.stderr ++ (List.range h.count).filterMap (reportAt t h w.mem) }) := by
  unfold compareRegions Mirrored
  refine forLoop_invariant (I := fun n x => x =
    (if ∀ i < n, t.ram.read w.mem (word h.bufa i) = t.ram.read w.mem (word h.bufb i) then 0 else -1,
      { w with stderr := w.stderr ++ (List.range n).filterMap (reportAt t h w.mem) })) ?_ ?_
  · rintro n - x rfl
    simp only [List.range_succ, List.filterMap_append, Nat.forall_lt_succ_right]
    by_cases hn : t.ram.read w.mem (word h.bufa n) = t.ram.read w.mem (word h.bufb n)
    · simp [hn, reportAt]
    · simp [hn, reportAt, World.fprintf]
  · simp

theorem compareRegions_fst (w : World C) :
    (compareRegions t h w).1 = if Mirrored t h w.mem then 0 else -1 := by
  rw [compareRegions_eq]

@[simp] theorem mem_compareRegions (w : World C) : (compareRegions t h w).2.mem = w.mem := by
  rw [compareRegions_eq]

theorem compareRegions_eq_zero_iff (w : World C) :
    (compareRegions t h w).1 = 0 ↔ Mirrored t h w.mem := by
  rw [compareRegions_fst]
  by_cases hm : Mirrored t h w.mem
  · simp [hm]
  · simp [hm]

end Comparing

variable [DecidableEq C]

/-! ## The address lines -/

section AddressLines

variable {t : Machine C} {bufa count : ℕ}

/-- A range without faults: no two words are aliases, and no bit is stuck. -/
def Faultless (R : Ram ℕ C 32) (p n : ℕ) : Prop :=
  (∀ i < n, ∀ k < n, R.decode (word p i) = R.decode (word p k) → i = k) ∧
    ∀ i < n, R.Intact (R.decode (word p i))

omit [DecidableEq C] in
theorem faultless_zero (R : Ram ℕ C 32) (p : ℕ) : Faultless R p 0 :=
  ⟨fun i hi => absurd hi (Nat.not_lt_zero i), fun i hi => absurd hi (Nat.not_lt_zero i)⟩

omit [DecidableEq C] in
theorem checkAddresses_eq_zero_iff (j : ℕ) (w : World C) :
    (checkAddresses t bufa count j w).1 = 0 ↔
      ∀ i < count, t.ram.read w.mem (word bufa i) = addressPattern bufa j i := by
  unfold checkAddresses
  cases hfind : (List.range count).find? fun i =>
    t.ram.read w.mem (word bufa i) ≠ addressPattern bufa j i with
  | some i =>
    have hbad : t.ram.read w.mem (word bufa i) ≠ addressPattern bufa j i := by
      simpa using List.find?_some hfind
    have hi := List.mem_range.mp (List.mem_of_find?_eq_some hfind)
    exact iff_of_false (Int.negSucc_ne_zero 0) fun hall => hbad (hall i hi)
  | none =>
    refine iff_of_true rfl fun i hi => ?_
    have hgood := List.find?_eq_none.mp hfind i (List.mem_range.mpr hi)
    simpa using hgood

omit [DecidableEq C] in
@[simp] theorem mem_checkAddresses (j : ℕ) (w : World C) :
    (checkAddresses t bufa count j w).2.mem = w.mem := by
  unfold checkAddresses
  split <;> rfl

/-- The words that a round writes are all different: an address is never the complement of another,
since both are a multiple of four after the same start. -/
theorem addressPattern_injective (hfit : bufa + 4 * count ≤ 2 ^ 32) (j : ℕ) :
    ∀ i < count, ∀ k < count, addressPattern bufa j i = addressPattern bufa j k → i = k := by
  intro i hi k hk heq
  have hnat := congrArg BitVec.toNat heq
  have hwordi : (BitVec.ofNat 32 (word bufa i)).toNat = bufa + 4 * i := by
    rw [BitVec.toNat_ofNat, word, Nat.mod_eq_of_lt (by omega)]
  have hwordk : (BitVec.ofNat 32 (word bufa k)).toNat = bufa + 4 * k := by
    rw [BitVec.toNat_ofNat, word, Nat.mod_eq_of_lt (by omega)]
  unfold addressPattern at hnat
  split_ifs at hnat
  · rw [hwordi, hwordk] at hnat
    omega
  · rw [BitVec.toNat_not, hwordi, hwordk] at hnat
    omega
  · rw [BitVec.toNat_not, hwordi, hwordk] at hnat
    omega
  · rw [BitVec.toNat_not, BitVec.toNat_not, hwordi, hwordk] at hnat
    omega

theorem addressPattern_one (bufa i : ℕ) : addressPattern bufa 1 i = ~~~addressPattern bufa 0 i := by
  unfold addressPattern
  rcases Nat.mod_two_eq_zero_or_one i with hi | hi
  · rw [if_neg (by omega), if_pos (by omega)]
  · rw [if_pos (by omega), if_neg (by omega), BitVec.not_not]

/-- **What the test of the address lines finds**: every alias and every stuck bit. -/
theorem testStuckAddress_eq_zero_iff_faultless (hfit : bufa + 4 * count ≤ 2 ^ 32) (w : World C) :
    (testStuckAddress t bufa count w).1 = 0 ↔ Faultless t.ram bufa count := by
  have hround (j : ℕ) (w : World C) := (checkAddresses_eq_zero_iff (t := t) j
    { w with mem := t.ram.fill (word bufa) (addressPattern bufa j) count w.mem }).trans
    (Ram.forall_read_fill_iff (addressPattern_injective hfit j) w.mem)
  refine (untilFailure_map_eq_zero_iff (fun j _ w => hround j w) w).trans ?_
  constructor
  · intro hall
    -- Two rounds are enough: each word is set to its address and to the complement of it.
    obtain ⟨hinj, hhold0⟩ := hall 0 (by simp)
    obtain ⟨-, hhold1⟩ := hall 1 (by simp)
    refine ⟨hinj, fun i hi => (Ram.intact_iff (addressPattern bufa 0 i)).mpr ⟨hhold0 i hi, ?_⟩⟩
    rw [← addressPattern_one]
    exact hhold1 i hi
  · rintro ⟨hinj, hintact⟩ j -
    exact ⟨hinj, fun i hi => (hintact i hi).hold _⟩

/-- What the test leaves in a memory without faults: at each word something else. -/
theorem read_testStuckAddress (h : Faultless t.ram bufa count) (hfit : bufa + 4 * count ≤ 2 ^ 32)
    (w : World C) {i : ℕ} (hi : i < count) :
    t.ram.read (testStuckAddress t bufa count w).2.mem (word bufa i) =
      addressPattern bufa 15 i := by
  have hpass := (testStuckAddress_eq_zero_iff_faultless hfit w).mpr h
  have hrounds : (List.range 16).map (stuckAddressRound t bufa count) =
      (List.range 15).map (stuckAddressRound t bufa count) ++ [stuckAddressRound t bufa count 15] :=
    rfl
  unfold testStuckAddress at hpass ⊢
  rw [hrounds] at hpass ⊢
  obtain ⟨w', hw'⟩ := exists_untilFailure_concat hpass
  rw [hw']
  have hmem : (stuckAddressRound t bufa count 15 w').2.mem =
      t.ram.fill (word bufa) (addressPattern bufa 15) count w'.mem := mem_checkAddresses 15 _
  rw [hmem]
  exact (Ram.forall_read_fill_iff (addressPattern_injective hfit 15) w'.mem).mpr
    ⟨h.1, fun i hi => (h.2 i hi).hold _⟩ i hi

end AddressLines

/-! ## The halves -/

section TheHalves

variable (t : Machine C) (h : Halves)

/-- No two words of the halves are aliases. -/
structure Separate : Prop where
  bufa : ∀ i < h.count, ∀ k < h.count,
    t.ram.decode (word h.bufa i) = t.ram.decode (word h.bufa k) → i = k
  bufb : ∀ i < h.count, ∀ k < h.count,
    t.ram.decode (word h.bufb i) = t.ram.decode (word h.bufb k) → i = k
  disjoint : ∀ i < h.count, ∀ k < h.count,
    t.ram.decode (word h.bufa i) ≠ t.ram.decode (word h.bufb k)

/-- The same bits are stuck in both halves. -/
def SameFaults : Prop :=
  ∀ i < h.count,
    t.ram.hold (t.ram.decode (word h.bufa i)) = t.ram.hold (t.ram.decode (word h.bufb i))

variable {t h}

omit [DecidableEq C] in
theorem Separate.swap (hs : Separate t h) : Separate t ⟨h.bufb, h.bufa, h.count⟩ :=
  ⟨hs.bufb, hs.bufa, fun i hi k hk heq => hs.disjoint k hk i hi heq.symm⟩

/-- Both cells of an index hold what was written last. -/
theorem mem_setWords (hs : Separate t h) (v : ℕ → Ul) (w : World C) :
    ∀ i < h.count, (setWords t h v w).mem (t.ram.decode (word h.bufa i)) = v i ∧
      (setWords t h v w).mem (t.ram.decode (word h.bufb i)) = v i := by
  refine forLoop_each (P := fun _ _ => True) (Q := fun i (m : C → Ul) =>
    m (t.ram.decode (word h.bufa i)) = v i ∧ m (t.ram.decode (word h.bufb i)) = v i)
    (fun i hi m _ => ?_) (fun _ _ _ _ _ _ _ => trivial) (fun i hi k hk hik m hm => ?_)
    (fun _ _ => trivial)
  · exact ⟨Ram.write_decode _ _ _,
      (Ram.write_of_ne (hs.disjoint i hi i hi).symm _ _).trans (Ram.write_decode _ _ _)⟩
  · constructor
    · rw [Ram.write_of_ne fun heq => hik (hs.bufa k hk i hi heq).symm,
        Ram.write_of_ne (hs.disjoint k hk i hi)]
      exact hm.1
    · rw [Ram.write_of_ne (hs.disjoint i hi k hk).symm,
        Ram.write_of_ne fun heq => hik (hs.bufb k hk i hi heq).symm]
      exact hm.2

/-- Both cells of an index hold what the operation makes of the words that were read there. -/
theorem mem_updateWords (hs : Separate t h) (op : Ul → Ul) (w : World C) :
    ∀ i < h.count,
      (updateWords t h op w).mem (t.ram.decode (word h.bufa i)) =
          op (t.ram.read w.mem (word h.bufa i)) ∧
        (updateWords t h op w).mem (t.ram.decode (word h.bufb i)) =
          op (t.ram.read w.mem (word h.bufb i)) := by
  -- The cells of an index are as they were before, until its round.
  refine forLoop_each
    (P := fun i (m : C → Ul) =>
      m (t.ram.decode (word h.bufa i)) = w.mem (t.ram.decode (word h.bufa i)) ∧
        m (t.ram.decode (word h.bufb i)) = w.mem (t.ram.decode (word h.bufb i)))
    (Q := fun i (m : C → Ul) =>
      m (t.ram.decode (word h.bufa i)) = op (t.ram.read w.mem (word h.bufa i)) ∧
        m (t.ram.decode (word h.bufb i)) = op (t.ram.read w.mem (word h.bufb i)))
    (fun i hi m hm => ?_) (fun i hi k hk hik m hm => ?_) (fun i hi k hk hik m hm => ?_)
    (fun _ _ => ⟨rfl, rfl⟩)
  · have hab := hs.disjoint i hi i hi
    constructor
    · rw [Ram.write_of_ne hab, Ram.write_decode, Ram.read, hm.1]
      rfl
    · rw [Ram.write_decode, Ram.read, Ram.write_of_ne hab.symm, hm.2]
      rfl
  all_goals
    have ha : t.ram.decode (word h.bufa k) ≠ t.ram.decode (word h.bufa i) :=
      fun heq => hik (hs.bufa k hk i hi heq).symm
    have hb : t.ram.decode (word h.bufb k) ≠ t.ram.decode (word h.bufb i) :=
      fun heq => hik (hs.bufb k hk i hi heq).symm
    constructor
    · rw [Ram.write_of_ne (hs.disjoint k hk i hi), Ram.write_of_ne ha]
      exact hm.1
    · rw [Ram.write_of_ne hb, Ram.write_of_ne (hs.disjoint i hi k hk).symm]
      exact hm.2

theorem mirrored_setWords_iff (hs : Separate t h) (v : ℕ → Ul) (w : World C) :
    Mirrored t h (setWords t h v w).mem ↔
      ∀ i < h.count, t.ram.hold (t.ram.decode (word h.bufa i)) (v i) =
        t.ram.hold (t.ram.decode (word h.bufb i)) (v i) := by
  refine forall₂_congr fun i hi => ?_
  obtain ⟨ha, hb⟩ := mem_setWords hs v w i hi
  rw [Ram.read, Ram.read, ha, hb]

theorem mirrored_updateWords_iff (hs : Separate t h) (op : Ul → Ul) (w : World C) :
    Mirrored t h (updateWords t h op w).mem ↔
      ∀ i < h.count,
        t.ram.hold (t.ram.decode (word h.bufa i)) (op (t.ram.read w.mem (word h.bufa i))) =
          t.ram.hold (t.ram.decode (word h.bufb i)) (op (t.ram.read w.mem (word h.bufb i))) := by
  refine forall₂_congr fun i hi => ?_
  obtain ⟨ha, hb⟩ := mem_updateWords hs op w i hi
  rw [Ram.read, Ram.read, ha, hb]

/-- **What the tests with fixed patterns find**: the words that the two halves change
differently. -/
theorem comparePatterns_eq_zero_iff (hs : Separate t h) (patterns : List (ℕ → Ul)) (w : World C) :
    (comparePatterns t h patterns w).1 = 0 ↔
      ∀ v ∈ patterns, ∀ i < h.count, t.ram.hold (t.ram.decode (word h.bufa i)) (v i) =
        t.ram.hold (t.ram.decode (word h.bufb i)) (v i) :=
  untilFailure_map_eq_zero_iff (fun v _ w =>
    (compareRegions_eq_zero_iff t h _).trans (mirrored_setWords_iff hs v w)) w

/-- The solid bits are enough to find every difference between the halves. -/
theorem testSolidbitsComparison_eq_zero_iff (hs : Separate t h) (w : World C) :
    (testSolidbitsComparison t h w).1 = 0 ↔ SameFaults t h := by
  rw [testSolidbitsComparison, comparePatterns_eq_zero_iff hs, List.forall_mem_map]
  constructor
  · intro hall i hi
    have hfirst := hall 0 (by simp) i hi
    have hsecond := hall 1 (by simp) i hi
    -- A word is set to all ones and to all zeros in the first two rounds, in either order.
    rw [Ram.hold_eq_hold_iff]
    rcases Nat.mod_two_eq_zero_or_one i with heven | hodd
    · rw [alternate, if_pos heven] at hfirst hsecond
      exact ⟨hfirst, hsecond⟩
    · rw [alternate, if_neg (by omega)] at hfirst hsecond
      exact ⟨hsecond, hfirst⟩
  · intro hsame j _ i hi
    rw [hsame i hi]

theorem comparePatterns_of_sameFaults (hs : Separate t h) (hsame : SameFaults t h)
    (patterns : List (ℕ → Ul)) (w : World C) : (comparePatterns t h patterns w).1 = 0 :=
  (comparePatterns_eq_zero_iff hs patterns w).mpr fun v _ i hi => congrFun (hsame i hi) (v i)

theorem mirrored_setWords (hs : Separate t h) (hsame : SameFaults t h) (v : ℕ → Ul) (w : World C) :
    Mirrored t h (setWords t h v w).mem :=
  (mirrored_setWords_iff hs v w).mpr fun i hi => congrFun (hsame i hi) (v i)

/-- **What the tests that change the words in place need**: that the halves are read alike before.
Then they pass, and leave the halves alike. -/
theorem operation_of_mirrored (hs : Separate t h) (hsame : SameFaults t h) (op : Ul → Ul → Ul)
    {w : World C} (hw : Mirrored t h w.mem) :
    (operation t h op w).1 = 0 ∧ Mirrored t h (operation t h op w).2.mem := by
  unfold operation
  rw [compareRegions_eq_zero_iff, mem_compareRegions, and_self, mirrored_updateWords_iff hs]
  intro i hi
  rw [hw i hi, hsame i hi]

/-- A test that changes the words in place with an operation that can be undone fails if the halves
are read differently, and keep their words. -/
theorem operation_ne_zero (hs : Separate t h) {op : Ul → Ul → Ul}
    (hop : ∀ q, Function.Injective fun x => op x q) {w : World C} {i : ℕ} (hi : i < h.count)
    (ha : t.ram.Intact (t.ram.decode (word h.bufa i)))
    (hb : t.ram.Intact (t.ram.decode (word h.bufb i)))
    (hne : t.ram.read w.mem (word h.bufa i) ≠ t.ram.read w.mem (word h.bufb i)) :
    (operation t h op w).1 ≠ 0 := by
  unfold operation
  rw [Ne, compareRegions_eq_zero_iff, mirrored_updateWords_iff hs]
  intro hall
  have heq := hall i hi
  rw [ha.hold, hb.hold] at heq
  exact hne (hop _ heq)

theorem testRandomValue_of_sameFaults (hs : Separate t h) (hsame : SameFaults t h) (w : World C) :
    (testRandomValue t h w).1 = 0 ∧ Mirrored t h (testRandomValue t h w).2.mem := by
  unfold testRandomValue
  rw [compareRegions_eq_zero_iff, mem_compareRegions, and_self]
  exact mirrored_setWords hs hsame _ _

theorem testSeqincComparison_of_sameFaults (hs : Separate t h) (hsame : SameFaults t h)
    (w : World C) : (testSeqincComparison t h w).1 = 0 := by
  unfold testSeqincComparison
  rw [compareRegions_eq_zero_iff]
  exact mirrored_setWords hs hsame _ _

/-! ## Narrow writes -/

/-- A word that is written in parts of eight or sixteen bits is written whole. -/
theorem forLoop_writeMasked {width : ℕ} (hwidth : width = 8 ∨ width = 16) (m : C → Ul) (a : ℕ)
    (v : Ul) :
    forLoop (32 / width) (fun b m =>
        t.ram.writeMasked m a (BitVec.ofNat 32 (2 ^ width - 1) <<< (width * b)) v) m =
      t.ram.write m a v := by
  rw [← Ram.writeMasked_allOnes]
  rcases hwidth with rfl | rfl
  · simp only [forLoop_succ, forLoop_zero, Nat.reduceDiv, Ram.writeMasked_writeMasked]
    rfl
  · simp only [forLoop_succ, forLoop_zero, Nat.reduceDiv, Ram.writeMasked_writeMasked]
    rfl

theorem mem_narrowAttempt {width : ℕ} (hwidth : width = 8 ∨ width = 16) (p1 p2 : ℕ) (w : World C) :
    (narrowAttempt t h width p1 p2 w).mem =
      (setWords t ⟨p1, p2, h.count⟩ (fun i => t.randUl (w.rand + i)) w).mem := by
  simp only [narrowAttempt, forLoop_writeMasked hwidth]
  rfl

theorem wideRandom_of_sameFaults (hs : Separate t h) (hsame : SameFaults t h) {width : ℕ}
    (hwidth : width = 8 ∨ width = 16) (w : World C) : (wideRandom t h width w).1 = 0 := by
  refine (untilFailure_of_invariant (I := fun _ => True) ?_ trivial).1
  refine List.forall_mem_map.mpr fun p hp w _ => ⟨?_, trivial⟩
  rw [compareRegions_eq_zero_iff]
  intro i hi
  rw [mem_narrowAttempt hwidth]
  simp only [List.mem_cons, List.not_mem_nil, or_false] at hp
  -- The halves are written in one order and then in the other.
  rcases hp with rfl | rfl
  · obtain ⟨hb, ha⟩ := mem_setWords hs.swap (fun i => t.randUl (w.rand + i)) w i hi
    rw [Ram.read, Ram.read, ha, hb, hsame i hi]
  · obtain ⟨ha, hb⟩ := mem_setWords hs (fun i => t.randUl (w.rand + i)) w i hi
    rw [Ram.read, Ram.read, ha, hb, hsame i hi]

end TheHalves

/-! ## Reports -/

section Reports

variable {t : Machine C} {h : Halves}

/-- A test reports something exactly when it does not return zero. -/
def Truthful (test : World C → ℤ × World C) : Prop :=
  ∀ w, ∃ lines, (test w).2.stderr = w.stderr ++ lines ∧ (lines = [] ↔ (test w).1 = 0)

omit [DecidableEq C] in
theorem truthful_compareRegions (change : World C → World C)
    (hchange : ∀ w, (change w).stderr = w.stderr) :
    Truthful fun w => compareRegions t h (change w) := by
  intro w
  refine ⟨(List.range h.count).filterMap (reportAt t h (change w).mem), ?_, ?_⟩
  · dsimp only
    rw [compareRegions_eq, hchange]
  · rw [compareRegions_eq_zero_iff, List.filterMap_eq_nil_iff]
    unfold Mirrored
    refine ⟨fun hall i hi => ?_, fun hall i hi => ?_⟩
    · have hi' := hall i (List.mem_range.mpr hi)
      simpa [reportAt] using hi'
    · simp [reportAt, hall i (List.mem_range.mp hi)]

omit [DecidableEq C] in
theorem truthful_untilFailure {checks : List (World C → ℤ × World C)}
    (hchecks : ∀ check ∈ checks, Truthful check) : Truthful (untilFailure checks) := by
  induction checks with
  | nil => exact fun w => ⟨[], (List.append_nil _).symm, Iff.intro (fun _ => rfl) fun _ => rfl⟩
  | cons check checks ih =>
    intro w
    obtain ⟨first, hfirst, hzero⟩ := hchecks check List.mem_cons_self w
    by_cases hpass : (check w).1 = 0
    · obtain ⟨rest, hrest, hrestzero⟩ :=
        ih (fun c hc => hchecks c (List.mem_cons_of_mem check hc)) (check w).2
      rw [untilFailure_cons_of_eq_zero hpass]
      refine ⟨rest, ?_, hrestzero⟩
      rw [hrest, hfirst, hzero.mpr hpass, List.append_nil]
    · rw [untilFailure_cons_of_ne_zero hpass]
      refine ⟨first, hfirst, ?_⟩
      rw [hzero]
      exact iff_of_false hpass (Int.negSucc_ne_zero 0)

theorem truthful_comparePatterns (patterns : List (ℕ → Ul)) :
    Truthful (comparePatterns t h patterns) :=
  truthful_untilFailure (List.forall_mem_map.mpr fun _ _ => truthful_compareRegions _ fun _ => rfl)

theorem truthful_operation (op : Ul → Ul → Ul) : Truthful (operation t h op) :=
  fun w => truthful_compareRegions
    (fun w' => updateWords t h (fun x => op x (t.randUl w.rand)) { w' with rand := w'.rand + 1 })
    (fun _ => rfl) w

theorem truthful_wideRandom (width : ℕ) : Truthful (wideRandom t h width) :=
  truthful_untilFailure (List.forall_mem_map.mpr fun _ _ => truthful_compareRegions _ fun _ => rfl)

theorem truthful_testStuckAddress (bufa count : ℕ) : Truthful (testStuckAddress t bufa count) := by
  refine truthful_untilFailure (List.forall_mem_map.mpr fun j _ w => ?_)
  unfold stuckAddressRound checkAddresses
  cases (List.range count).find? fun i =>
    t.ram.read (t.ram.fill (word bufa) (addressPattern bufa j) count w.mem) (word bufa i) ≠
      addressPattern bufa j i with
  | some i =>
    exact ⟨[t.badAddressLine i], rfl, iff_of_false (List.cons_ne_nil _ _) (Int.negSucc_ne_zero 0)⟩
  | none => exact ⟨[], (List.append_nil _).symm, iff_of_true rfl rfl⟩

end Reports

end LinuxTest.MemoryTest
