import LinuxTest.Ethernet.Receive
import Mathlib.Algebra.Order.BigOperators.Group.List
import Mathlib.Tactic.Linarith

/-!
# The raw receiver

`rawrecv.c` of `ethernet_test/test-suite` reads frames from a raw socket for a number of seconds. The
promiscuous test judges by whether it reports any bytes: the frames it should count are those of
`rawsend`, with the destination `00:ff:ee:dd:cc:bb`.

The loop adds the bytes of a `read` to its total when the buffer shows this destination, and then
adds them again whatever the destination. So foreign frames are counted once and test frames twice.
The buffer keeps the bytes that a shorter frame does not overwrite, so that a foreign frame of less
than six bytes can be counted twice as well; of a frame longer than 2048 bytes the rest is lost, and
the result `-1` of the `read` that ends the loop is added like a number of bytes.

## Main definitions

* `Rawrecv.Kernel`, `Rawrecv.withPromisc`, `Rawrecv.rawInit`: the calls before the loop
* `Rawrecv.body`, `Rawrecv.receive`, `rawrecv`: the loop, and the program
* `Rawrecv.IsTest`, `Rawrecv.testBytes`: a frame of the test, and the bytes of all of them
* `Rawrecv.excess`, `Rawrecv.missing`: what is counted beyond these bytes, and what is not counted

## Main results

* `Rawrecv.exists_setFlags_of_rawInit`: the interface is in the mode asked for
* `Rawrecv.rawrecv_eq`: what the program prints
* `Rawrecv.rawrecv_verdict_iff`: the report is about the frames of the test exactly when what is
  counted in excess is what is missing; for frames that fit a `read`, exactly when nothing arrives,
  or one byte before an error
-/

namespace LinuxTest.Ethernet

open Foundations

namespace Rawrecv

/-! ## The program -/

/-- The results of the calls before the loop, with the text of `errno` after a failed one. The
flags of a device are not there if the call that reads them fails. -/
structure Kernel where
  socket : BitVec 32
  getFlags : CString → Option (BitVec 16)
  setFlags : CString → BitVec 16 → BitVec 32
  getIndex : CString → BitVec 32
  setNonblocking : BitVec 32
  error : CString
  seconds : BitVec 64

/-- The flag of an interface in promiscuous mode. -/
def iffPromisc : BitVec 16 := 0x100

/-- The flags with the promiscuous mode set or cleared, and the others as they were. -/
def withPromisc (promis : BitVec 32) (flags : BitVec 16) : BitVec 16 :=
  if promis ≠ 0 then flags ||| iffPromisc else flags &&& ~~~iffPromisc

/-- The function `raw_init`: the socket, after setting or clearing the promiscuous mode. -/
def rawInit (kernel : Kernel) (device : CString) (promis : BitVec 32) :
    Except Exit (BitVec 32) :=
  if kernel.socket.toInt < 1 then
    .error ⟨1, "ERROR: Could not open socket, Got #?\n".toList⟩
  else
    match kernel.getFlags device with
    | none =>
      .error ⟨1, perror "Error: Could not retrive the flags from the device.\n".toList
        kernel.error⟩
    | some flags =>
      if kernel.setFlags device (withPromisc promis flags) = -1 then
        .error ⟨1, perror "Error: Could not set flag IFF_PROMISC".toList kernel.error⟩
      else if (kernel.getIndex device).toInt < 0 then
        .error ⟨1, perror "Error: Error getting the device index.\n".toList kernel.error⟩
      else .ok kernel.socket

/-- The variables of the loop that outlive a round. -/
structure State where
  recvbuf : ℕ → BitVec 8
  totbytes : BitVec 32

/-- The bytes asked for in one `read`. -/
def readSize : ℕ := 2048

/-- The buffer after a `read`: bytes that are not overwritten stay. -/
def fill (recvbuf : ℕ → BitVec 8) (result : ReadResult) : ℕ → BitVec 8 :=
  fun i => ((result.bytes.take readSize)[i]?).getD (recvbuf i)

/-- The buffer shows the destination of the test. -/
def ShowsTest (recvbuf : ℕ → BitVec 8) : Prop :=
  recvbuf 0 = 0x00 ∧ recvbuf 1 = 0xff ∧ recvbuf 2 = 0xee ∧ recvbuf 3 = 0xdd ∧
    recvbuf 4 = 0xcc ∧ recvbuf 5 = 0xbb

instance : DecidablePred ShowsTest := fun recvbuf =>
  inferInstanceAs (Decidable (recvbuf 0 = 0x00 ∧ recvbuf 1 = 0xff ∧ recvbuf 2 = 0xee ∧
    recvbuf 3 = 0xdd ∧ recvbuf 4 = 0xcc ∧ recvbuf 5 = 0xbb))

/-- One round of the loop. -/
def body (s : State) (round : Round) : State :=
  let recvbuf := fill s.recvbuf round.result
  let bytesread := round.result.bytesread readSize
  -- Only the first of the two additions looks at the destination.
  let totbytes := if ShowsTest recvbuf then s.totbytes + bytesread else s.totbytes
  { recvbuf, totbytes := totbytes + bytesread }

/-- The receive loop, with a buffer of zeros at first; without a result the rounds ran out. -/
def receive (starttime secs : BitVec 32) (rounds : List Round) : Option State :=
  doWhile body (GoesOn readSize starttime secs) ⟨fun _ => 0, 0⟩ rounds

end Rawrecv

open Rawrecv

/-- The program `rawrecv` on its three arguments: what it prints, or how it exits. -/
def rawrecv (device promis secs : CString) (kernel : Kernel) (rounds : List Round) :
    Option (Except Exit CString) :=
  match rawInit kernel device (atoi promis) with
  | .error exit => some (.error exit)
  | .ok _ =>
    if kernel.setNonblocking ≠ 0 then
      some (.error ⟨1, "ioctl to set non-blocking mode failed ".toList ++ kernel.error ++
        "\n".toList⟩)
    else
      (receive (kernel.seconds.setWidth 32) (atoi secs) rounds).map fun s =>
        .ok (report s.totbytes)

namespace Rawrecv

/-! ## The mode of the interface -/

theorem getLsbD_withPromisc (promis : BitVec 32) (flags : BitVec 16) (i : ℕ) :
    (withPromisc promis flags).getLsbD i = if i = 8 then decide (promis ≠ 0) else flags.getLsbD i := by
  by_cases hlt : i < 16
  · have hbit : iffPromisc.getLsbD i = decide (i = 8) :=
      (by decide : ∀ i < 16, iffPromisc.getLsbD i = decide (i = 8)) i hlt
    unfold withPromisc
    by_cases hpromis : promis ≠ 0
    · rw [if_pos hpromis, BitVec.getLsbD_or, hbit, decide_eq_true hpromis]
      by_cases hi : i = 8
      · rw [if_pos hi, decide_eq_true hi, Bool.or_true]
      · rw [if_neg hi, decide_eq_false hi, Bool.or_false]
    · rw [if_neg hpromis, BitVec.getLsbD_and, BitVec.getLsbD_not, hbit, decide_eq_false hpromis,
        decide_eq_true hlt, Bool.true_and]
      by_cases hi : i = 8
      · rw [if_pos hi, decide_eq_true hi, Bool.not_true, Bool.and_false]
      · rw [if_neg hi, decide_eq_false hi, Bool.not_false, Bool.and_true]
  · rw [if_neg (by omega), BitVec.getLsbD_of_ge _ _ (not_lt.mp hlt),
      BitVec.getLsbD_of_ge _ _ (not_lt.mp hlt)]

/-- **The promiscuous mode is the one asked for** when `raw_init` returns a socket: the flags it
wrote have this bit as asked, and the others as they were read. -/
theorem exists_setFlags_of_rawInit {kernel : Kernel} {device : CString} {promis sock : BitVec 32}
    (h : rawInit kernel device promis = .ok sock) :
    ∃ flags flags', kernel.getFlags device = some flags ∧ kernel.setFlags device flags' ≠ -1 ∧
      ∀ i, flags'.getLsbD i = if i = 8 then decide (promis ≠ 0) else flags.getLsbD i := by
  by_cases hsocket : kernel.socket.toInt < 1
  · rw [rawInit, if_pos hsocket] at h
    cases h
  rw [rawInit, if_neg hsocket] at h
  cases hflags : kernel.getFlags device with
  | none =>
    rw [hflags] at h
    cases h
  | some flags =>
    rw [hflags] at h
    refine ⟨flags, withPromisc promis flags, rfl, fun hset => ?_, getLsbD_withPromisc promis flags⟩
    dsimp only at h
    rw [if_pos hset] at h
    cases h

/-! ## What is printed -/

/-- How often the bytes of a round are counted. -/
def weight (recvbuf : ℕ → BitVec 8) : ℕ := if ShowsTest recvbuf then 2 else 1

/-- The sum that the loop computes, as an integer. -/
def counted (recvbuf : ℕ → BitVec 8) : List Round → ℤ
  | [] => 0
  | round :: rounds =>
    weight (fill recvbuf round.result) * round.result.count readSize +
      counted (fill recvbuf round.result) rounds

/-- One round adds its bytes with their weight. -/
theorem body_totbytes (s : State) (round : Round) :
    (body s round).totbytes = s.totbytes +
      BitVec.ofInt 32 (weight (fill s.recvbuf round.result) * round.result.count readSize) := by
  rw [body, weight, ReadResult.bytesread_eq]
  dsimp only
  split_ifs with hshows
  · rw [BitVec.add_assoc, ← BitVec.ofInt_add]
    congr 2
    push_cast
    ring
  · rw [Nat.cast_one, one_mul]

/-- The loop adds up all rounds. -/
theorem foldl_totbytes (s : State) (rounds : List Round) :
    (rounds.foldl body s).totbytes =
      s.totbytes + BitVec.ofInt 32 (counted s.recvbuf rounds) := by
  induction rounds generalizing s with
  | nil => simp [counted]
  | cons round rounds ih =>
    rw [List.foldl_cons, ih, body_totbytes, counted, BitVec.ofInt_add, BitVec.add_assoc]
    rfl

/-- The calls before the loop succeed. -/
structure Ready (kernel : Kernel) (device promis : CString) : Prop where
  init : ∃ sock, rawInit kernel device (atoi promis) = .ok sock
  nonblocking : kernel.setNonblocking = 0

/-- The loop stops in the last of the rounds, by an error or by its clock. -/
def Complete (kernel : Kernel) (secs : CString) (rounds : List Round) : Prop :=
  Stops (GoesOn readSize (kernel.seconds.setWidth 32) (atoi secs)) rounds

section Run

variable {device promis secs : CString} {kernel : Kernel} {rounds : List Round}

/-- **What the program prints**: the weighted sum of the counts, in an `int`. -/
theorem rawrecv_eq (hready : Ready kernel device promis) (hrounds : Complete kernel secs rounds) :
    rawrecv device promis secs kernel rounds =
      some (.ok (report (BitVec.ofInt 32 (counted (fun _ => 0) rounds)))) := by
  obtain ⟨⟨sock, hinit⟩, hnonblocking⟩ := hready
  have hreceive : receive (kernel.seconds.setWidth 32) (atoi secs) rounds =
      some (rounds.foldl body ⟨fun _ => 0, 0⟩) := doWhile_of_stops hrounds _
  have htot : (rounds.foldl body ⟨fun _ => 0, 0⟩).totbytes =
      BitVec.ofInt 32 (counted (fun _ => 0) rounds) :=
    (foldl_totbytes _ rounds).trans (BitVec.zero_add _)
  rw [rawrecv, hinit]
  dsimp only
  rw [if_neg (not_not.mpr hnonblocking), hreceive, Option.map_some, htot]

end Run

/-! ## What is counted -/

/-- The destination of the frames of the test. -/
def testAddress : List (BitVec 8) := [0x00, 0xff, 0xee, 0xdd, 0xcc, 0xbb]

/-- A frame of the test. -/
def IsTest (bytes : List (BitVec 8)) : Prop := bytes.take 6 = testAddress

instance : DecidablePred IsTest := fun bytes =>
  inferInstanceAs (Decidable (bytes.take 6 = testAddress))

/-- The bytes of the frames of the test. -/
def testBytes : List Round → ℕ
  | [] => 0
  | round :: rounds =>
    (if IsTest round.result.bytes then round.result.bytes.length else 0) + testBytes rounds

/-- What is counted beyond the bytes of the frames of the test: the second count of such a frame,
and the bytes of a foreign frame with their weight. -/
def excess (recvbuf : ℕ → BitVec 8) : List Round → ℕ
  | [] => 0
  | round :: rounds =>
    (if IsTest round.result.bytes then 1 else weight (fill recvbuf round.result)) *
        min round.result.bytes.length readSize +
      excess (fill recvbuf round.result) rounds

/-- What is not counted: the end of a frame of the test that does not fit a `read`, and what an
error takes away. -/
def missing (recvbuf : ℕ → BitVec 8) : List Round → ℕ
  | [] => 0
  | round :: rounds =>
    (if IsTest round.result.bytes then round.result.bytes.length - readSize else 0) +
      (if round.result = .error then weight (fill recvbuf round.result) else 0) +
      missing (fill recvbuf round.result) rounds

/-- The reads that fail; there is at most one, the last. -/
def failures (rounds : List Round) : ℕ := rounds.countP fun round => round.result = .error

section Buffer

variable (recvbuf : ℕ → BitVec 8) (result : ReadResult)

theorem fill_of_lt_six {i : ℕ} (hi : i < 6) :
    fill recvbuf result i = ((result.bytes.take 6)[i]?).getD (recvbuf i) := by
  have hsize : i < readSize := hi.trans (by decide)
  rw [fill, List.getElem?_take_of_lt hsize, List.getElem?_take_of_lt hi]

theorem one_le_weight : 1 ≤ weight recvbuf := by
  unfold weight
  split_ifs <;> decide

theorem weight_le_two : weight recvbuf ≤ 2 := by
  unfold weight
  split_ifs <;> decide

variable {result}

/-- The header of a frame of the test is seen when the frame is read. -/
theorem weight_of_isTest (h : IsTest result.bytes) : weight (fill recvbuf result) = 2 := by
  have hcell : ∀ i, i < 6 → fill recvbuf result i = (testAddress[i]?).getD (recvbuf i) := by
    intro i hi
    rw [fill_of_lt_six recvbuf result hi, h]
  refine if_pos ⟨?_, ?_, ?_, ?_, ?_, ?_⟩
  · exact hcell 0 (by decide)
  · exact hcell 1 (by decide)
  · exact hcell 2 (by decide)
  · exact hcell 3 (by decide)
  · exact hcell 4 (by decide)
  · exact hcell 5 (by decide)

theorem not_isTest_of_short (h : result.bytes.length < 6) : ¬ IsTest result.bytes := by
  intro htest
  have hlength := congrArg List.length htest
  rw [List.length_take] at hlength
  change min 6 _ = 6 at hlength
  omega

/-- A frame of less than six bytes does not reach the last byte of the header. -/
theorem fill_five_of_short (h : result.bytes.length < 6) : fill recvbuf result 5 = recvbuf 5 := by
  rw [fill_of_lt_six recvbuf result (by decide), List.getElem?_eq_none]
  · rfl
  · rw [List.length_take]
    omega

theorem weight_of_five_eq_zero (h : recvbuf 5 = 0) : weight recvbuf = 1 := by
  refine if_neg fun hshows => ?_
  rw [hshows.2.2.2.2.2] at h
  exact absurd h (by decide)

end Buffer

/-- What one round counts, and what it misses, next to what it should count. -/
theorem round_balance (recvbuf : ℕ → BitVec 8) (result : ReadResult) :
    weight (fill recvbuf result) * result.count readSize +
        (((if IsTest result.bytes then result.bytes.length - readSize else 0) +
          (if result = .error then weight (fill recvbuf result) else 0) : ℕ) : ℤ) =
      (((if IsTest result.bytes then result.bytes.length else 0) +
        (if IsTest result.bytes then 1 else weight (fill recvbuf result)) *
          min result.bytes.length readSize : ℕ) : ℤ) := by
  cases result with
  | packet bytes =>
    rw [if_neg (by simp : ¬ ReadResult.packet bytes = .error)]
    by_cases htest : IsTest (ReadResult.packet bytes).bytes
    · rw [if_pos htest, if_pos htest, if_pos htest, weight_of_isTest recvbuf htest]
      simp only [ReadResult.count, ReadResult.bytes]
      omega
    · rw [if_neg htest, if_neg htest, if_neg htest]
      simp [ReadResult.count, ReadResult.bytes]
  | wouldBlock =>
    have htest : ¬ IsTest ReadResult.wouldBlock.bytes := by decide
    rw [if_neg htest, if_neg htest, if_neg htest]
    simp [ReadResult.count, ReadResult.bytes]
  | error =>
    have htest : ¬ IsTest ReadResult.error.bytes := by decide
    rw [if_neg htest, if_neg htest, if_neg htest]
    simp [ReadResult.count, ReadResult.bytes]

/-- **The balance of a run**: what is counted, and what is missing, are the bytes of the frames of
the test and the excess. -/
theorem counted_add_missing (recvbuf : ℕ → BitVec 8) (rounds : List Round) :
    counted recvbuf rounds + missing recvbuf rounds = testBytes rounds + excess recvbuf rounds := by
  induction rounds generalizing recvbuf with
  | nil => rfl
  | cons round rounds ih =>
    have hround := round_balance recvbuf round.result
    have hrest := ih (fill recvbuf round.result)
    rw [counted, missing, testBytes, excess]
    push_cast at hround ⊢
    linarith

/-! ## When it is right -/

section Bounds

variable {rounds : List Round}

/-- Only the last round can end with an error, so that at most two is subtracted. -/
theorem neg_two_le_counted {starttime secs : BitVec 32}
    (hrounds : Stops (GoesOn readSize starttime secs) rounds) (recvbuf : ℕ → BitVec 8) :
    -2 ≤ counted recvbuf rounds := by
  induction hrounds generalizing recvbuf with
  | @last round _ =>
    have hle := weight_le_two (fill recvbuf round.result)
    have hmul := mul_le_mul_of_nonneg_left (round.result.neg_one_le_count readSize)
      (Int.natCast_nonneg (weight (fill recvbuf round.result)))
    rw [counted, counted]
    omega
  | @next round rounds hgoes _ ih =>
    have hcount := ReadResult.count_of_goesOn hgoes
    have hrest := ih (fill recvbuf round.result)
    rw [counted]
    have : 0 ≤ (weight (fill recvbuf round.result) : ℤ) * round.result.count readSize :=
      mul_nonneg (Int.natCast_nonneg _) hcount
    omega

/-- Every byte of a frame that fits a `read` is in excess. -/
theorem received_le_excess (hfit : ∀ round ∈ rounds, round.result.bytes.length ≤ readSize)
    (recvbuf : ℕ → BitVec 8) : received rounds ≤ excess recvbuf rounds := by
  unfold received
  induction rounds generalizing recvbuf with
  | nil => exact le_rfl
  | cons round rounds ih =>
    obtain ⟨hround, hrest⟩ := List.forall_mem_cons.mp hfit
    have hcoeff : 1 ≤ if IsTest round.result.bytes then 1
        else weight (fill recvbuf round.result) := by
      split_ifs
      · exact le_rfl
      · exact one_le_weight _
    rw [List.map_cons, List.sum_cons, excess, min_eq_left hround]
    exact Nat.add_le_add (Nat.le_mul_of_pos_left _ hcoeff) (ih hrest _)

/-- At most one `read` fails, and what it takes away is at most two. -/
theorem missing_le_two {starttime secs : BitVec 32}
    (hrounds : Stops (GoesOn readSize starttime secs) rounds)
    (hfit : ∀ round ∈ rounds, round.result.bytes.length ≤ readSize) (recvbuf : ℕ → BitVec 8) :
    missing recvbuf rounds ≤ 2 := by
  induction hrounds generalizing recvbuf with
  | @last round _ =>
    have hround := hfit round List.mem_cons_self
    have hle := weight_le_two (fill recvbuf round.result)
    rw [missing, missing, Nat.sub_eq_zero_of_le hround]
    split_ifs <;> omega
  | @next round rounds hgoes _ ih =>
    obtain ⟨hround, hrest⟩ := List.forall_mem_cons.mp hfit
    rw [missing, if_neg (ReadResult.ne_error_of_goesOn hgoes), Nat.sub_eq_zero_of_le hround,
      ite_self]
    simpa using ih hrest (fill recvbuf round.result)

theorem failures_le_one {starttime secs : BitVec 32}
    (hrounds : Stops (GoesOn readSize starttime secs) rounds) : failures rounds ≤ 1 := by
  unfold failures
  induction hrounds with
  | last _ => exact List.countP_le_length
  | next hgoes _ ih =>
    rw [List.countP_cons_of_neg (by simpa using ReadResult.ne_error_of_goesOn hgoes)]
    exact ih

/-- As long as no frame reaches the end of the header, every byte is counted once. -/
theorem excess_of_short (hshort : ∀ round ∈ rounds, round.result.bytes.length < 6)
    (recvbuf : ℕ → BitVec 8) (hzero : recvbuf 5 = 0) :
    excess recvbuf rounds = received rounds ∧ missing recvbuf rounds = failures rounds := by
  unfold received failures
  -- The last byte of the header stays zero, which is not that of the address.
  induction rounds generalizing recvbuf with
  | nil => exact ⟨rfl, rfl⟩
  | cons round rounds ih =>
    obtain ⟨hround, hrest⟩ := List.forall_mem_cons.mp hshort
    have hzero' : fill recvbuf round.result 5 = 0 := (fill_five_of_short recvbuf hround).trans hzero
    obtain ⟨hexcess, hmissing⟩ := ih hrest _ hzero'
    have hsize : round.result.bytes.length ≤ readSize := hround.le.trans (by decide)
    rw [excess, missing, if_neg (not_isTest_of_short hround), if_neg (not_isTest_of_short hround),
      weight_of_five_eq_zero _ hzero', hexcess, hmissing, min_eq_left hsize]
    refine ⟨by simp, ?_⟩
    rw [List.countP_cons]
    simp only [decide_eq_true_eq]
    omega

theorem length_le_received {round : Round} (hround : round ∈ rounds) :
    round.result.bytes.length ≤ received rounds :=
  List.le_sum_of_mem (List.mem_map_of_mem hround)

/-- With frames that fit a `read`, excess and missing bytes balance only if nothing is received
before the last round, or a single byte before an error. -/
theorem excess_eq_missing_iff {starttime secs : BitVec 32}
    (hrounds : Stops (GoesOn readSize starttime secs) rounds)
    (hfit : ∀ round ∈ rounds, round.result.bytes.length ≤ readSize) :
    excess (fun _ => 0) rounds = missing (fun _ => 0) rounds ↔
      received rounds = failures rounds := by
  -- With less than six bytes in all the buffer never shows the address; with more, the excess is
  -- larger than what a single error can take away.
  by_cases hsix : received rounds < 6
  · obtain ⟨hexcess, hmissing⟩ := excess_of_short
      (fun round hround => (length_le_received hround).trans_lt hsix) (fun _ => 0) rfl
    rw [hexcess, hmissing]
  · have hexcess := received_le_excess hfit fun _ => 0
    have hmissing := missing_le_two hrounds hfit fun _ => 0
    have hfailures := failures_le_one hrounds
    omega

end Bounds

/-- **The report is about the frames of the test** exactly when what is counted beyond their bytes
is what is missing from them. For frames that fit a `read` this means that nothing is received at
all, or a single byte before a `read` fails. -/
theorem rawrecv_verdict_iff {device promis secs : CString} {kernel : Kernel} {rounds : List Round}
    (hready : Ready kernel device promis) (hrounds : Complete kernel secs rounds)
    (hfits : counted (fun _ => 0) rounds < 2 ^ 31) :
    (rawrecv device promis secs kernel rounds = some (.ok (verdict (testBytes rounds))) ↔
      excess (fun _ => 0) rounds = missing (fun _ => 0) rounds) ∧
    ((∀ round ∈ rounds, round.result.bytes.length ≤ readSize) →
      (rawrecv device promis secs kernel rounds = some (.ok (verdict (testBytes rounds))) ↔
        received rounds = failures rounds)) := by
  have hlo := neg_two_le_counted hrounds fun _ => 0
  have hword : (BitVec.ofInt 32 (counted (fun _ => 0) rounds)).toInt =
      counted (fun _ => 0) rounds := toInt_ofInt_of_mem 31 (by omega) hfits
  have hbalance := counted_add_missing (fun _ => 0) rounds
  have hright : rawrecv device promis secs kernel rounds = some (.ok (verdict (testBytes rounds))) ↔
      excess (fun _ => 0) rounds = missing (fun _ => 0) rounds := by
    rw [rawrecv_eq hready hrounds, Option.some_inj, Except.ok.injEq, report_eq_verdict_iff, hword]
    omega
  exact ⟨hright, fun hfit => hright.trans (excess_eq_missing_iff hrounds hfit)⟩

/-- A kernel on which all calls succeed, with the clock at zero. -/
def testKernel : Kernel := ⟨3, fun _ => some 0x1003, fun _ _ => 0, fun _ => 0, 0, [], 0⟩

theorem ready_test (device promis : CString) : Ready testKernel device promis :=
  ⟨⟨3, rfl⟩, rfl⟩

/-- A foreign byte arrives, and the next `read` fails: the two counts cancel. -/
theorem rawrecv_verdict_one_byte :
    rawrecv "eth0".toList "0".toList "10".toList testKernel
        [⟨.wouldBlock, 3⟩, ⟨.packet [0x5a], 4⟩, ⟨.error, 5⟩] = some (.ok (verdict 0)) := by
  have hrounds : Complete testKernel "10".toList
      [⟨.wouldBlock, 3⟩, ⟨.packet [0x5a], 4⟩, ⟨.error, 5⟩] :=
    .next (by decide) (.next (by decide) (.last (by decide)))
  have hverdict := rawrecv_verdict_iff (ready_test "eth0".toList "0".toList) hrounds (by decide)
  exact (hverdict.2 (by decide)).mpr (by decide)

/-- A broadcast frame, and nothing else, is reported as if it were one of the test. -/
theorem rawrecv_verdict_broadcast :
    ¬ rawrecv "eth0".toList "0".toList "10".toList testKernel
        [⟨.packet (List.replicate 60 0xff), 10⟩] =
      some (.ok (verdict (testBytes [⟨.packet (List.replicate 60 0xff), 10⟩]))) := by
  have hrounds : Complete testKernel "10".toList [⟨.packet (List.replicate 60 0xff), 10⟩] :=
    .last (by decide)
  rw [rawrecv_eq (ready_test _ _) hrounds, Option.some_inj, Except.ok.injEq, report_eq_verdict_iff]
  decide

end Rawrecv

end LinuxTest.Ethernet
