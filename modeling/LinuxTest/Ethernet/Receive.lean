import LinuxTest.Foundations.DoWhile
import LinuxTest.Foundations.SignedWords
import LinuxTest.Libc

/-!
# Receiving for a number of seconds

The receivers `recvmc` and `rawrecv` of `ethernet_test/test-suite` poll a non-blocking socket until
their time is over or a `read` fails, add up what they read, and print the sum or that there was
none. Both have the same clock, the same treatment of a `read` that would block, the same test at
the end of the loop and the same report. What the kernel returns in a round is an input of the
loop: the packet `read` finds, and the clock after it.

## Main definitions

* `ReadResult`, `ReadResult.bytesread`: what `read` finds, and the variable that it is stored in
* `Round`, `GoesOn`: the inputs of a round, and the test of the loop
* `report`, `verdict`: what is printed, and what should be printed for a number of bytes
* `received`: the number of bytes that arrived

## Main results

* `report_eq_verdict_iff`: the report is that for `n` bytes exactly when `totbytes` is `n`
-/

namespace LinuxTest.Ethernet

open Foundations

/-! ## The loop -/

/-- What `read` finds on a non-blocking socket: a packet, none yet, or another error. -/
inductive ReadResult where
  | packet (bytes : List (BitVec 8))
  | wouldBlock
  | error
deriving Repr, DecidableEq

namespace ReadResult

/-- The result of `read` into a buffer of `size` bytes. The rest of a longer packet is lost. -/
def ret (size : ℕ) : ReadResult → BitVec 32
  | packet bytes => BitVec.ofNat 32 (min bytes.length size)
  | wouldBlock => -1
  | error => -1

/-- The variable `bytesread`: a `read` that would block counts as zero bytes. -/
def bytesread (size : ℕ) (result : ReadResult) : BitVec 32 :=
  -- `errno` is that of this `read` whenever its result is negative.
  if (result.ret size).toInt < 0 ∧ result = wouldBlock then 0 else result.ret size

/-- The bytes of the packet. -/
def bytes : ReadResult → List (BitVec 8)
  | packet bytes => bytes
  | wouldBlock => []
  | error => []

end ReadResult

/-- The inputs of one round: the result of `read`, and `getseconds()` after it. -/
structure Round where
  result : ReadResult
  seconds : BitVec 64
deriving Repr, DecidableEq

/-- The test of the loop: no error, and less than `secs` seconds since `starttime`. The `int`s are
converted to `unsigned long long`. -/
def GoesOn (size : ℕ) (starttime secs : BitVec 32) (round : Round) : Prop :=
  0 ≤ (round.result.bytesread size).toInt ∧
    round.seconds - starttime.signExtend 64 < secs.signExtend 64

instance (size : ℕ) (starttime secs : BitVec 32) : DecidablePred (GoesOn size starttime secs) :=
  fun round => inferInstanceAs (Decidable (0 ≤ (round.result.bytesread size).toInt ∧
    round.seconds - starttime.signExtend 64 < secs.signExtend 64))

/-- What is printed after the loop. -/
def report (totbytes : BitVec 32) : CString :=
  if totbytes ≠ 0 then decimal totbytes.toInt ++ "bytes\n".toList else "none\n".toList

/-- What should be printed for a number of bytes. -/
def verdict (n : ℤ) : CString :=
  if n = 0 then "none\n".toList else decimal n ++ "bytes\n".toList

/-- The number of bytes that arrived in the rounds. -/
def received (rounds : List Round) : ℕ := (rounds.map fun round => round.result.bytes.length).sum

/-! ## The report -/

theorem verdict_injective : Function.Injective verdict := by
  -- The word for a number is longer than the one for none.
  have hlength : ∀ n, "none\n".toList ≠ decimal n ++ "bytes\n".toList := by
    intro n h
    have := congrArg List.length h
    rw [List.length_append] at this
    change 5 = _ + 6 at this
    omega
  intro a b h
  unfold verdict at h
  split_ifs at h with ha hb hb
  · rw [ha, hb]
  · exact absurd h (hlength b)
  · exact absurd h.symm (hlength a)
  · exact decimal_injective (List.append_cancel_right h)

/-- **The report is that for `n` bytes** exactly when `totbytes` is `n`. -/
theorem report_eq_verdict_iff (totbytes : BitVec 32) (n : ℤ) :
    report totbytes = verdict n ↔ totbytes.toInt = n := by
  have hreport : report totbytes = verdict totbytes.toInt := by
    have hzero : totbytes.toInt = 0 ↔ totbytes = 0 := BitVec.toInt_inj (y := 0)
    rw [report, verdict, ite_not]
    exact if_congr hzero.symm rfl rfl
  rw [hreport, verdict_injective.eq_iff]

/-! ## What one round counts -/

namespace ReadResult

variable {size : ℕ}

/-- The number a result stands for in `bytesread`. -/
def count (size : ℕ) : ReadResult → ℤ
  | packet bytes => min bytes.length size
  | wouldBlock => 0
  | error => -1

theorem bytesread_eq (size : ℕ) (result : ReadResult) :
    result.bytesread size = BitVec.ofInt 32 (result.count size) := by
  cases result with
  | packet bytes =>
    rw [bytesread, if_neg (by simp)]
    exact (BitVec.ofInt_natCast 32 (min bytes.length size)).symm.trans
      (by rw [count, Nat.cast_min])
  | wouldBlock => rfl
  | error => rfl

theorem neg_one_le_count (size : ℕ) (result : ReadResult) : -1 ≤ result.count size := by
  cases result with
  | packet bytes => exact le_min (by omega) (by omega)
  | wouldBlock => exact (by decide : (-1 : ℤ) ≤ 0)
  | error => exact le_rfl

theorem ne_error_of_goesOn {starttime secs : BitVec 32} {round : Round}
    (h : GoesOn size starttime secs round) : round.result ≠ .error := by
  intro herror
  have hnonneg := h.1
  rw [herror, bytesread_eq] at hnonneg
  exact absurd hnonneg (by decide : ¬ 0 ≤ (BitVec.ofInt 32 (-1)).toInt)

theorem count_of_goesOn {starttime secs : BitVec 32} {round : Round}
    (h : GoesOn size starttime secs round) : 0 ≤ round.result.count size := by
  cases hr : round.result with
  | packet bytes => exact le_min (Int.natCast_nonneg _) (Int.natCast_nonneg _)
  | wouldBlock => exact le_rfl
  | error => exact absurd hr (ne_error_of_goesOn h)

end ReadResult

end LinuxTest.Ethernet
