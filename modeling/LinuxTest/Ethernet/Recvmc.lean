import LinuxTest.Ethernet.Receive

/-!
# The multicast receiver

`recvmc.c` of `ethernet_test/test-suite` joins a multicast group and counts the bytes that arrive in
a number of seconds, reading datagrams into a buffer of 1024 bytes. The count is what the multicast
test judges by. It is right as long as every datagram fits the buffer and no `read` fails: of a
longer datagram only the first 1024 bytes are counted, and the result `-1` of the `read` that ends
the loop is added to the count.

## Main definitions

* `Recvmc.Kernel`: the results of the calls before the loop
* `Recvmc.receive`, `recvmc`: the loop, and the program
* `Recvmc.Whole`: a result of `read` that is counted with its whole length

## Main results

* `Recvmc.recvmc_eq`: what the program prints
* `Recvmc.verdict_iff`: the printed count is that of the bytes received exactly when every result is
  counted whole
-/

namespace LinuxTest.Ethernet

open Foundations

namespace Recvmc

/-- The results of the calls before the loop, with the text of `errno` after a failed one. `bind`
depends on the port and joining the group on the addresses of the group and of the interface. -/
structure Kernel where
  socket : BitVec 32
  reuse : BitVec 32
  bind : BitVec 16 → BitVec 32
  addMembership : CString → CString → BitVec 32
  error : CString
  seconds : BitVec 64

/-- The size of `databuf`. -/
def datalen : ℕ := 1024

/-- The receive loop, up to the value of `totbytes`; without a result the rounds ran out. -/
def receive (starttime secs : BitVec 32) (rounds : List Round) : Option (BitVec 32) :=
  doWhile (fun totbytes round => totbytes + round.result.bytesread datalen)
    (GoesOn datalen starttime secs) 0 rounds

end Recvmc

open Recvmc

/-- The program `recvmc`: what it prints, or how it exits. -/
def recvmc (argv : List CString) (kernel : Kernel) (rounds : List Round) :
    Option (Except Exit CString) :=
  if argv.length < 5 then
    some (.error ⟨1, "Need at least 5 arguments - ".toList ++ argv.headD [] ++
      " <localIP> <mcastIP> <portnu> <seconds>\n".toList⟩)
  else
    let portnu := atoi (argv.getD 3 [])
    let secs := atoi (argv.getD 4 [])
    if kernel.socket.toInt < 0 then
      some (.error ⟨1, perror "opening datagram socket".toList kernel.error⟩)
    else if kernel.reuse.toInt < 0 then
      some (.error ⟨1, perror "setting SO_REUSEADDR".toList kernel.error⟩)
    else if kernel.bind (portnu.setWidth 16) ≠ 0 then
      some (.error ⟨1, perror "binding datagram socket".toList kernel.error⟩)
    else if (kernel.addMembership (argv.getD 2 []) (argv.getD 1 [])).toInt < 0 then
      some (.error ⟨1, perror "adding multicast group".toList kernel.error⟩)
    else
      -- Whether the socket was made non-blocking is not looked at.
      (receive (kernel.seconds.setWidth 32) secs rounds).map fun totbytes => .ok (report totbytes)

namespace Recvmc

/-! ## What is printed -/

/-- The arguments are there, and all calls before the loop succeed. -/
structure Ready (argv : List CString) (kernel : Kernel) : Prop where
  args : 5 ≤ argv.length
  socket : 0 ≤ kernel.socket.toInt
  reuse : 0 ≤ kernel.reuse.toInt
  bind : kernel.bind ((atoi (argv.getD 3 [])).setWidth 16) = 0
  addMembership : 0 ≤ (kernel.addMembership (argv.getD 2 []) (argv.getD 1 [])).toInt

/-- The loop stops in the last of the rounds, by an error or by its clock. -/
def Complete (argv : List CString) (kernel : Kernel) (rounds : List Round) : Prop :=
  Stops (GoesOn datalen (kernel.seconds.setWidth 32) (atoi (argv.getD 4 []))) rounds

/-- The sum that the loop computes, as an integer. -/
def counted (rounds : List Round) : ℤ :=
  (rounds.map fun round => round.result.count datalen).sum

section Run

variable {argv : List CString} {kernel : Kernel} {rounds : List Round}

/-- **What the program prints**: the sum of the counts, in an `int`. -/
theorem recvmc_eq (hready : Ready argv kernel) (hrounds : Complete argv kernel rounds) :
    recvmc argv kernel rounds = some (.ok (report (BitVec.ofInt 32 (counted rounds)))) := by
  obtain ⟨hargs, hsocket, hreuse, hbind, hmember⟩ := hready
  have hreceive : receive (kernel.seconds.setWidth 32) (atoi (argv.getD 4 [])) rounds =
      some (BitVec.ofInt 32 (counted rounds)) := by
    rw [receive, doWhile_of_stops hrounds,
      foldl_add_word (fun round => round.result.bytesread_eq datalen) 0 rounds]
    exact congrArg some (BitVec.zero_add _)
  rw [recvmc, if_neg (not_lt.mpr hargs)]
  dsimp only
  rw [if_neg (not_lt.mpr hsocket), if_neg (not_lt.mpr hreuse), if_neg (not_not.mpr hbind),
    if_neg (not_lt.mpr hmember), hreceive]
  rfl

/-- Only the last round can end with an error, so that at most one is subtracted. -/
theorem neg_one_le_counted (hrounds : Complete argv kernel rounds) : -1 ≤ counted rounds := by
  unfold counted
  induction hrounds with
  | @last round _ =>
    rw [List.map_singleton, List.sum_singleton]
    exact round.result.neg_one_le_count datalen
  | next hgoes _ ih =>
    rw [List.map_cons, List.sum_cons]
    have := ReadResult.count_of_goesOn hgoes
    omega

end Run

/-! ## When it is right -/

/-- A result that is counted with its whole length: no error, and no packet beyond the buffer. -/
def Whole (result : ReadResult) : Prop := result ≠ .error ∧ result.bytes.length ≤ datalen

/-- A result counts at most its bytes, and all of them exactly when it is whole. -/
theorem count_le (result : ReadResult) :
    result.count datalen ≤ result.bytes.length ∧
      (result.count datalen = result.bytes.length ↔ Whole result) := by
  cases result with
  | packet bytes =>
    refine ⟨min_le_left _ _, ?_⟩
    rw [Whole, ReadResult.count, ReadResult.bytes, min_eq_left_iff, Nat.cast_le]
    simp
  | wouldBlock => simp [ReadResult.count, ReadResult.bytes, Whole]
  | error => simp [ReadResult.count, ReadResult.bytes, Whole]

/-- The same for all rounds together. -/
theorem counted_le (rounds : List Round) :
    counted rounds ≤ received rounds ∧
      (counted rounds = received rounds ↔ ∀ round ∈ rounds, Whole round.result) := by
  unfold counted received
  induction rounds with
  | nil => simp
  | cons round rounds ih =>
    obtain ⟨hle, hiff⟩ := ih
    obtain ⟨hle₁, hiff₁⟩ := count_le round.result
    rw [List.forall_mem_cons, ← hiff, ← hiff₁]
    simp only [List.map_cons, List.sum_cons, Nat.cast_add]
    omega

/-- **The program prints the number of bytes received**, and that there were none if there were
none, exactly when no `read` fails and every datagram fits the buffer. -/
theorem verdict_iff {argv : List CString} {kernel : Kernel} {rounds : List Round}
    (hready : Ready argv kernel) (hrounds : Complete argv kernel rounds)
    (hsum : received rounds < 2 ^ 31) :
    recvmc argv kernel rounds = some (.ok (verdict (received rounds))) ↔
      ∀ round ∈ rounds, round.result ≠ .error ∧ round.result.bytes.length ≤ 1024 := by
  obtain ⟨hle, hiff⟩ := counted_le rounds
  have hlo := neg_one_le_counted hrounds
  -- The sum is at most the bytes received, so that it fits an `int` if they do.
  have hfits : (BitVec.ofInt 32 (counted rounds)).toInt = counted rounds :=
    toInt_ofInt_of_mem 31 (by omega) (by omega)
  rw [recvmc_eq hready hrounds, Option.some_inj, Except.ok.injEq, report_eq_verdict_iff, hfits]
  exact hiff

/-- The arguments of the multicast test. -/
def testArgv : List CString :=
  ["recvmc".toList, "192.199.1.2".toList, "225.1.1.1".toList, "5556".toList, "10".toList]

/-- A kernel on which all calls succeed, with the clock at zero. -/
def testKernel : Kernel := ⟨3, 0, fun _ => 0, fun _ _ => 0, [], 0⟩

theorem ready_test : Ready testArgv testKernel := by
  refine ⟨?_, ?_, ?_, ?_, ?_⟩ <;> decide

/-- A datagram of three bytes, and nothing else until the ten seconds are over. -/
theorem verdict_three_bytes :
    recvmc testArgv testKernel [⟨.packet [1, 2, 3], 0⟩, ⟨.wouldBlock, 10⟩] =
      some (.ok (verdict 3)) := by
  have hrounds : Complete testArgv testKernel [⟨.packet [1, 2, 3], 0⟩, ⟨.wouldBlock, 10⟩] :=
    .next (by decide) (.last (by decide))
  exact (verdict_iff ready_test hrounds (by decide)).mpr (by decide)

/-- A `read` that fails at once is reported as `-1` bytes, and not as none. -/
theorem verdict_failed_read :
    ¬ recvmc testArgv testKernel [⟨.error, 0⟩] = some (.ok (verdict (received [⟨.error, 0⟩]))) := by
  have hrounds : Complete testArgv testKernel [⟨.error, 0⟩] := .last (by decide)
  rw [recvmc_eq ready_test hrounds, Option.some_inj, Except.ok.injEq, report_eq_verdict_iff]
  decide

end Recvmc

end LinuxTest.Ethernet
