import LinuxTest.Ethernet.Options
import LinuxTest.Foundations.DoWhile
import LinuxTest.Foundations.SignedWords
import Mathlib.Algebra.Order.BigOperators.Group.List
import Mathlib.Data.Rat.Floor

/-!
# The workers of the traffic tool

`sender` and `receiver` of the class `socketWorker` in `ethernet_test/test-suite/options.cpp`, with
the methods of `Socket` that they call. A worker sets up a TCP connection, transfers messages for a
number of seconds and prints the number of bytes and the throughput. What the kernel returns is an
input: the results of the calls of the set-up, and in every round of a transfer the result of `send`
or `recv` and the clock after it.

The sender adds the size of the message and not the result of `send`, so a short transfer is counted
in full. The receiver adds the result of `recv` before it looks at it, so an error is subtracted.
Both print their unsigned totals as signed numbers.

## Main definitions

* `Calls`, `Stop`: the results of the calls, and why a worker ends early
* `SendRound`, `transmit`, `sender`: the sending worker
* `RecvRound`, `collect`, `receiver`: the receiving worker
* `PrintsTotal`: the total that an output reports
* `sent`, `receivedBytes`: the bytes really transferred

## Main results

* `sender_eq`, `receiver_eq`: what the workers print
* `totals_iff`: the totals are the bytes transferred exactly when every `send` takes the whole
  message, no `recv` fails, and the totals are less than `2 ^ 63`
-/

namespace LinuxTest.Ethernet.Throughput

open Foundations Options

/-! ## Sockets -/

/-- The results of the calls before and after the transfer. The conversion of an infinite number to
an `unsigned long`, which is undefined, is a parameter. -/
structure Calls where
  socket : BitVec 32
  reuseAddress : BitVec 32
  bind : Sockaddr → BitVec 32
  connect : Sockaddr → BitVec 32
  listen : BitVec 32
  accept : BitVec 32 × Sockaddr
  tcpNodelay : BitVec 32
  errno : BitVec 32
  strerror : BitVec 32 → CString
  starttime : BitVec 64
  endtime : BitVec 64
  infinite : BitVec 64

/-- Why a worker ends before its transfer: a call of `exit`, an abort with the text printed before
it, an assertion about an address, or the exception for an array of a negative size. -/
inductive Stop where
  | exit (exit : Exit)
  | abort (text : CString)
  | address (stop : IPAddress.Stop)
  | badArrayLength
deriving Repr, DecidableEq

/-- The text of a failed `ASSERT`. -/
def assertion (cond file function : String) (line : ℕ) : CString :=
  "Assertion ".toList ++ cond.toList ++ " failed at ".toList ++ file.toList ++ ":".toList ++
    function.toList ++ ":".toList ++ decimal line ++ "\n".toList

/-- The macro `ASSERT`, after other text. -/
def assert (holds : Bool) (text : CString) : Except Stop Unit :=
  if holds then .ok () else .error (.abort text)

/-- The method `assertsetsockopt`. -/
def assertsetsockopt (calls : Calls) (err : BitVec 32) (line : ℕ) : Except Stop Unit :=
  if err ≠ 0 then
    .error (.exit ⟨1, "setsockopt socket.h line ".toList ++ decimal line ++ ", err ".toList ++
      decimal err.toInt ++ ", ".toList ++ calls.strerror err ++ "\n".toList⟩)
  else .ok ()

namespace Socket

/-- The constructor. -/
def new (calls : Calls) : Except Stop Unit :=
  assert (calls.socket ≠ 0) (assertion "sock" "socket.h" "Socket" 30)

/-- The method `Connect`. -/
def connect (calls : Calls) (paddr : Sockaddr) : Except Stop Unit := do
  let _ ← (IPAddress.getsockaddrlen paddr).mapError .address
  assert (calls.connect paddr = 0) (assertion "ret==0" "socket.h" "Connect" 44)

/-- The method `Listen`. -/
def listen (calls : Calls) : Except Stop Unit :=
  assert (calls.listen = 0) (assertion "ret==0" "socket.h" "Listen" 68)

/-- The method `Bind`. -/
def bind (calls : Calls) (paddr : Sockaddr) : Except Stop Unit := do
  let _ ← (IPAddress.getsockaddrlen paddr).mapError .address
  assert (0 ≤ (calls.bind paddr).toInt)
    ("err ".toList ++ decimal calls.errno.toInt ++ ", ".toList ++ calls.strerror calls.errno ++
      "\n".toList ++ assertion "ret>=0" "socket.h" "Bind" 80)

/-- The method `Accept`: the address of the client is copied, which asserts its family. -/
def accept (calls : Calls) : Except Stop Unit := do
  assert (0 < calls.accept.1.toInt) (assertion "newsock > 0" "socket.h" "Accept" 103)
  assert (calls.accept.2.family = afInet ∨ calls.accept.2.family = afInet6)
    (assertion "(addr.sa_family == AF_INET) || (addr.sa_family==AF_INET6)" "ipaddr.h"
      "construct" 33)

/-- The method `DisableNagling`. -/
def disableNagling (calls : Calls) : Except Stop Unit :=
  assertsetsockopt calls calls.tcpNodelay 192

/-- The method `ReuseAddress`. -/
def reuseAddress (calls : Calls) : Except Stop Unit :=
  assertsetsockopt calls calls.reuseAddress 299

end Socket

/-! ## The workers -/

/-- A buffer for a message. -/
def newBuffer (messageSize : BitVec 32) : Except Stop Unit :=
  if messageSize.toInt < 0 then .error .badArrayLength else .ok ()

/-- The only address of a vector. -/
def onlyAddress : List Sockaddr → Except Stop Sockaddr
  | [ip] => .ok ip
  | _ => .error (.exit ⟨1, "need one and only one local IP address\n".toList⟩)

/-- The time limit of a worker, in microseconds; the `int` is converted to `unsigned long long`. -/
def usecs (seconds : BitVec 32) : BitVec 64 := seconds.signExtend 64 * 1000000

/-- The method `mbps`. -/
def mbps (calls : Calls) (bytes usecs : BitVec 64) : BitVec 64 :=
  let bits : ℚ := (bytes * 8).toNat
  if usecs = 0 then calls.infinite else BitVec.ofInt 64 ⌊bits / usecs.toNat⌋

/-- The line with the result of a worker. The formats are those of signed numbers. -/
def totalLine (total mbps : BitVec 64) : CString :=
  "total ".toList ++ decimal total.toInt ++ ", mbps ".toList ++
    decimal (mbps.setWidth 32).toInt ++ "\n".toList

/-- The inputs of a round of the sender: the result of `send`, and `getusecs()` after it. -/
structure SendRound where
  ret : BitVec 32
  usecs : BitVec 64
deriving Repr, DecidableEq

/-- The test of the sending loop. A failed `send` aborts. -/
def SendsOn (starttime usecs : BitVec 64) (round : SendRound) : Prop :=
  0 ≤ round.ret.toInt ∧ round.usecs - starttime < usecs

instance (starttime usecs : BitVec 64) : DecidablePred (SendsOn starttime usecs) := fun round =>
  inferInstanceAs (Decidable (0 ≤ round.ret.toInt ∧ round.usecs - starttime < usecs))

/-- One round of the sender: the result of `send` is asserted, and the size added. -/
def sendBody (messageSize : BitVec 32) (total : Except Stop (BitVec 64)) (round : SendRound) :
    Except Stop (BitVec 64) :=
  if round.ret.toInt < 0 then .error (.abort (assertion "ret >= 0" "socket.h" "Send" 143))
  -- The result itself is not looked at again.
  else total.map (· + messageSize.signExtend 64)

/-- The sending loop; without a result the rounds ran out. -/
def transmit (starttime usecs : BitVec 64) (messageSize : BitVec 32) (rounds : List SendRound) :
    Option (Except Stop (BitVec 64)) :=
  doWhile (sendBody messageSize) (SendsOn starttime usecs) (.ok 0) rounds

/-- The sender up to its transfer. -/
def senderSetup (net : Network) (calls : Calls) (w : SocketWorker) (messageSize : BitVec 32) :
    Except Stop Unit := do
  newBuffer messageSize
  let localif ← onlyAddress w.vLocalIP
  -- The address is printed, which asserts its family.
  let _ ← (IPAddress.tostring net localif).mapError .address
  let pserver ← onlyAddress w.vDestIP
  Socket.new calls
  Socket.reuseAddress calls
  Socket.bind calls localif
  Socket.connect calls pserver
  if w.bNoTcpDelay then Socket.disableNagling calls

/-- The method `sender`: the lines printed after the transfer. Without a result the rounds ran out,
or a member is not initialised. -/
def sender (net : Network) (calls : Calls) (w : SocketWorker) (rounds : List SendRound) :
    Option (Except Stop (List CString)) :=
  w.seconds.bind fun seconds => w.messageSize.bind fun messageSize =>
    match senderSetup net calls w messageSize with
    | .error stop => some (.error stop)
    | .ok _ =>
      (transmit calls.starttime (usecs seconds) messageSize rounds).map fun total =>
        total.map fun total =>
          [totalLine total (mbps calls total (usecs seconds)), "tx exit\n".toList]

/-- The inputs of a round of the receiver: the result of `recv`, `errno` after it, and `getusecs()`
after it. -/
structure RecvRound where
  ret : BitVec 32
  errno : BitVec 32
  usecs : BitVec 64
deriving Repr, DecidableEq

/-- The test of the receiving loop. Without a time limit only the result counts. -/
def RecvsOn (starttime usecs : BitVec 64) (round : RecvRound) : Prop :=
  (usecs ≠ 0 → round.usecs - starttime < usecs) ∧ 0 < round.ret.toInt

instance (starttime usecs : BitVec 64) : DecidablePred (RecvsOn starttime usecs) := fun round =>
  inferInstanceAs (Decidable ((usecs ≠ 0 → round.usecs - starttime < usecs) ∧
    0 < round.ret.toInt))

/-- The variables of the receiving loop: the total, and the lines printed by `Recv`. -/
structure RecvState where
  total : BitVec 64
  printed : List CString
deriving Repr, DecidableEq

/-- The line of `Recv` for an error. -/
def recvLine (calls : Calls) (round : RecvRound) : CString :=
  "recv ".toList ++ decimal round.errno.toInt ++ ", ".toList ++ calls.strerror round.errno ++
    "\n".toList

/-- One round of the receiver. -/
def recvBody (calls : Calls) (s : RecvState) (round : RecvRound) : RecvState where
  -- The result is added before it is tested, an error as `2 ^ 64 - 1`.
  total := s.total + round.ret.signExtend 64
  printed := if round.ret.toInt < 0 then s.printed ++ [recvLine calls round] else s.printed

/-- The receiving loop; without a result the rounds ran out. -/
def collect (calls : Calls) (usecs : BitVec 64) (rounds : List RecvRound) : Option RecvState :=
  doWhile (recvBody calls) (RecvsOn calls.starttime usecs) ⟨0, []⟩ rounds

/-- The receiver up to its transfer. -/
def receiverSetup (net : Network) (calls : Calls) (w : SocketWorker) (messageSize : BitVec 32) :
    Except Stop Unit := do
  newBuffer messageSize
  Socket.new calls
  Socket.reuseAddress calls
  let pserver ← onlyAddress w.vLocalIP
  Socket.bind calls pserver
  Socket.listen calls
  if w.bNoTcpDelay then Socket.disableNagling calls
  -- The default constructor of the address of the client.
  let _ ← (IPAddress.resolve net none ['0'] afUnspec).mapError .address
  Socket.accept calls

/-- The method `receiver`: the lines printed during and after the transfer. Without a result the
rounds ran out, or a member is not initialised. -/
def receiver (net : Network) (calls : Calls) (w : SocketWorker) (rounds : List RecvRound) :
    Option (Except Stop (List CString)) :=
  w.seconds.bind fun seconds => w.messageSize.bind fun messageSize =>
    match receiverSetup net calls w messageSize with
    | .error stop => some (.error stop)
    | .ok _ =>
      (collect calls (usecs seconds) rounds).map fun s =>
        .ok (s.printed ++ [totalLine s.total (mbps calls s.total (calls.endtime - calls.starttime)),
          "rx exit\n".toList])

/-! ## The printed total -/

/-- An output reports the total `n`: one of its lines says so. -/
def PrintsTotal (out : List CString) (n : ℤ) : Prop :=
  ∃ line ∈ out, "total ".toList ++ decimal n ++ [','] <+: line

theorem takeWhile_decimal (n : ℤ) (rest : CString) :
    (decimal n ++ ',' :: rest).takeWhile (· ≠ ',') = decimal n := by
  have hall : ∀ c ∈ decimal n, decide (c ≠ ',') = true := by
    intro c hc
    refine decide_eq_true fun h => comma_notMem_decimal n ?_
    exact h ▸ hc
  rw [List.takeWhile_append_of_pos hall, List.takeWhile_cons_of_neg (by simp), List.append_nil]

theorem totalLine_iff (total mbps : BitVec 64) (n : ℤ) :
    "total ".toList ++ decimal n ++ [','] <+: totalLine total mbps ↔ total.toInt = n := by
  have hline : totalLine total mbps = "total ".toList ++ (decimal total.toInt ++
      ',' :: (" mbps ".toList ++ decimal (mbps.setWidth 32).toInt ++ "\n".toList)) := by
    have hcomma : ", mbps ".toList = ',' :: " mbps ".toList := rfl
    change "total ".toList ++ decimal total.toInt ++ ", mbps ".toList ++
      decimal (mbps.setWidth 32).toInt ++ "\n".toList = _
    rw [hcomma]
    simp only [List.append_assoc, List.cons_append]
  rw [hline, List.append_assoc, List.prefix_append_right_inj]
  constructor
  · rintro ⟨rest, hrest⟩
    -- Both numbers are what stands before the first comma.
    rw [List.append_assoc, List.singleton_append] at hrest
    have htake := congrArg (List.takeWhile (· ≠ ',')) hrest
    rw [takeWhile_decimal, takeWhile_decimal] at htake
    exact (decimal_injective htake).symm
  · rintro rfl
    exact ⟨_, by rw [List.append_assoc, List.singleton_append]⟩

/-- Other lines do not begin like the one with the total. -/
theorem not_prefix_of_take_two {line rest : CString} (hline : line.take 2 ≠ "to".toList) :
    ¬ "total ".toList ++ rest <+: line := by
  rintro ⟨t, rfl⟩
  exact hline rfl

/-- **The total that a worker reports** is its variable, read as a signed number. -/
theorem printsTotal_iff {printed : List CString} {last : CString} (total mbps : BitVec 64) (n : ℤ)
    (hprinted : ∀ line ∈ printed, line.take 2 ≠ "to".toList) (hlast : last.take 2 ≠ "to".toList) :
    PrintsTotal (printed ++ [totalLine total mbps, last]) n ↔ total.toInt = n := by
  rw [← totalLine_iff total mbps n]
  constructor
  · rintro ⟨line, hmem, hprefix⟩
    rw [List.append_assoc] at hprefix
    rcases List.mem_append.mp hmem with hmem | hmem
    · exact absurd hprefix (not_prefix_of_take_two (hprinted line hmem))
    · rcases List.mem_pair.mp hmem with rfl | rfl
      · rwa [List.append_assoc]
      · exact absurd hprefix (not_prefix_of_take_two hlast)
  · intro hprefix
    exact ⟨_, List.mem_append_right _ List.mem_cons_self, hprefix⟩

theorem printsTotal_pair_iff {last : CString} (total mbps : BitVec 64) (n : ℤ)
    (hlast : last.take 2 ≠ "to".toList) :
    PrintsTotal [totalLine total mbps, last] n ↔ total.toInt = n :=
  printsTotal_iff total mbps n (fun _ hline => absurd hline List.not_mem_nil) hlast

theorem exists_ok_iff {out : List CString} {n : ℤ} :
    (∃ out', some (Except.ok out : Except Stop (List CString)) = some (.ok out') ∧
      PrintsTotal out' n) ↔ PrintsTotal out n := by
  simp

/-! ## The sender -/

/-- The bytes that were sent. -/
def sent (rounds : List SendRound) : ℤ := (rounds.map fun round => round.ret.toInt).sum

/-- A run of the sender: its members are initialised, its set-up succeeds, its loop stops in the
last round, and every `send` takes some or all bytes of the message. -/
structure Sending (net : Network) (calls : Calls) (w : SocketWorker)
    (seconds messageSize : BitVec 32) (rounds : List SendRound) : Prop where
  time : w.seconds = some seconds
  size : w.messageSize = some messageSize
  setup : senderSetup net calls w messageSize = .ok ()
  complete : Stops (SendsOn calls.starttime (usecs seconds)) rounds
  results : ∀ round ∈ rounds, 0 ≤ round.ret.toInt ∧ round.ret.toInt ≤ messageSize.toInt

section Sender

variable {net : Network} {calls : Calls} {w : SocketWorker} {seconds messageSize : BitVec 32}
  {rounds : List SendRound}

/-- Without a failed `send` the loop adds the size of the message in every round. -/
theorem foldl_sendBody (hrounds : ∀ round ∈ rounds, 0 ≤ round.ret.toInt) (total : BitVec 64) :
    rounds.foldl (sendBody messageSize) (.ok total) =
      .ok (total + BitVec.ofInt 64 (rounds.length * messageSize.toInt)) := by
  induction rounds generalizing total with
  | nil => simp
  | cons round rounds ih =>
    obtain ⟨hround, hrest⟩ := List.forall_mem_cons.mp hrounds
    have hstep : sendBody messageSize (.ok total) round =
        .ok (total + messageSize.signExtend 64) := if_neg (not_lt.mpr hround)
    have hword : messageSize.signExtend 64 = BitVec.ofInt 64 messageSize.toInt := rfl
    rw [List.foldl_cons, hstep, ih hrest, hword, BitVec.add_assoc, ← BitVec.ofInt_add]
    congr 3
    rw [List.length_cons]
    push_cast
    ring

/-- **What the sender prints**: the size of the message, as often as it was sent. -/
theorem sender_eq (h : Sending net calls w seconds messageSize rounds) :
    sender net calls w rounds = some (.ok
      [totalLine (BitVec.ofInt 64 (rounds.length * messageSize.toInt))
        (mbps calls (BitVec.ofInt 64 (rounds.length * messageSize.toInt)) (usecs seconds)),
        "tx exit\n".toList]) := by
  obtain ⟨htime, hsize, hsetup, hcomplete, hresults⟩ := h
  have hzero (total : BitVec 64) : 0 + total = total := BitVec.zero_add total
  have htransmit : transmit calls.starttime (usecs seconds) messageSize rounds =
      some (.ok (BitVec.ofInt 64 (rounds.length * messageSize.toInt))) := by
    rw [transmit, doWhile_of_stops hcomplete,
      foldl_sendBody (fun round hround => (hresults round hround).1) 0, hzero]
  rw [sender, htime, hsize, Option.bind_some, Option.bind_some, hsetup]
  dsimp only
  rw [htransmit]
  rfl

theorem sent_nonneg (hresults : ∀ round ∈ rounds, 0 ≤ round.ret.toInt) : 0 ≤ sent rounds := by
  refine List.sum_nonneg fun n hn => ?_
  obtain ⟨round, hround, rfl⟩ := List.mem_map.mp hn
  exact hresults round hround

/-- At most the size of the message is sent in a round, and all of it in every round exactly when
the sizes add up. -/
theorem sent_le (hresults : ∀ round ∈ rounds, round.ret.toInt ≤ messageSize.toInt) :
    sent rounds ≤ rounds.length * messageSize.toInt ∧
      (rounds.length * messageSize.toInt = sent rounds ↔
        ∀ round ∈ rounds, round.ret.toInt = messageSize.toInt) := by
  unfold sent
  induction rounds with
  | nil => simp
  | cons round rounds ih =>
    obtain ⟨hround, hrest⟩ := List.forall_mem_cons.mp hresults
    obtain ⟨hle, hiff⟩ := ih hrest
    rw [List.forall_mem_cons, ← hiff, List.map_cons, List.sum_cons, List.length_cons]
    push_cast
    rw [add_mul, one_mul]
    omega

end Sender

/-! ## The receiver -/

/-- The bytes that were received: the sum of the positive results. -/
def receivedBytes (rounds : List RecvRound) : ℤ :=
  (rounds.map fun round => max 0 round.ret.toInt).sum

/-- A run of the receiver: its members are initialised, its set-up succeeds, and its loop stops in
the last round. -/
structure Receiving (net : Network) (calls : Calls) (w : SocketWorker)
    (seconds messageSize : BitVec 32) (rounds : List RecvRound) : Prop where
  time : w.seconds = some seconds
  size : w.messageSize = some messageSize
  setup : receiverSetup net calls w messageSize = .ok ()
  complete : Stops (RecvsOn calls.starttime (usecs seconds)) rounds

section Receiver

variable {net : Network} {calls : Calls} {w : SocketWorker} {seconds messageSize : BitVec 32}
  {rounds : List RecvRound}

/-- The sum that the loop computes, as an integer. -/
def collected (rounds : List RecvRound) : ℤ := (rounds.map fun round => round.ret.toInt).sum

theorem foldl_recvBody_total (s : RecvState) (rounds : List RecvRound) :
    (rounds.foldl (recvBody calls) s).total = s.total + BitVec.ofInt 64 (collected rounds) := by
  have hproj : rounds.foldl (fun total round => total + round.ret.signExtend 64) s.total =
      (rounds.foldl (recvBody calls) s).total := List.foldl_hom RecvState.total fun _ _ => rfl
  rw [← hproj]
  exact foldl_add_word (fun _ => rfl) s.total rounds

/-- Only errors are printed in the loop. -/
theorem foldl_recvBody_printed (s : RecvState) (rounds : List RecvRound)
    (hs : ∀ line ∈ s.printed, line.take 2 ≠ "to".toList) :
    ∀ line ∈ (rounds.foldl (recvBody calls) s).printed, line.take 2 ≠ "to".toList := by
  induction rounds generalizing s with
  | nil => exact hs
  | cons round rounds ih =>
    refine ih _ fun line hline => ?_
    rw [recvBody] at hline
    dsimp only at hline
    split_ifs at hline
    · rcases List.mem_append.mp hline with hline | hline
      · exact hs line hline
      · obtain rfl := List.mem_singleton.mp hline
        exact (by decide : "re".toList ≠ "to".toList)
    · exact hs line hline

/-- **What the receiver prints**: the sum of all results, an error among them. -/
theorem receiver_eq (h : Receiving net calls w seconds messageSize rounds) :
    ∃ printed, (∀ line ∈ printed, line.take 2 ≠ "to".toList) ∧
      receiver net calls w rounds = some (.ok
        (printed ++ [totalLine (BitVec.ofInt 64 (collected rounds))
          (mbps calls (BitVec.ofInt 64 (collected rounds)) (calls.endtime - calls.starttime)),
          "rx exit\n".toList])) := by
  obtain ⟨htime, hsize, hsetup, hcomplete⟩ := h
  have htotal : (rounds.foldl (recvBody calls) ⟨0, []⟩).total =
      BitVec.ofInt 64 (collected rounds) :=
    (foldl_recvBody_total _ rounds).trans (BitVec.zero_add _)
  refine ⟨(rounds.foldl (recvBody calls) ⟨0, []⟩).printed,
    foldl_recvBody_printed ⟨0, []⟩ rounds (by simp), ?_⟩
  rw [receiver, htime, hsize, Option.bind_some, Option.bind_some, hsetup]
  dsimp only
  rw [collect, doWhile_of_stops hcomplete, Option.map_some, htotal]

/-- Only the last result can be negative: less than `2 ^ 31` is subtracted. -/
theorem neg_le_collected {starttime usecs : BitVec 64}
    (hrounds : Stops (RecvsOn starttime usecs) rounds) : -2 ^ 31 ≤ collected rounds := by
  unfold collected
  induction hrounds with
  | @last round _ =>
    have := BitVec.le_toInt round.ret
    rw [List.map_singleton, List.sum_singleton]
    omega
  | next hgoes _ ih =>
    rw [List.map_cons, List.sum_cons]
    have := hgoes.2
    omega

/-- The sum is at most that of the positive results, and the same exactly without an error. -/
theorem collected_le (rounds : List RecvRound) :
    collected rounds ≤ receivedBytes rounds ∧ 0 ≤ receivedBytes rounds ∧
      (collected rounds = receivedBytes rounds ↔ ∀ round ∈ rounds, 0 ≤ round.ret.toInt) := by
  unfold collected receivedBytes
  induction rounds with
  | nil => simp
  | cons round rounds ih =>
    obtain ⟨hle, hnonneg, hiff⟩ := ih
    rw [List.forall_mem_cons, ← hiff, List.map_cons, List.sum_cons, List.map_cons, List.sum_cons]
    omega

end Receiver

/-! ## When the totals are right -/

/-- **The totals are the bytes transferred** exactly when every `send` takes the whole message, no
`recv` fails, and the totals can be printed as signed numbers. -/
theorem totals_iff {net : Network} {calls calls' : Calls} {w w' : SocketWorker}
    {seconds seconds' messageSize messageSize' : BitVec 32} {sends : List SendRound}
    {recvs : List RecvRound} (hsend : Sending net calls w seconds messageSize sends)
    (hrecv : Receiving net calls' w' seconds' messageSize' recvs)
    (hsends : sends.length * messageSize.toInt < 2 ^ 64) (hrecvs : receivedBytes recvs < 2 ^ 64) :
    ((∃ out, sender net calls w sends = some (.ok out) ∧ PrintsTotal out (sent sends)) ↔
      (∀ round ∈ sends, round.ret.toInt = messageSize.toInt) ∧
        sends.length * messageSize.toInt < 2 ^ 63) ∧
    ((∃ out, receiver net calls' w' recvs = some (.ok out) ∧
        PrintsTotal out (receivedBytes recvs)) ↔
      (∀ round ∈ recvs, 0 ≤ round.ret.toInt) ∧ receivedBytes recvs < 2 ^ 63) := by
  refine ⟨?_, ?_⟩
  · -- The sizes of the messages are at least what was sent, and no total wraps: the printed one is
    -- right exactly when they are the same.
    obtain ⟨hle, hiff⟩ := sent_le fun round hround => (hsend.results round hround).2
    have hsent : 0 ≤ sent sends := sent_nonneg fun round hround => (hsend.results round hround).1
    rw [← hiff, sender_eq hsend, exists_ok_iff, printsTotal_pair_iff _ _ _ (by decide),
      BitVec.toInt_ofInt]
    exact bmod_eq_iff 63 (by omega) hsends hsent
  · -- The sum of the results is at most that of the positive ones, and an error makes it less.
    obtain ⟨printed, hprinted, heq⟩ := receiver_eq hrecv
    obtain ⟨hle, hnonneg, hiff⟩ := collected_le recvs
    have hlo := neg_le_collected hrecv.complete
    rw [← hiff, heq, exists_ok_iff, printsTotal_iff _ _ _ hprinted (by decide), BitVec.toInt_ofInt,
      bmod_eq_iff 63 (by omega) (by omega) hnonneg]
    exact and_congr_right fun h => by rw [h]

/-! ### Two workers on one machine -/

/-- The address of both workers. -/
def testAddress : Sockaddr := ⟨afInet, 0x1600, [127, 0, 0, 1]⟩

/-- A resolver that knows this address. -/
def testNet : Network := ⟨fun _ _ _ => some testAddress, fun _ _ => "127.0.0.1".toList⟩

/-- Calls that all succeed, with the clock at zero. -/
def testCalls : Calls where
  socket := 3
  reuseAddress := 0
  bind _ := 0
  connect _ := 0
  listen := 0
  accept := (4, testAddress)
  tcpNodelay := 0
  errno := 0
  strerror _ := "Success".toList
  starttime := 0
  endtime := 1000000
  infinite := 0

/-- A worker for one second and messages of 1000 bytes. -/
def testWorker (type : ℕ) : SocketWorker :=
  { SocketWorker.new type with
    seconds := some 1, messageSize := some 1000, vLocalIP := [testAddress], vDestIP := [testAddress] }

theorem sending_test {rounds : List SendRound}
    (hcomplete : Stops (SendsOn 0 (usecs 1)) rounds)
    (hresults : ∀ round ∈ rounds, 0 ≤ round.ret.toInt ∧ round.ret.toInt ≤ 1000) :
    Sending testNet testCalls (testWorker 0) 1 1000 rounds :=
  ⟨rfl, rfl, rfl, hcomplete, hresults⟩

theorem receiving_test {rounds : List RecvRound}
    (hcomplete : Stops (RecvsOn 0 (usecs 1)) rounds) :
    Receiving testNet testCalls (testWorker 1) 1 1000 rounds :=
  ⟨rfl, rfl, rfl, hcomplete⟩

/-- Two messages are sent and received whole. -/
theorem totals_two_messages :
    (∃ out, sender testNet testCalls (testWorker 0) [⟨1000, 500000⟩, ⟨1000, 1000000⟩] =
      some (.ok out) ∧ PrintsTotal out 2000) ∧
    (∃ out, receiver testNet testCalls (testWorker 1)
      [⟨1000, 0, 600000⟩, ⟨1000, 0, 900000⟩, ⟨0, 0, 900001⟩] = some (.ok out) ∧
        PrintsTotal out 2000) := by
  have hsend : Sending testNet testCalls (testWorker 0) 1 1000
      [⟨1000, 500000⟩, ⟨1000, 1000000⟩] :=
    sending_test (.next (by decide) (.last (by decide))) (by decide)
  have hrecv : Receiving testNet testCalls (testWorker 1) 1 1000
      [⟨1000, 0, 600000⟩, ⟨1000, 0, 900000⟩, ⟨0, 0, 900001⟩] :=
    receiving_test (.next (by decide) (.next (by decide) (.last (by decide))))
  obtain ⟨hsender, hreceiver⟩ := totals_iff hsend hrecv (by decide) (by decide)
  exact ⟨hsender.mpr (by decide), hreceiver.mpr (by decide)⟩

/-- A message of which 400 bytes are sent is counted whole, and a `recv` that fails at once gives
the total `-1`. -/
theorem totals_short_send_failed_recv :
    (¬ ∃ out, sender testNet testCalls (testWorker 0) [⟨400, 1000000⟩] = some (.ok out) ∧
      PrintsTotal out (sent [⟨400, 1000000⟩])) ∧
    ¬ ∃ out, receiver testNet testCalls (testWorker 1) [⟨-1, 104, 500⟩] = some (.ok out) ∧
      PrintsTotal out (receivedBytes [⟨-1, 104, 500⟩]) := by
  have hsend : Sending testNet testCalls (testWorker 0) 1 1000 [⟨400, 1000000⟩] :=
    sending_test (.last (by decide)) (by decide)
  have hrecv : Receiving testNet testCalls (testWorker 1) 1 1000 [⟨-1, 104, 500⟩] :=
    receiving_test (.last (by decide))
  obtain ⟨printed, hprinted, heq⟩ := receiver_eq hrecv
  refine ⟨?_, ?_⟩
  · rw [sender_eq hsend, exists_ok_iff, printsTotal_pair_iff _ _ _ (by decide)]
    decide
  · rw [heq, exists_ok_iff, printsTotal_iff _ _ _ hprinted (by decide)]
    decide

end LinuxTest.Ethernet.Throughput
