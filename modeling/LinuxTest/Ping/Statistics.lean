import LinuxTest.Foundations.DuplicateWindow
import LinuxTest.Libc
import Mathlib.Algebra.Order.BigOperators.Group.List
import Mathlib.Algebra.Order.Group.Int

/-!
# The statistics of ping

`pinger`, `catcher`, `pr_pack`, `finish` and the loop of `main` in `ethernet_test/ping/ping.c`, with
the options `-c`, `-f`, `-l` and `-s`. The packets that arrive and the signals are inputs of the
loop; a signal arrives while the loop waits. What is printed for each packet is left out.

The program is one of a machine on which a `long` has 32 bits. The counters and the times are such
words, so that a run can be too long for them, and a product of one of them can be too large.

The table `rcvd_tbl` has a bit for each sequence number modulo 1024. It tells a reply from its
duplicates as long as the reply comes before 1024 more packets were sent. In a run of up to 1024
packets the counts are right, whatever the network loses, repeats or reorders.

## Main definitions

* `tst`, `set`, `clr`: the macros for the table
* `Totals`, `pinger`, `prPack`: the counters, and what sends and receives
* `State`, `step`, `loop`: the loop with its signals
* `Report`, `finish`: the end of the program
* `Config.Fits`: a run is too short for a counter to overflow
* `Answers`: the packets that the replies of a run answer

## Main results

* `run_invariant`, `Answers.invariant`: what a whole run keeps
* `counts_of_inTime`: the counts, if all replies are in time
* `counts_of_limited`: the counts of a run with `-c` and up to 1024 packets
* `lossText_of_sent`: not more packets are received than sent
* `status_finish_eq_zero_iff`: when the program succeeds
* `average_mem_bounds`: the average lies between the minimum and the maximum
-/

namespace LinuxTest.Ping

open Foundations

/-! ## The table -/

/-- The array `rcvd_tbl`. -/
abbrev Table := ℕ → BitVec 8

/-- The macro `B`. -/
def bitMask (bit : ℕ) : BitVec 8 := BitVec.twoPow 8 (bit % 8)

/-- The macro `TST`. -/
def tst (tbl : Table) (bit : ℕ) : Bool := tbl (bit / 8) &&& bitMask bit ≠ 0

/-- The macro `SET`. -/
def set (tbl : Table) (bit : ℕ) : Table :=
  Function.update tbl (bit / 8) (tbl (bit / 8) ||| bitMask bit)

/-- The macro `CLR`. -/
def clr (tbl : Table) (bit : ℕ) : Table :=
  Function.update tbl (bit / 8) (tbl (bit / 8) &&& ~~~bitMask bit)

/-- The macro `MAX_DUP_CHK`. -/
def maxDupChk : ℕ := 8 * 128

section Table

variable (tbl : Table) (a b : ℕ)

theorem tst_eq_getLsbD : tst tbl b = (tbl (b / 8)).getLsbD (b % 8) := by
  have hlt : b % 8 < 8 := Nat.mod_lt b (by decide)
  have hne : BitVec.twoPow 8 (b % 8) ≠ 0 := by
    intro hzero
    have hbit := congrArg (fun x => BitVec.getLsbD x (b % 8)) hzero
    simp [hlt] at hbit
  rw [tst, bitMask, BitVec.and_twoPow]
  cases (tbl (b / 8)).getLsbD (b % 8) with
  | true => simpa using hne
  | false => simp

/-- Two bits are the same if they are in one byte, at one position. -/
theorem div_mod_eight_ne (hdiv : a / 8 = b / 8) (hne : a ≠ b) : a % 8 ≠ b % 8 := by omega

theorem tst_set : tst (set tbl a) b = (tst tbl b || decide (a = b)) := by
  have hlt : b % 8 < 8 := Nat.mod_lt b (by decide)
  rw [tst_eq_getLsbD, tst_eq_getLsbD, set]
  by_cases hdiv : a / 8 = b / 8
  · rw [← hdiv, Function.update_self, BitVec.getLsbD_or, bitMask, BitVec.getLsbD_twoPow]
    by_cases hab : a = b
    · simp [hab, hlt]
    · simp [hab, div_mod_eight_ne a b hdiv hab]
  · have hab : a ≠ b := fun heq => hdiv (congrArg (· / 8) heq)
    rw [Function.update_of_ne (Ne.symm hdiv)]
    simp [hab]

theorem tst_clr : tst (clr tbl a) b = (tst tbl b && decide (a ≠ b)) := by
  have hlt : b % 8 < 8 := Nat.mod_lt b (by decide)
  rw [tst_eq_getLsbD, tst_eq_getLsbD, clr]
  by_cases hdiv : a / 8 = b / 8
  · rw [← hdiv, Function.update_self, BitVec.getLsbD_and, BitVec.getLsbD_not, bitMask,
      BitVec.getLsbD_twoPow]
    by_cases hab : a = b
    · simp [hab, hlt]
    · simp [hab, hlt, div_mod_eight_ne a b hdiv hab]
  · have hab : a ≠ b := fun heq => hdiv (congrArg (· / 8) heq)
    rw [Function.update_of_ne (Ne.symm hdiv)]
    simp [hab]

end Table

/-! ## Packets and counters -/

/-- The structure `timeval`. -/
structure Timeval where
  tvSec : BitVec 32
  tvUsec : BitVec 32
deriving Repr, DecidableEq

namespace Timeval

/-- The time in microseconds. -/
def micros (t : Timeval) : ℤ := t.tvSec.toInt * 1000000 + t.tvUsec.toInt

/-- The microseconds are less than a second. -/
def Normal (t : Timeval) : Prop := 0 ≤ t.tvUsec.toInt ∧ t.tvUsec.toInt < 1000000

instance (t : Timeval) : Decidable t.Normal := inferInstanceAs (Decidable (_ ∧ _))

end Timeval

/-- The function `tvsub`. -/
def tvsub (out i : Timeval) : Timeval :=
  let usec := out.tvUsec - i.tvUsec
  if usec.toInt < 0 then ⟨out.tvSec - 1 - i.tvSec, usec + 1000000⟩ else ⟨out.tvSec - i.tvSec, usec⟩

/-- The fields of a packet that are used, with the time of its arrival and the time that it
carries. -/
structure Packet where
  cc : ℕ
  icmpType : BitVec 8
  icmpId : BitVec 16
  icmpSeq : BitVec 16
  arrival : Timeval
  carried : Timeval
deriving Repr, DecidableEq

/-- The options: without `-c` the number of packets is zero, and without `-l` the preload is. -/
structure Config where
  ident : BitVec 16
  datalen : ℕ
  npackets : BitVec 32
  preload : ℕ
  flood : Bool
deriving Repr, DecidableEq

/-- The variable `timing`: the data has room for a time. -/
def Config.timing (c : Config) : Bool := 8 ≤ c.datalen

/-- The packet is long enough, and a reply to one of this process. -/
def Config.Ours (c : Config) (r : Packet) : Prop :=
  c.datalen + 8 ≤ r.cc ∧ r.icmpType = 0 ∧ r.icmpId = c.ident

instance (c : Config) (r : Packet) : Decidable (c.Ours r) :=
  inferInstanceAs (Decidable (_ ∧ _ ∧ _))

/-- The variable `triptime`, in tenths of a millisecond. -/
def triptime (r : Packet) : BitVec 32 :=
  let tv := tvsub r.arrival r.carried
  tv.tvSec * 10000 + tv.tvUsec.sdiv 100

/-- The counters and the table. -/
structure Counts where
  ntransmitted : BitVec 32
  nreceived : BitVec 32
  nrepeats : BitVec 32
  rcvdTbl : Table

/-- The counters, the table and the times. -/
structure Totals extends Counts where
  tmin : BitVec 32
  tmax : BitVec 32
  tsum : BitVec 32

/-- The variables at the start. -/
def Totals.start : Totals := ⟨⟨0, 0, 0, fun _ => 0⟩, 0x7fffffff, 0, 0⟩

/-- The function `pinger`: a packet is sent, and its bit in the table is cleared. -/
def pinger (p : Totals) : Totals :=
  let icmpSeq := p.ntransmitted.setWidth 16
  { p with
    ntransmitted := p.ntransmitted + 1
    rcvdTbl := clr p.rcvdTbl (icmpSeq.toNat % maxDupChk) }

/-- The times of `pr_pack`. -/
def recordTime (c : Config) (p : Totals) (r : Packet) : Totals :=
  if c.timing then
    { p with
      tsum := p.tsum + triptime r
      tmin := if (triptime r).toInt < p.tmin.toInt then triptime r else p.tmin
      tmax := if (triptime r).toInt > p.tmax.toInt then triptime r else p.tmax }
  else p

/-- The function `pr_pack`, without what it prints. -/
def prPack (c : Config) (p : Totals) (r : Packet) : Totals :=
  if c.Ours r then
    let p := recordTime c { p with nreceived := p.nreceived + 1 } r
    let bit := r.icmpSeq.toNat % maxDupChk
    if tst p.rcvdTbl bit then
      { p with nrepeats := p.nrepeats + 1, nreceived := p.nreceived - 1 }
    else { p with rcvdTbl := set p.rcvdTbl bit }
  else p

/-! ## The loop -/

/-- The handler of `SIGALRM`. -/
inductive Handler where
  | catcher
  | finish
deriving Repr, DecidableEq

/-- What the loop of `main` waits for: a packet, a signal, or that nothing is there to read, or a
call of `recvfrom` that failed. -/
inductive Input where
  | packet (r : Packet)
  | failed
  | alarm
  | interrupt
deriving Repr, DecidableEq

/-- The counters, and the handler. -/
structure State where
  totals : Totals
  handler : Handler

/-- The function `catcher`. -/
def catcher (c : Config) (p : Totals) : State :=
  let p := pinger p
  ⟨p, if c.npackets = 0 ∨ p.ntransmitted.toInt < c.npackets.toInt then .catcher else .finish⟩

/-- The variables before the loop: the preload is sent, and without `-f` the first packet. -/
def launch (c : Config) : State :=
  let p := pinger^[c.preload] .start
  if c.flood then ⟨p, .catcher⟩ else catcher c p

/-- The head of the loop: a flood sends a packet. -/
def head (c : Config) (s : State) : State :=
  if c.flood then { s with totals := pinger s.totals } else s

/-- What an input does to the variables. -/
def handle (c : Config) (s : State) : Input → State
  | .packet r => { s with totals := prPack c s.totals r }
  | .failed => s
  | .alarm => if s.handler = .catcher then catcher c s.totals else s
  | .interrupt => s

/-- The program ends with an input: all packets were received, or `finish` handles a signal. -/
def Ends (c : Config) (s : State) : Input → Prop
  | .packet r => c.npackets ≠ 0 ∧ c.npackets.toInt ≤ (prPack c s.totals r).nreceived.toInt
  | .failed => False
  | .alarm => s.handler = .finish
  | .interrupt => True

instance (c : Config) (s : State) (x : Input) : Decidable (Ends c s x) := by
  cases x <;> unfold Ends <;> infer_instance

/-- A round of the loop. -/
def step (c : Config) (s : State) (x : Input) : State := handle c (head c s) x

/-- The loop of `main`, up to the call of `finish`, with the inputs that are left. -/
def loop (c : Config) : State → List Input → Option (Totals × List Input)
  | _, [] => none
  | s, x :: xs =>
    if Ends c (head c s) x then some ((step c s x).totals, xs) else loop c (step c s x) xs

/-- The program, from the first packet on. -/
def main (c : Config) (xs : List Input) : Option (Totals × List Input) := loop c (launch c) xs

/-- What `finish` prints, and the status. -/
structure Report where
  text : CString
  status : ℕ
deriving Repr, DecidableEq

/-- The line about packets that are lost. -/
def lossText (p : Totals) : CString :=
  if p.ntransmitted = 0 then []
  else if p.nreceived.toInt > p.ntransmitted.toInt then
    "-- somebody's printing up packets!".toList
  else
    decimal (((p.ntransmitted - p.nreceived) * 100).sdiv p.ntransmitted).toInt ++
      "% packet loss".toList

/-- The average of the times, which is not signed. -/
def average (p : Totals) : BitVec 32 := p.tsum / (p.nreceived + p.nrepeats)

/-- A number of tenths. -/
def tenths (t : ℤ) : CString := decimal (t.tdiv 10) ++ ".".toList ++ decimal (t.tmod 10)

/-- The line about the times. -/
def timesText (c : Config) (p : Totals) : CString :=
  if p.nreceived ≠ 0 ∧ c.timing then
    "round-trip min/avg/max = ".toList ++ tenths p.tmin.toInt ++ "/".toList ++
      tenths (average p).toNat ++ "/".toList ++ tenths p.tmax.toInt ++ " ms\n".toList
  else []

/-- The function `finish`. -/
def finish (c : Config) (hostname : CString) (p : Totals) : Report where
  text := "\n--- ".toList ++ hostname ++ " ping statistics ---\n".toList ++
    decimal p.ntransmitted.toInt ++ " packets transmitted, ".toList ++
    decimal p.nreceived.toInt ++ " packets received, ".toList ++
    (if p.nrepeats ≠ 0 then "+".toList ++ decimal p.nrepeats.toInt ++ " duplicates, ".toList
      else []) ++
    lossText p ++ "\n".toList ++ timesText c p
  status := if p.nreceived = 0 then 1 else 0

/-- The run is too short for a counter to overflow: a round sends two packets at most. -/
def Config.Fits (c : Config) (xs : List Input) : Prop := c.preload + 1 + 2 * xs.length < 2 ^ 31

instance (c : Config) (xs : List Input) : Decidable (c.Fits xs) :=
  inferInstanceAs (Decidable (_ < _))

/-! ## What a step does -/

section Steps

variable {c : Config} {p : Totals} {s : State} {r : Packet} {xs : List Input} {n : ℕ}

theorem toNat_succ {x : BitVec 32} (hx : x.toNat + 1 < 2 ^ 31) : (x + 1).toNat = x.toNat + 1 := by
  have hone : (1 : BitVec 32).toNat = 1 := rfl
  rw [BitVec.toNat_add, hone]
  exact Nat.mod_eq_of_lt (by omega)

/-- A counter that did not overflow is not negative. -/
theorem toInt_eq_toNat {x : BitVec 32} (hx : x.toNat < 2 ^ 31) : x.toInt = x.toNat :=
  BitVec.toInt_eq_toNat_of_lt (by omega)

theorem seq_mod (n : ℕ) : (BitVec.ofNat 16 n).toNat % maxDupChk = n % maxDupChk := by
  rw [BitVec.toNat_ofNat]
  exact Nat.mod_mod_of_dvd n (by decide)

theorem tst_pinger (p : Totals) (b : ℕ) :
    tst (pinger p).rcvdTbl b =
      (tst p.rcvdTbl b && decide (p.ntransmitted.toNat % maxDupChk ≠ b)) := by
  have hseq : (p.ntransmitted.setWidth 16).toNat % maxDupChk =
      p.ntransmitted.toNat % maxDupChk := by
    rw [BitVec.toNat_setWidth]
    exact Nat.mod_mod_of_dvd _ (by decide)
  rw [← hseq]
  exact tst_clr p.rcvdTbl _ b

@[simp] theorem toCounts_recordTime (c : Config) (p : Totals) (r : Packet) :
    (recordTime c p r).toCounts = p.toCounts := by
  unfold recordTime
  split_ifs <;> rfl

theorem prPack_of_not_ours (h : ¬ c.Ours r) (p : Totals) : prPack c p r = p := if_neg h

/-- A reply is counted once, as a new one or as a duplicate. -/
theorem toCounts_prPack (h : c.Ours r) (p : Totals) :
    (prPack c p r).toCounts =
      if tst p.rcvdTbl (r.icmpSeq.toNat % maxDupChk) then
        { p.toCounts with nrepeats := p.nrepeats + 1 }
      else
        { p.toCounts with
          nreceived := p.nreceived + 1
          rcvdTbl := set p.rcvdTbl (r.icmpSeq.toNat % maxDupChk) } := by
  have hcounts := toCounts_recordTime c { p with nreceived := p.nreceived + 1 } r
  generalize hrec : recordTime c { p with nreceived := p.nreceived + 1 } r = q at hcounts
  rw [prPack, if_pos h, hrec]
  simp only [hcounts]
  split_ifs
  · simp only [add_sub_cancel_right]
  · rfl

theorem ntransmitted_prPack (c : Config) (p : Totals) (r : Packet) :
    (prPack c p r).ntransmitted = p.ntransmitted := by
  by_cases hours : c.Ours r
  · rw [toCounts_prPack hours]
    split_ifs <;> rfl
  · rw [prPack_of_not_ours hours]

/-- Either way there is one reply more. -/
theorem replies_prPack (hours : c.Ours r) (hp : p.nreceived.toNat + p.nrepeats.toNat + 1 < 2 ^ 31) :
    (prPack c p r).nreceived.toNat + (prPack c p r).nrepeats.toNat =
      p.nreceived.toNat + p.nrepeats.toNat + 1 := by
  rw [toCounts_prPack hours]
  split_ifs
  · dsimp only
    rw [toNat_succ (by omega)]
    exact (Nat.add_assoc ..).symm
  · dsimp only
    rw [toNat_succ (by omega)]
    exact Nat.add_right_comm ..

/-- The counters are at most `n`. -/
structure Small (n : ℕ) (k : Counts) : Prop where
  sent : k.ntransmitted.toNat ≤ n
  replies : k.nreceived.toNat + k.nrepeats.toNat ≤ n

theorem Small.mono {k : Counts} (h : Small n k) : Small (n + 1) k :=
  ⟨Nat.le_succ_of_le h.sent, Nat.le_succ_of_le h.replies⟩

theorem Small.pinger (hn : n + 1 < 2 ^ 31) (h : Small n p.toCounts) :
    Small (n + 1) (pinger p).toCounts where
  sent := by
    have hsent := h.sent
    exact (toNat_succ (by omega)).trans_le (Nat.succ_le_succ hsent)
  replies := Nat.le_succ_of_le h.replies

theorem Small.prPack (hn : n + 1 < 2 ^ 31) (h : Small n p.toCounts) (r : Packet) :
    Small (n + 1) (prPack c p r).toCounts := by
  by_cases hours : c.Ours r
  · have hreplies := h.replies
    refine ⟨?_, ?_⟩
    · rw [ntransmitted_prPack]
      exact Nat.le_succ_of_le h.sent
    · rw [replies_prPack hours (by omega)]
      exact Nat.succ_le_succ hreplies
  · rw [prPack_of_not_ours hours]
    exact h.mono

/-- What sending keeps holds after a packet was sent, or nothing was done. -/
theorem sends_invariant {J : Totals → Prop} {q : Totals}
    (hpinger : ∀ p, p.ntransmitted.toNat + 1 < 2 ^ 31 → J p → J (pinger p))
    (hp : p.ntransmitted.toNat + 1 < 2 ^ 31) (hJ : J p) (hq : q = p ∨ q = pinger p) : J q := by
  rcases hq with rfl | rfl
  · exact hJ
  · exact hpinger p hp hJ

/-- The head of the loop sends a packet, or does nothing. -/
theorem totals_head (c : Config) (s : State) :
    (head c s).totals = s.totals ∨ (head c s).totals = pinger s.totals := by
  unfold head
  split_ifs
  · exact Or.inr rfl
  · exact Or.inl rfl

/-- An input that is not a reply sends a packet, or does nothing. -/
theorem totals_handle (s : State) {x : Input} (hother : ∀ r, x = .packet r → ¬ c.Ours r) :
    (handle c s x).totals = s.totals ∨ (handle c s x).totals = pinger s.totals := by
  cases x with
  | packet r => exact Or.inl (prPack_of_not_ours (hother r rfl) s.totals)
  | failed => exact Or.inl rfl
  | alarm =>
    rw [handle]
    split_ifs
    · exact Or.inr rfl
    · exact Or.inl rfl
  | interrupt => exact Or.inl rfl

theorem Small.of_sends {q : Totals} (hn : n + 1 < 2 ^ 31) (h : Small n p.toCounts)
    (hq : q = p ∨ q = Ping.pinger p) : Small (n + 1) q.toCounts := by
  rcases hq with rfl | rfl
  · exact h.mono
  · exact h.pinger hn

theorem Small.head (hn : n + 1 < 2 ^ 31) (h : Small n s.totals.toCounts) :
    Small (n + 1) (head c s).totals.toCounts :=
  h.of_sends hn (totals_head c s)

theorem Small.handle (hn : n + 1 < 2 ^ 31) (h : Small n s.totals.toCounts) (x : Input) :
    Small (n + 1) (handle c s x).totals.toCounts := by
  by_cases hother : ∀ r, x = .packet r → ¬ c.Ours r
  · exact h.of_sends hn (totals_handle s hother)
  · push Not at hother
    obtain ⟨r, rfl, -⟩ := hother
    exact h.prPack hn r

theorem Small.step (hn : n + 2 < 2 ^ 31) (h : Small n s.totals.toCounts) (x : Input) :
    Small (n + 2) (step c s x).totals.toCounts :=
  (h.head (by omega)).handle hn x

/-- The variables after all inputs. -/
def run (c : Config) (s : State) (xs : List Input) : State := xs.foldl (step c) s

@[simp] theorem run_nil (c : Config) (s : State) : run c s [] = s := rfl

@[simp] theorem run_cons (c : Config) (s : State) (x : Input) (xs : List Input) :
    run c s (x :: xs) = run c (step c s x) xs := rfl

/-- The counters after a run. -/
theorem Small.run (hn : n + 2 * xs.length < 2 ^ 31) (h : Small n s.totals.toCounts) :
    Small (n + 2 * xs.length) (run c s xs).totals.toCounts := by
  induction xs generalizing s n with
  | nil => exact h
  | cons x xs ih =>
    rw [List.length_cons] at hn ⊢
    have hlength : n + 2 * (xs.length + 1) = n + 2 + 2 * xs.length := by omega
    rw [hlength]
    exact ih (by omega) (h.step (by omega) x)

/-- The loop ends with the variables after the inputs that it took. -/
theorem run_of_loop (h : loop c s xs = some (p, [])) : p = (run c s xs).totals := by
  induction xs generalizing s with
  | nil => exact absurd h nofun
  | cons x xs ih =>
    rw [loop] at h
    split_ifs at h with hends
    · obtain ⟨rfl, rfl⟩ := Prod.mk.inj (Option.some_inj.mp h)
      rfl
    · exact ih h

/-- The replies to packets of this process. -/
def replies (c : Config) (xs : List Input) : List Packet :=
  xs.filterMap fun x =>
    match x with
    | .packet r => if c.Ours r then some r else none
    | _ => none

theorem replies_cons_of_other {x : Input} (hother : ∀ r, x = .packet r → ¬ c.Ours r) :
    replies c (x :: xs) = replies c xs := by
  cases x with
  | packet r => exact List.filterMap_cons_none (if_neg (hother r rfl))
  | failed => rfl
  | alarm => rfl
  | interrupt => rfl

theorem replies_cons_of_ours (hours : c.Ours r) :
    replies c (.packet r :: xs) = r :: replies c xs :=
  List.filterMap_cons_some (if_pos hours)

/-- **What sending keeps, and each reply extends**, holds after a run for all its replies, as long
as no counter overflows. -/
theorem run_invariant {I : Totals → List Packet → Prop}
    (hpinger : ∀ p rs, p.ntransmitted.toNat + 1 < 2 ^ 31 → I p rs → I (pinger p) rs)
    (hreply : ∀ p rs r, c.Ours r → p.nreceived.toNat + p.nrepeats.toNat + 1 < 2 ^ 31 → I p rs →
      I (prPack c p r) (rs ++ [r])) {rs : List Packet} (hsmall : Small n s.totals.toCounts)
    (hn : n + 2 * xs.length < 2 ^ 31) (hs : I s.totals rs) :
    I (run c s xs).totals (rs ++ replies c xs) := by
  induction xs generalizing s rs n with
  | nil => rwa [replies, List.filterMap_nil, List.append_nil]
  | cons x xs ih =>
    rw [List.length_cons] at hn
    have hsent := hsmall.sent
    have hsmall' : Small (n + 1) (head c s).totals.toCounts := hsmall.head (by omega)
    have hhead : I (head c s).totals rs :=
      sends_invariant (J := (I · rs)) (hpinger · rs) (by omega) hs (totals_head c s)
    have hsent' := hsmall'.sent
    have hreplies' := hsmall'.replies
    have hnext := hsmall.step (c := c) (by omega) x
    by_cases hother : ∀ r, x = .packet r → ¬ c.Ours r
    · rw [replies_cons_of_other hother]
      exact ih hnext (by omega) (sends_invariant (J := (I · rs)) (hpinger · rs) (by omega) hhead
        (totals_handle _ hother))
    · push Not at hother
      obtain ⟨r, rfl, hours⟩ := hother
      rw [replies_cons_of_ours hours, List.append_cons]
      exact ih hnext (by omega) (hreply _ rs r hours (by omega) hhead)

theorem small_preload {k : ℕ} (hk : k < 2 ^ 31) : Small k (pinger^[k] Totals.start).toCounts := by
  induction k with
  | zero => exact ⟨Nat.le_refl 0, Nat.le_refl 0⟩
  | succ k ih =>
    rw [Function.iterate_succ_apply']
    exact (ih (by omega)).pinger hk

theorem ntransmitted_preload {k : ℕ} (hk : k < 2 ^ 31) :
    (pinger^[k] .start).ntransmitted.toNat = k := by
  induction k with
  | zero => rfl
  | succ k ih =>
    have hk' := ih (by omega)
    rw [Function.iterate_succ_apply']
    exact (toNat_succ (by omega)).trans (congrArg (· + 1) hk')

theorem small_launch (hpreload : c.preload + 1 < 2 ^ 31) :
    Small (c.preload + 1) (launch c).totals.toCounts := by
  have hsmall := small_preload (k := c.preload) (by omega)
  unfold launch
  dsimp only
  split_ifs
  · exact hsmall.mono
  · exact hsmall.pinger hpreload

/-- **What sending keeps** holds when the loop begins. -/
theorem launch_invariant {I : Totals → Prop} (hpreload : c.preload + 1 < 2 ^ 31)
    (hpinger : ∀ p, p.ntransmitted.toNat + 1 < 2 ^ 31 → I p → I (pinger p)) (hstart : I .start) :
    I (launch c).totals := by
  have hpreloaded : ∀ k ≤ c.preload, I (pinger^[k] .start) := by
    intro k
    induction k with
    | zero => exact fun _ => hstart
    | succ k ih =>
      intro hk
      have hsent := ntransmitted_preload (k := k) (by omega)
      rw [Function.iterate_succ_apply']
      exact hpinger _ (by omega) (ih (by omega))
  have hsent := ntransmitted_preload (k := c.preload) (by omega)
  unfold launch
  dsimp only
  split_ifs
  · exact hpreloaded _ (Nat.le_refl _)
  · exact hpinger _ (by omega) (hpreloaded _ (Nat.le_refl _))

/-- **No counter overflows** in a run that fits. -/
theorem small_of_main (hfits : c.Fits xs) (hmain : main c xs = some (p, [])) :
    p.ntransmitted.toNat < 2 ^ 31 ∧ p.nreceived.toNat + p.nrepeats.toNat < 2 ^ 31 := by
  unfold Config.Fits at hfits
  obtain ⟨hsent, hreplies⟩ := (small_launch (c := c) (by omega)).run (c := c) hfits
  rw [← run_of_loop hmain] at hsent hreplies
  exact ⟨hsent.trans_lt hfits, hreplies.trans_lt hfits⟩

/-- What sending keeps, and each reply extends, holds at the end of the program for all replies. -/
theorem main_invariant {I : Totals → List Packet → Prop} (hfits : c.Fits xs)
    (hmain : main c xs = some (p, []))
    (hpinger : ∀ p rs, p.ntransmitted.toNat + 1 < 2 ^ 31 → I p rs → I (pinger p) rs)
    (hreply : ∀ p rs r, c.Ours r → p.nreceived.toNat + p.nrepeats.toNat + 1 < 2 ^ 31 → I p rs →
      I (prPack c p r) (rs ++ [r])) (hstart : I .start []) : I p (replies c xs) := by
  unfold Config.Fits at hfits
  have hlaunch : I (launch c).totals [] :=
    launch_invariant (I := fun p => I p []) (by omega) (fun p => hpinger p []) hstart
  rw [run_of_loop hmain]
  exact run_invariant hpinger hreply (small_launch (by omega)) hfits hlaunch

end Steps

/-! ## Replies and the packets they answer -/

/-- `ping -c 2`. -/
def twoPackets : Config := ⟨7, 56, 2, 0, false⟩

/-- A reply after a millisecond. -/
def promptReply (icmpSeq : BitVec 16) : Packet := ⟨84, 0, 7, icmpSeq, ⟨10, 1000⟩, ⟨10, 0⟩⟩

/-- The first reply comes twice. -/
def duplicated : List Input :=
  [.packet (promptReply 0), .packet (promptReply 0), .alarm, .packet (promptReply 1)]

/-- The variables at the end of a run with a duplicate. -/
def duplicatedEnd : Totals := (run twoPackets (launch twoPackets) duplicated).totals

theorem main_duplicated : main twoPackets duplicated = some (duplicatedEnd, []) := rfl

/-- The replies of a run, in their order, answer the packets with the numbers `is`. How a number is
related to the number of packets that were sent at that time is a parameter. -/
inductive Answers (c : Config) (W : ℕ → ℕ → Prop) : State → List Input → List ℕ → Prop
  | nil (s : State) : Answers c W s [] []
  | reply {s : State} {r : Packet} {xs : List Input} {i : ℕ} {is : List ℕ} (hours : c.Ours r)
      (hseq : r.icmpSeq = BitVec.ofNat 16 i) (hsent : W (head c s).totals.ntransmitted.toNat i)
      (hrest : Answers c W (step c s (.packet r)) xs is) : Answers c W s (.packet r :: xs) (i :: is)
  | other {s : State} {x : Input} {xs : List Input} {is : List ℕ}
      (hother : ∀ r, x = .packet r → ¬ c.Ours r) (hrest : Answers c W (step c s x) xs is) :
      Answers c W s (x :: xs) is

/-- The packet was sent before. -/
def Sent (n i : ℕ) : Prop := i < n

theorem answers_duplicated :
    Answers twoPackets Sent (launch twoPackets) duplicated [0, 0, 1] :=
  .reply (by decide) rfl (show 0 < 1 by decide) <|
  .reply (by decide) rfl (show 0 < 1 by decide) <|
  .other nofun <|
  .reply (by decide) rfl (show 1 < 2 by decide) <| .nil _

/-- The packet was sent before, and is one of the last 1024. -/
def InTime (n i : ℕ) : Prop := i < n ∧ n ≤ i + maxDupChk

/-- **What sending keeps, and each answer extends**, holds after a run for all its answers, as long
as no counter overflows. -/
theorem Answers.invariant {c : Config} {W : ℕ → ℕ → Prop} {I : Counts → List ℕ → Prop}
    (hpinger : ∀ (p : Totals) (is : List ℕ), p.ntransmitted.toNat + 1 < 2 ^ 31 → I p.toCounts is →
      I (pinger p).toCounts is)
    (hreply : ∀ (p : Totals) (is : List ℕ) (r : Packet) (i : ℕ), c.Ours r →
      r.icmpSeq = BitVec.ofNat 16 i → p.nreceived.toNat + p.nrepeats.toNat + 1 < 2 ^ 31 →
        W p.ntransmitted.toNat i → I p.toCounts is → I (prPack c p r).toCounts (is ++ [i]))
    {s : State} {xs : List Input} {is' : List ℕ} (h : Answers c W s xs is') (is : List ℕ) {n : ℕ}
    (hsmall : Small n s.totals.toCounts) (hn : n + 2 * xs.length < 2 ^ 31)
    (hs : I s.totals.toCounts is) : I (run c s xs).totals.toCounts (is ++ is') := by
  induction h generalizing is n with
  | nil s => rwa [List.append_nil]
  | @reply s r xs i _ hours hseq hsent _ ih =>
    rw [List.length_cons] at hn
    have hbefore := hsmall.sent
    have hhead : I (head c s).totals.toCounts is :=
      sends_invariant (J := (I ·.toCounts is)) (hpinger · is) (by omega) hs (totals_head c s)
    have hreplies := (hsmall.head (c := c) (by omega)).replies
    rw [List.append_cons]
    exact ih (is ++ [i]) (hsmall.step (by omega) _) (by omega)
      (hreply _ is r i hours hseq (by omega) hsent hhead)
  | @other s x xs _ hother _ ih =>
    rw [List.length_cons] at hn
    have hbefore := hsmall.sent
    have hhead : I (head c s).totals.toCounts is :=
      sends_invariant (J := (I ·.toCounts is)) (hpinger · is) (by omega) hs (totals_head c s)
    have hafter := (hsmall.head (c := c) (by omega)).sent
    exact ih is (hsmall.step (by omega) _) (by omega)
      (sends_invariant (J := (I ·.toCounts is)) (hpinger · is) (by omega) hhead
        (totals_handle _ hother))

/-- What sending keeps, and each answer extends, holds at the end of the program for all answers. -/
theorem Answers.main_invariant {c : Config} {W : ℕ → ℕ → Prop} {I : Counts → List ℕ → Prop}
    {xs : List Input} {is : List ℕ} {p : Totals} (h : Answers c W (launch c) xs is)
    (hfits : c.Fits xs) (hmain : main c xs = some (p, []))
    (hpinger : ∀ (p : Totals) (is : List ℕ), p.ntransmitted.toNat + 1 < 2 ^ 31 → I p.toCounts is →
      I (pinger p).toCounts is)
    (hreply : ∀ (p : Totals) (is : List ℕ) (r : Packet) (i : ℕ), c.Ours r →
      r.icmpSeq = BitVec.ofNat 16 i → p.nreceived.toNat + p.nrepeats.toNat + 1 < 2 ^ 31 →
        W p.ntransmitted.toNat i → I p.toCounts is → I (prPack c p r).toCounts (is ++ [i]))
    (hstart : I Totals.start.toCounts []) : I p.toCounts is := by
  unfold Config.Fits at hfits
  have hlaunch : I (launch c).totals.toCounts [] :=
    launch_invariant (I := fun p => I p.toCounts []) (by omega) (fun p => hpinger p []) hstart
  rw [run_of_loop hmain]
  exact h.invariant hpinger hreply [] (small_launch (by omega)) hfits hlaunch

/-- The counts are those of the packets that were answered. -/
structure Exact (k : Counts) (is : List ℕ) : Prop where
  sent : ∀ i ∈ is.toFinset, i < k.ntransmitted.toNat
  remembers : Remembers maxDupChk k.ntransmitted.toNat is.toFinset (tst k.rcvdTbl)
  received : k.nreceived.toNat = is.toFinset.card
  total : k.nreceived.toNat + k.nrepeats.toNat = is.length

section Exact

variable {c : Config} {p : Totals} {s : State} {r : Packet} {xs : List Input} {is : List ℕ}

theorem exact_start : Exact Totals.start.toCounts [] where
  sent i hi := absurd hi (Finset.notMem_empty i)
  remembers := Remembers.empty fun r _ => by simp [tst_eq_getLsbD, Totals.start]
  received := rfl
  total := rfl

theorem Exact.pinger (hp : p.ntransmitted.toNat + 1 < 2 ^ 31) (h : Exact p.toCounts is) :
    Exact (pinger p).toCounts is := by
  have hsucc : (Ping.pinger p).ntransmitted.toNat = p.ntransmitted.toNat + 1 := toNat_succ hp
  refine ⟨fun i hi => ?_, ?_, h.received, h.total⟩
  · rw [hsucc]
    exact Nat.lt_succ_of_lt (h.sent i hi)
  · rw [hsucc]
    exact h.remembers.succ h.sent fun r _ => tst_pinger p r

theorem Exact.prPack (h : Exact p.toCounts is) (hours : c.Ours r) {i : ℕ}
    (hseq : r.icmpSeq = BitVec.ofNat 16 i)
    (hp : p.nreceived.toNat + p.nrepeats.toNat + 1 < 2 ^ 31)
    (hsent : InTime p.ntransmitted.toNat i) : Exact (prPack c p r).toCounts (is ++ [i]) := by
  have hbit : r.icmpSeq.toNat % maxDupChk = i % maxDupChk := by rw [hseq, seq_mod]
  have hmem := h.remembers.iff_mem h.sent hsent.1 hsent.2
  have hfinset : (is ++ [i]).toFinset = insert i is.toFinset := by
    ext k
    simp
  have htotal : (Ping.prPack c p r).nreceived.toNat + (Ping.prPack c p r).nrepeats.toNat =
      (is ++ [i]).length := by
    rw [replies_prPack hours hp, List.length_append, List.length_singleton, h.total]
  rw [toCounts_prPack hours, hbit] at htotal ⊢
  by_cases htst : tst p.rcvdTbl (i % maxDupChk) = true
  · -- The packet was answered before.
    rw [if_pos htst] at htotal ⊢
    have hinsert : insert i is.toFinset = is.toFinset := Finset.insert_eq_of_mem (hmem.mp htst)
    rw [hinsert] at hfinset
    refine ⟨?_, ?_, ?_, htotal⟩
    · rw [hfinset]
      exact h.sent
    · rw [hfinset]
      exact h.remembers
    · rw [hfinset]
      exact h.received
  · rw [if_neg htst] at htotal ⊢
    refine ⟨?_, ?_, ?_, htotal⟩
    · rw [hfinset]
      intro k hk
      rcases Finset.mem_insert.mp hk with rfl | hk
      · exact hsent.1
      · exact h.sent k hk
    · rw [hfinset]
      exact h.remembers.insert hsent.2 fun r _ => tst_set p.rcvdTbl _ r
    · dsimp only
      rw [hfinset, Finset.card_insert_of_notMem fun hi => htst (hmem.mpr hi),
        toNat_succ (by omega), h.received]

theorem exact_of_main (hfits : c.Fits xs) (hmain : main c xs = some (p, []))
    (hanswers : Answers c InTime (launch c) xs is) : Exact p.toCounts is :=
  hanswers.main_invariant hfits hmain (fun _ _ hp h => h.pinger hp)
    (fun _ _ _ _ hours hseq hp hsent h => h.prPack hours hseq hp hsent) exact_start

/-- **The counts, if all replies are in time**: a packet that is answered counts once, however often
it is answered, and each further answer is a duplicate. -/
theorem counts_of_inTime (hfits : c.Fits xs) (hmain : main c xs = some (p, []))
    (hanswers : Answers c InTime (launch c) xs is) :
    p.nreceived.toNat = is.toFinset.card ∧
      p.nreceived.toNat + p.nrepeats.toNat = is.length :=
  have hexact := exact_of_main hfits hmain hanswers
  ⟨hexact.received, hexact.total⟩

end Exact

/-! ## Runs with a number of packets -/

section Limited

variable {c : Config} {p : Totals} {s : State} {xs : List Input} {is : List ℕ} {n : ℕ}

/-- The most packets that are sent without `-f`: those that were asked for, or the preload and one
more. -/
def Config.limit (c : Config) : ℕ := max c.npackets.toNat (c.preload + 1)

/-- Not more packets are sent than the limit. -/
structure Limited (c : Config) (s : State) : Prop where
  le : s.totals.ntransmitted.toNat ≤ c.limit
  lt : s.handler = .catcher → s.totals.ntransmitted.toNat < c.limit

theorem head_of_not_flood (hflood : c.flood = false) (s : State) : head c s = s := by
  simp [head, hflood]

theorem limited_catcher (hpackets : 0 < c.npackets.toInt) (hp : p.ntransmitted.toNat + 1 < 2 ^ 31)
    (hlt : p.ntransmitted.toNat < c.limit) : Limited c (catcher c p) := by
  have hsucc : (pinger p).ntransmitted.toNat = p.ntransmitted.toNat + 1 := toNat_succ hp
  have hint : c.npackets.toInt ≤ c.npackets.toNat := by
    rw [BitVec.toInt_eq_toNat_cond]
    split_ifs <;> omega
  refine ⟨hsucc.trans_le hlt, fun hhandler => ?_⟩
  have hpos : c.npackets ≠ 0 := by
    intro hzero
    rw [hzero] at hpackets
    exact absurd hpackets (by decide)
  have hmore : (pinger p).ntransmitted.toInt < c.npackets.toInt := by
    by_contra hnot
    have hfinish : (catcher c p).handler = .finish := if_neg (not_or.mpr ⟨hpos, hnot⟩)
    exact absurd (hhandler.symm.trans hfinish) nofun
  rw [toInt_eq_toNat (by omega)] at hmore
  refine Nat.lt_of_lt_of_le ?_ (le_max_left _ _)
  exact_mod_cast hmore.trans_le hint

theorem Limited.handle (hpackets : 0 < c.npackets.toInt)
    (hs : s.totals.ntransmitted.toNat + 1 < 2 ^ 31) (h : Limited c s) (x : Input) :
    Limited c (handle c s x) := by
  cases x with
  | packet r =>
    have hsame := ntransmitted_prPack c s.totals r
    constructor
    · exact (congrArg BitVec.toNat hsame).trans_le h.le
    · intro hhandler
      exact (congrArg BitVec.toNat hsame).trans_lt (h.lt hhandler)
  | failed => exact h
  | alarm =>
    rw [Ping.handle]
    split_ifs with hhandler
    · exact limited_catcher hpackets hs (h.lt hhandler)
    · exact h
  | interrupt => exact h

theorem limited_launch (hflood : c.flood = false) (hpackets : 0 < c.npackets.toInt)
    (hpreload : c.preload + 1 < 2 ^ 31) :
    Limited c (launch c) ∧ Small (c.preload + 1) (launch c).totals.toCounts := by
  have hsent := ntransmitted_preload (k := c.preload) (by omega)
  have hlaunch : launch c = catcher c (pinger^[c.preload] .start) := by simp [launch, hflood]
  refine ⟨?_, small_launch hpreload⟩
  rw [hlaunch]
  refine limited_catcher hpackets (by omega) ?_
  rw [hsent]
  exact Nat.lt_of_lt_of_le (Nat.lt_succ_self _) (le_max_right _ _)

theorem Limited.step (hflood : c.flood = false) (hpackets : 0 < c.npackets.toInt)
    (hsmall : Small n s.totals.toCounts) (hn : n + 1 < 2 ^ 31) (h : Limited c s) (x : Input) :
    Limited c (step c s x) := by
  have hsent := hsmall.sent
  rw [Ping.step, head_of_not_flood hflood]
  exact h.handle hpackets (by omega) x

theorem Limited.run (hflood : c.flood = false) (hpackets : 0 < c.npackets.toInt)
    (hsmall : Small n s.totals.toCounts) (hn : n + 2 * xs.length < 2 ^ 31) (h : Limited c s) :
    Limited c (run c s xs) := by
  induction xs generalizing s n with
  | nil => exact h
  | cons x xs ih =>
    rw [List.length_cons] at hn
    have hstep := h.step hflood hpackets hsmall (by omega) x
    exact ih (hsmall.step (by omega) x) (by omega) hstep

/-- Not more packets are sent than the limit, in a whole run. -/
theorem ntransmitted_le_limit (hfits : c.Fits xs) (hflood : c.flood = false)
    (hpackets : 0 < c.npackets.toInt) (hmain : main c xs = some (p, [])) :
    p.ntransmitted.toNat ≤ c.limit := by
  unfold Config.Fits at hfits
  obtain ⟨hlimited, hsmall⟩ := limited_launch hflood hpackets (by omega)
  rw [run_of_loop hmain]
  exact (hlimited.run hflood hpackets hsmall hfits).le

/-- In a run of at most 1024 packets each reply is in time. -/
theorem Answers.inTime (h : Answers c Sent s xs is) (hflood : c.flood = false)
    (hpackets : 0 < c.npackets.toInt) (hc : c.limit ≤ maxDupChk) (hs : Limited c s)
    (hsmall : Small n s.totals.toCounts) (hn : n + 2 * xs.length < 2 ^ 31) :
    Answers c InTime s xs is := by
  induction h generalizing n with
  | nil s => exact .nil s
  | @reply s r xs i is hours hseq hsent _ ih =>
    rw [List.length_cons] at hn
    have hle := hs.le
    have hstep := hs.step hflood hpackets hsmall (by omega) (.packet r)
    refine .reply hours hseq ⟨hsent, ?_⟩ (ih hstep (hsmall.step (by omega) _) (by omega))
    rw [head_of_not_flood hflood]
    omega
  | @other s x xs is hother _ ih =>
    rw [List.length_cons] at hn
    have hstep := hs.step hflood hpackets hsmall (by omega) x
    exact .other hother (ih hstep (hsmall.step (by omega) _) (by omega))

/-- **The counts of a run with `-c`** that is not a flood: not more packets are sent than the limit,
and if these are at most 1024, the counts are right, whatever the network loses, repeats or
reorders, and however late the replies are. -/
theorem counts_of_limited (hfits : c.Fits xs) (hflood : c.flood = false)
    (hpackets : 0 < c.npackets.toInt) (hmain : main c xs = some (p, [])) :
    p.ntransmitted.toNat ≤ c.limit ∧
      ∀ is, c.limit ≤ maxDupChk → Answers c Sent (launch c) xs is →
        p.nreceived.toNat = is.toFinset.card ∧
          p.nreceived.toNat + p.nrepeats.toNat = is.length := by
  refine ⟨ntransmitted_le_limit hfits hflood hpackets hmain, fun is hc hanswers => ?_⟩
  have hn := hfits
  unfold Config.Fits at hn
  obtain ⟨hlimited, hsmall⟩ := limited_launch hflood hpackets (by omega)
  have hinTime := hanswers.inTime hflood hpackets hc hlimited hsmall hn
  have hexact := exact_of_main hfits hmain hinTime
  exact ⟨hexact.received, hexact.total⟩

/-- A flood with a preload, in which a reply is lost and another one comes twice. -/
def flooded : Config := ⟨7, 56, 3, 2, true⟩

/-- The inputs of the flood. -/
def floodedInputs : List Input :=
  [.packet (promptReply 0), .failed, .packet (promptReply 2), .packet (promptReply 2),
    .packet (promptReply 3)]

/-- The variables at the end of the flood. -/
def floodedEnd : Totals := (run flooded (launch flooded) floodedInputs).totals

theorem main_flooded : main flooded floodedInputs = some (floodedEnd, []) := rfl

theorem counts_of_inTime_flooded :
    floodedEnd.nreceived.toNat = [0, 2, 2, 3].toFinset.card ∧
      floodedEnd.nreceived.toNat + floodedEnd.nrepeats.toNat = [0, 2, 2, 3].length :=
  counts_of_inTime (by decide) main_flooded <|
    .reply (by decide) rfl (show 0 < 3 ∧ 3 ≤ 0 + maxDupChk by decide) <|
    .other nofun <|
    .reply (by decide) rfl (show 2 < 5 ∧ 5 ≤ 2 + maxDupChk by decide) <|
    .reply (by decide) rfl (show 2 < 6 ∧ 6 ≤ 2 + maxDupChk by decide) <|
    .reply (by decide) rfl (show 3 < 7 ∧ 7 ≤ 3 + maxDupChk by decide) <| .nil _

theorem counts_of_limited_duplicated :
    duplicatedEnd.ntransmitted.toNat ≤ twoPackets.limit ∧
      duplicatedEnd.nreceived.toNat = [0, 0, 1].toFinset.card ∧
      duplicatedEnd.nreceived.toNat + duplicatedEnd.nrepeats.toNat = [0, 0, 1].length := by
  obtain ⟨hsent, hcounts⟩ := counts_of_limited (by decide) rfl (by decide) main_duplicated
  exact ⟨hsent, hcounts _ (by decide) answers_duplicated⟩

end Limited

/-! ## Loss -/

section Loss

variable {c : Config} {p : Totals} {xs : List Input} {is : List ℕ}

/-- Each bit that is set was cleared for a packet before. -/
def Bounded (k : Counts) : Prop :=
  k.nreceived.toNat + openSlots maxDupChk k.ntransmitted.toNat (tst k.rcvdTbl) ≤
    k.ntransmitted.toNat

theorem bounded_pinger (hp : p.ntransmitted.toNat + 1 < 2 ^ 31) (h : Bounded p.toCounts) :
    Bounded (pinger p).toCounts := by
  have hsucc : (pinger p).ntransmitted.toNat = p.ntransmitted.toNat + 1 := toNat_succ hp
  have hslots := openSlots_succ_le (M := maxDupChk) (n := p.ntransmitted.toNat)
    fun r _ => tst_pinger p r
  unfold Bounded at h ⊢
  rw [hsucc]
  exact (Nat.add_le_add_left hslots _).trans (Nat.succ_le_succ h)

theorem bounded_prPack {r : Packet} {i : ℕ} (hours : c.Ours r)
    (hseq : r.icmpSeq = BitVec.ofNat 16 i)
    (hp : p.nreceived.toNat + p.nrepeats.toNat + 1 < 2 ^ 31)
    (hsent : Sent p.ntransmitted.toNat i) (h : Bounded p.toCounts) :
    Bounded (prPack c p r).toCounts := by
  have hbit : r.icmpSeq.toNat % maxDupChk = i % maxDupChk := by rw [hseq, seq_mod]
  have hlt : i % maxDupChk < min p.ntransmitted.toNat maxDupChk :=
    lt_min (Nat.lt_of_le_of_lt (Nat.mod_le i _) hsent) (Nat.mod_lt i (by decide))
  rw [toCounts_prPack hours, hbit]
  split_ifs with htst
  · exact h
  · have hslots := openSlots_set hlt (Bool.eq_false_iff.mpr htst)
      fun r _ => tst_set p.rcvdTbl (i % maxDupChk) r
    unfold Bounded at h ⊢
    dsimp only
    rw [toNat_succ (by omega)]
    omega

theorem nreceived_le_ntransmitted (hfits : c.Fits xs) (hmain : main c xs = some (p, []))
    (hanswers : Answers c Sent (launch c) xs is) :
    p.nreceived.toNat ≤ p.ntransmitted.toNat := by
  have hbounded : Bounded p.toCounts :=
    hanswers.main_invariant (I := fun k _ => Bounded k) hfits hmain
      (fun _ _ hp h => bounded_pinger hp h)
      (fun _ _ _ _ hours hseq hp hsent h => bounded_prPack hours hseq hp hsent h) (Nat.zero_le 0)
  exact (Nat.le_add_right _ _).trans hbounded

theorem ntransmitted_pinger_pos (hp : p.ntransmitted.toNat + 1 < 2 ^ 31) :
    0 < (pinger p).ntransmitted.toNat :=
  (toNat_succ hp).symm ▸ Nat.succ_pos _

/-- A flood sends its first packet at the head of the loop, other runs do before. -/
theorem ntransmitted_head_launch_pos (hpreload : c.preload + 2 < 2 ^ 31) :
    0 < (head c (launch c)).totals.ntransmitted.toNat := by
  have hsent := ntransmitted_preload (k := c.preload) (by omega)
  have htotals : (head c (launch c)).totals = pinger (pinger^[c.preload] .start) := by
    cases hflood : c.flood <;> simp [head, launch, catcher, hflood]
  rw [htotals]
  exact ntransmitted_pinger_pos (by omega)

theorem ntransmitted_handle_pos {s : State} (hs : 0 < s.totals.ntransmitted.toNat)
    (hlt : s.totals.ntransmitted.toNat + 1 < 2 ^ 31) (x : Input) :
    0 < (handle c s x).totals.ntransmitted.toNat := by
  by_cases hother : ∀ r, x = .packet r → ¬ c.Ours r
  · rcases totals_handle s hother with hsame | hsends
    · rwa [hsame]
    · rw [hsends]
      exact ntransmitted_pinger_pos hlt
  · push Not at hother
    obtain ⟨r, rfl, -⟩ := hother
    exact (congrArg BitVec.toNat (ntransmitted_prPack c s.totals r)).symm ▸ hs

theorem ntransmitted_pos_of_main (hfits : c.Fits xs) (hmain : main c xs = some (p, [])) :
    0 < p.ntransmitted.toNat := by
  cases xs with
  | nil => exact absurd hmain nofun
  | cons x xs =>
    unfold Config.Fits at hfits
    rw [List.length_cons] at hfits
    have hsmall := small_launch (c := c) (by omega)
    have hsent := (hsmall.head (c := c) (by omega)).sent
    have hfirst : 0 < (step c (launch c) x).totals.ntransmitted.toNat :=
      ntransmitted_handle_pos (ntransmitted_head_launch_pos (by omega)) (by omega) x
    rw [run_of_loop hmain, run_cons]
    exact @run_invariant c (step c (launch c) x) xs _ (fun p _ => 0 < p.ntransmitted.toNat)
      (fun _ _ hp _ => ntransmitted_pinger_pos hp)
      (fun p _ r _ _ h => (congrArg BitVec.toNat (ntransmitted_prPack c p r)).symm ▸ h)
      [] (hsmall.step (by omega) x) (by omega) hfirst

/-- The percentage of the packets that were lost. -/
def loss (p : Totals) : ℕ :=
  (p.ntransmitted.toNat - p.nreceived.toNat) * 100 / p.ntransmitted.toNat

theorem loss_le (p : Totals) : loss p ≤ 100 :=
  Nat.div_le_of_le_mul (Nat.mul_le_mul_right 100 (Nat.sub_le _ _))

/-- The loss is computed without an overflow if a hundred times the packets that were lost fit. -/
theorem lossText_of_le (hpos : 0 < p.ntransmitted.toNat) (hlt : p.ntransmitted.toNat < 2 ^ 31)
    (hle : p.nreceived.toNat ≤ p.ntransmitted.toNat)
    (hlost : p.ntransmitted.toNat - p.nreceived.toNat ≤ 21474836) :
    lossText p = decimal (loss p) ++ "% packet loss".toList := by
  have hne : p.ntransmitted ≠ 0 := by
    intro hzero
    rw [hzero] at hpos
    exact absurd hpos (by decide)
  have hnot : ¬ p.nreceived.toInt > p.ntransmitted.toInt := by
    rw [toInt_eq_toNat hlt, toInt_eq_toNat (by omega)]
    omega
  have hproduct : ((p.ntransmitted - p.nreceived) * 100).toNat =
      (p.ntransmitted.toNat - p.nreceived.toNat) * 100 := by
    have hhundred : (100 : BitVec 32).toNat = 100 := rfl
    rw [BitVec.toNat_mul, BitVec.toNat_sub_of_le (BitVec.le_def.mpr hle), hhundred]
    exact Nat.mod_eq_of_lt (by omega)
  have hquotient : (((p.ntransmitted - p.nreceived) * 100).sdiv p.ntransmitted).toInt =
      (loss p : ℕ) := by
    have hbound := loss_le p
    rw [BitVec.toInt_sdiv, toInt_eq_toNat hlt, toInt_eq_toNat (by omega), hproduct,
      ← Int.ofNat_tdiv]
    change (loss p : ℤ).bmod (2 ^ 32) = loss p
    exact Int.bmod_eq_of_le (by omega) (by omega)
  rw [lossText, if_neg hne, if_neg hnot, hquotient]

/-- **The loss that is reported**, if only packets are answered that were sent: not more of them are
received than sent, even if replies are late and repeated. If not more than 21474836 are lost, the
loss is between zero and a hundred percent. -/
theorem lossText_of_sent (hfits : c.Fits xs) (hmain : main c xs = some (p, []))
    (hanswers : Answers c Sent (launch c) xs is) :
    p.nreceived.toNat ≤ p.ntransmitted.toNat ∧
      (p.ntransmitted.toNat - p.nreceived.toNat ≤ 21474836 →
        loss p ≤ 100 ∧ lossText p = decimal (loss p) ++ "% packet loss".toList) := by
  have hle := nreceived_le_ntransmitted hfits hmain hanswers
  have hpos := ntransmitted_pos_of_main hfits hmain
  refine ⟨hle, fun hlost => ⟨loss_le p, ?_⟩⟩
  exact lossText_of_le hpos (small_of_main hfits hmain).1 hle hlost

theorem lossText_of_sent_duplicated :
    duplicatedEnd.nreceived.toNat ≤ duplicatedEnd.ntransmitted.toNat ∧ loss duplicatedEnd ≤ 100 ∧
      lossText duplicatedEnd = decimal (loss duplicatedEnd) ++ "% packet loss".toList := by
  obtain ⟨hle, hloss⟩ := lossText_of_sent (by decide) main_duplicated answers_duplicated
  exact ⟨hle, hloss (by decide)⟩

end Loss

/-! ## Success -/

section Success

variable {c : Config} {p : Totals} {xs : List Input}

/-- Nothing is received as long as there is no reply, and something with the first one. -/
structure Received (p : Totals) (rs : List Packet) : Prop where
  total : p.nreceived.toNat + p.nrepeats.toNat = rs.length
  clear : p.nreceived = 0 → p.nrepeats = 0 ∧ ∀ b, tst p.rcvdTbl b = false

theorem received_start : Received .start [] where
  total := rfl
  clear _ := ⟨rfl, fun b => by simp [tst_eq_getLsbD, Totals.start]⟩

theorem Received.pinger {rs : List Packet} (h : Received p rs) : Received (pinger p) rs where
  total := h.total
  clear hzero := ⟨(h.clear hzero).1, fun b => by rw [tst_pinger, (h.clear hzero).2 b]; rfl⟩

theorem Received.prPack {rs : List Packet} {r : Packet} (hours : c.Ours r)
    (hp : p.nreceived.toNat + p.nrepeats.toNat + 1 < 2 ^ 31) (h : Received p rs) :
    Received (prPack c p r) (rs ++ [r]) := by
  refine ⟨?_, fun hzero => ?_⟩
  · rw [List.length_append, List.length_singleton, ← h.total, replies_prPack hours hp]
  · -- A duplicate needs a bit that is set, and a new reply counts.
    rw [toCounts_prPack hours] at hzero
    split_ifs at hzero with htst
    · exact absurd ((h.clear hzero).2 _) (by rw [htst]; exact Bool.noConfusion)
    · have hnat : p.nreceived.toNat + 1 = 0 :=
        (toNat_succ (by omega)).symm.trans (congrArg BitVec.toNat hzero)
      exact absurd hnat (Nat.succ_ne_zero _)

theorem nreceived_eq_zero_iff (hfits : c.Fits xs) (hmain : main c xs = some (p, [])) :
    p.nreceived = 0 ↔ replies c xs = [] := by
  have hreceived : Received p (replies c xs) :=
    main_invariant hfits hmain (fun _ _ _ h => h.pinger)
      (fun _ _ _ hours hp h => h.prPack hours hp) received_start
  rw [← List.length_eq_zero_iff, ← hreceived.total]
  constructor
  · intro hzero
    rw [hzero, (hreceived.clear hzero).1]
    rfl
  · exact fun hsum => BitVec.eq_of_toNat_eq (Nat.add_eq_zero_iff.mp hsum).1

/-- **When the program succeeds**: if a reply to one of its packets, long enough, was among what it
received. -/
theorem status_finish_eq_zero_iff (hfits : c.Fits xs) (hmain : main c xs = some (p, []))
    (hostname : CString) : (finish c hostname p).status = 0 ↔ replies c xs ≠ [] := by
  rw [Ne, ← nreceived_eq_zero_iff hfits hmain]
  change (if p.nreceived = 0 then 1 else 0) = 0 ↔ ¬ p.nreceived = 0
  split_ifs with hzero
  · exact iff_of_false id fun h => h hzero
  · exact iff_of_true rfl hzero

theorem status_finish_eq_zero_iff_duplicated :
    (finish twoPackets "dut".toList duplicatedEnd).status = 0 ↔
      replies twoPackets duplicated ≠ [] :=
  status_finish_eq_zero_iff (by decide) main_duplicated "dut".toList

end Success

/-! ## Times -/

section Times

variable {c : Config} {p : Totals} {xs : List Input} {r : Packet}

/-- The time between two times, in tenths of a millisecond, rounded down. -/
def Packet.trip (r : Packet) : ℤ := (r.arrival.micros - r.carried.micros) / 100

theorem ofInt_sub (a b : ℤ) : BitVec.ofInt 32 (a - b) = BitVec.ofInt 32 a - BitVec.ofInt 32 b :=
  BitVec.eq_of_toInt_eq (by simp [BitVec.toInt_sub])

/-- The difference of two normal times: the seconds may wrap, and the microseconds are normal. -/
theorem tvsub_spec {out i : Timeval} (hout : out.Normal) (hi : i.Normal) :
    ∃ sec, (tvsub out i).tvSec = BitVec.ofInt 32 sec ∧ (tvsub out i).Normal ∧
      sec * 1000000 + (tvsub out i).tvUsec.toInt = out.micros - i.micros := by
  obtain ⟨hout0, hout⟩ := hout
  obtain ⟨hi0, hi⟩ := hi
  have hsub : (out.tvUsec - i.tvUsec).toInt = out.tvUsec.toInt - i.tvUsec.toInt := by
    rw [BitVec.toInt_sub]
    exact Int.bmod_eq_of_le (by omega) (by omega)
  unfold tvsub Timeval.Normal Timeval.micros
  dsimp only
  split_ifs with hneg
  · -- A second is borrowed.
    have hmillion : (1000000 : BitVec 32).toInt = 1000000 := by decide
    have hadd : (out.tvUsec - i.tvUsec + 1000000).toInt =
        out.tvUsec.toInt - i.tvUsec.toInt + 1000000 := by
      rw [BitVec.toInt_add, hsub, hmillion]
      exact Int.bmod_eq_of_le (by omega) (by omega)
    refine ⟨out.tvSec.toInt - 1 - i.tvSec.toInt, ?_, ?_, ?_⟩
    · rw [ofInt_sub, ofInt_sub, BitVec.ofInt_toInt, BitVec.ofInt_toInt]
      rfl
    · rw [hadd]
      omega
    · rw [hadd]
      omega
  · refine ⟨out.tvSec.toInt - i.tvSec.toInt, ?_, ?_, ?_⟩
    · rw [ofInt_sub, BitVec.ofInt_toInt, BitVec.ofInt_toInt]
    · rw [hsub]
      omega
    · rw [hsub]
      omega

/-- **The trip time** is the time between the two times, up to what does not fit in a word. -/
theorem triptime_eq (harrival : r.arrival.Normal) (hcarried : r.carried.Normal) :
    triptime r = BitVec.ofInt 32 r.trip := by
  obtain ⟨sec, hsec, ⟨husec0, husec⟩, hmicros⟩ := tvsub_spec harrival hcarried
  have hhundred : (100 : BitVec 32).toInt = 100 := by decide
  have hdiv : (tvsub r.arrival r.carried).tvUsec.sdiv 100 =
      BitVec.ofInt 32 ((tvsub r.arrival r.carried).tvUsec.toInt / 100) := by
    apply BitVec.eq_of_toInt_eq
    rw [BitVec.toInt_sdiv, hhundred, Int.tdiv_eq_ediv_of_nonneg husec0, BitVec.toInt_ofInt]
  have htrip : r.trip = sec * 10000 + (tvsub r.arrival r.carried).tvUsec.toInt / 100 := by
    rw [Packet.trip, ← hmicros]
    omega
  rw [triptime, htrip, hsec, hdiv, BitVec.ofInt_add, BitVec.ofInt_mul]
  rfl

/-- The two times of a reply are normal, and in order. -/
def Packet.Ordered (r : Packet) : Prop :=
  r.arrival.Normal ∧ r.carried.Normal ∧ r.carried.micros ≤ r.arrival.micros

instance (r : Packet) : Decidable r.Ordered := inferInstanceAs (Decidable (_ ∧ _ ∧ _))

theorem Packet.Ordered.trip_nonneg (h : r.Ordered) : 0 ≤ r.trip := by
  have hle := h.2.2
  unfold Packet.trip
  omega

theorem Packet.Ordered.toInt_triptime (h : r.Ordered) (hlt : r.trip < 2 ^ 31) :
    (triptime r).toInt = r.trip := by
  have hnonneg := h.trip_nonneg
  rw [triptime_eq h.1 h.2.1, BitVec.toInt_ofInt]
  exact Int.bmod_eq_of_le (by omega) (by omega)

/-- The times are those of the replies. -/
structure Timed (p : Totals) (rs : List Packet) : Prop where
  total : p.nreceived.toNat + p.nrepeats.toNat = rs.length
  sum : p.tsum = (rs.map triptime).sum
  bounds : ∀ r ∈ rs, p.tmin.toInt ≤ (triptime r).toInt ∧ (triptime r).toInt ≤ p.tmax.toInt

theorem timed_start : Timed .start [] := ⟨rfl, rfl, fun _ h => absurd h List.not_mem_nil⟩

theorem Timed.pinger {rs : List Packet} (h : Timed p rs) : Timed (pinger p) rs :=
  ⟨h.total, h.sum, h.bounds⟩

theorem recordTime_of_timing (htiming : c.timing = true) (p : Totals) (r : Packet) :
    (recordTime c p r).tsum = p.tsum + triptime r ∧
      (recordTime c p r).tmin.toInt = min p.tmin.toInt (triptime r).toInt ∧
        (recordTime c p r).tmax.toInt = max p.tmax.toInt (triptime r).toInt := by
  rw [recordTime, if_pos htiming]
  refine ⟨rfl, ?_, ?_⟩
  · dsimp only
    split_ifs <;> omega
  · dsimp only
    split_ifs <;> omega

/-- What `pr_pack` records of the time of a reply, new or not. -/
theorem times_prPack (hours : c.Ours r) (htiming : c.timing = true) (p : Totals) :
    (prPack c p r).tsum = p.tsum + triptime r ∧
      (prPack c p r).tmin.toInt = min p.tmin.toInt (triptime r).toInt ∧
        (prPack c p r).tmax.toInt = max p.tmax.toInt (triptime r).toInt := by
  have htimes := recordTime_of_timing htiming { p with nreceived := p.nreceived + 1 } r
  rw [prPack, if_pos hours]
  dsimp only
  split_ifs <;> exact htimes

theorem Timed.prPack {rs : List Packet} (htiming : c.timing = true) (hours : c.Ours r)
    (hp : p.nreceived.toNat + p.nrepeats.toNat + 1 < 2 ^ 31) (h : Timed p rs) :
    Timed (prPack c p r) (rs ++ [r]) := by
  obtain ⟨hsum, hmin, hmax⟩ := times_prPack hours htiming p
  refine ⟨?_, ?_, fun r' hr' => ?_⟩
  · rw [List.length_append, List.length_singleton, ← h.total, replies_prPack hours hp]
  · rw [hsum, h.sum, List.map_append, List.sum_append]
    simp
  · rw [hmin, hmax]
    rcases List.mem_append.mp hr' with hold | hnew
    · obtain ⟨hle, hge⟩ := h.bounds r' hold
      exact ⟨(min_le_left _ _).trans hle, hge.trans (le_max_left _ _)⟩
    · rw [List.mem_singleton.mp hnew]
      exact ⟨min_le_right _ _, le_max_right _ _⟩

/-- The sum of the trip times, up to what does not fit in a word. -/
theorem sum_triptime {rs : List Packet} (hordered : ∀ r ∈ rs, r.Ordered) :
    (rs.map triptime).sum = BitVec.ofInt 32 (rs.map Packet.trip).sum := by
  induction rs with
  | nil => rfl
  | cons r rs ih =>
    obtain ⟨hr, hrs⟩ := List.forall_mem_cons.mp hordered
    rw [List.map_cons, List.sum_cons, List.map_cons, List.sum_cons, ih hrs, triptime_eq hr.1 hr.2.1,
      BitVec.ofInt_add]

/-- The average is the one of the trip times, if their sum fits. -/
theorem toNat_average {rs : List Packet} (htimed : Timed p rs)
    (hreplies : p.nreceived.toNat + p.nrepeats.toNat < 2 ^ 31)
    (hordered : ∀ r ∈ rs, r.Ordered) (hsum : (rs.map Packet.trip).sum < 2 ^ 31) :
    ((average p).toNat : ℤ) = (rs.map Packet.trip).sum / rs.length := by
  have hnonneg : 0 ≤ (rs.map Packet.trip).sum :=
    List.sum_nonneg (List.forall_mem_map.mpr fun r hr => (hordered r hr).trip_nonneg)
  have htsum : (p.tsum.toNat : ℤ) = (rs.map Packet.trip).sum := by
    rw [htimed.sum, sum_triptime hordered, BitVec.toNat_ofInt,
      Int.emod_eq_of_lt hnonneg (by omega)]
    exact Int.toNat_of_nonneg hnonneg
  have hcount : (p.nreceived + p.nrepeats).toNat = rs.length := by
    rw [BitVec.toNat_add, Nat.mod_eq_of_lt (by omega), htimed.total]
  rw [average, BitVec.toNat_udiv, hcount, Int.natCast_div, htsum]

/-- **The average lies between the minimum and the maximum**, if the clock does not go back and the
sum of all times fits a `long`; duplicates are in the sum, and in the number it is divided by. -/
theorem average_mem_bounds (hfits : c.Fits xs) (htiming : c.timing = true)
    (hmain : main c xs = some (p, [])) (hne : replies c xs ≠ [])
    (hordered : ∀ r ∈ replies c xs, r.Ordered)
    (hsum : ((replies c xs).map Packet.trip).sum < 2 ^ 31) :
    p.tmin.toInt ≤ (average p).toNat ∧ (average p).toNat ≤ p.tmax.toInt := by
  have htimed : Timed p (replies c xs) :=
    main_invariant hfits hmain (fun _ _ _ h => h.pinger)
      (fun _ _ _ hours hp h => h.prPack htiming hours hp) timed_start
  rw [toNat_average htimed (small_of_main hfits hmain).2 hordered hsum]
  generalize replies c xs = rs at *
  have hpos : (0 : ℤ) < rs.length := by exact_mod_cast List.length_pos_iff.mpr hne
  -- No time is more than the sum, so each of them fits.
  have hbounds : ∀ r ∈ rs, p.tmin.toInt ≤ r.trip ∧ r.trip ≤ p.tmax.toInt := by
    intro r hr
    have hle : r.trip ≤ (rs.map Packet.trip).sum :=
      List.single_le_sum (List.forall_mem_map.mpr fun r hr => (hordered r hr).trip_nonneg) _
        (List.mem_map_of_mem hr)
    rw [← (hordered r hr).toInt_triptime (by omega)]
    exact htimed.bounds r hr
  constructor
  · rw [Int.le_ediv_iff_mul_le hpos, mul_comm, ← nsmul_eq_mul, ← List.length_map Packet.trip]
    exact List.card_nsmul_le_sum _ _ (List.forall_mem_map.mpr fun r hr => (hbounds r hr).1)
  · have hle := List.sum_le_card_nsmul _ p.tmax.toInt
      (List.forall_mem_map.mpr fun r hr => (hbounds r hr).2)
    rw [List.length_map, nsmul_eq_mul] at hle
    exact Int.ediv_le_of_le_mul hpos (by rwa [mul_comm])

theorem average_mem_bounds_duplicated :
    duplicatedEnd.tmin.toInt ≤ (average duplicatedEnd).toNat ∧
      (average duplicatedEnd).toNat ≤ duplicatedEnd.tmax.toInt :=
  average_mem_bounds (by decide) rfl main_duplicated (by decide) (by decide) (by decide)

end Times

end LinuxTest.Ping
