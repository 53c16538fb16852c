import LinuxTest.Can.Frame
import LinuxTest.Foundations.SequenceCheck

/-!
# The sequence test for CAN links

`can_test/utilities/cansequence.c`: one process sends frames with a number of eight bits that rises,
and another one receives them and reports the numbers that it did not expect. The results of the
system calls are inputs of the two loops, and an input that ends stands for a signal, after which
the loop is left. The options and the set up of the socket are left out; the filter for the frames
is kept.

## Main definitions

* `Settings`: the options
* `sendLoop`: the sender, for the results of `write` and `poll`
* `receiveLoop`: the receiver, for the results of `read`
* `Settings.accepts`: the filter

## Main results

* `sent_of_sendLoop`: what the sender has sent, whatever `write` returns
* `sendLoop_eq_of_enough`: all frames are sent if `write` succeeds often enough
* `receiveLoop_frames`: what the receiver reports
* `receiveLoop_of_sendLoop`: what is reported of a run of the sender, some of whose frames are lost
-/

namespace LinuxTest.Can

open Foundations

/-! ## Options and frames -/

/-- The options: the identifier as it was given, and `loopcount` if the loop is not infinite. -/
structure Settings where
  extended : Bool
  identifier : BitVec 32
  loopcount : Option (BitVec 32)
  usePoll : Bool
  quit : Bool
  verbose : ℕ
deriving Repr, DecidableEq

namespace Settings

variable (st : Settings)

/-- The mask of the filter. -/
def canMask : BitVec 32 := if st.extended then canEffMask else canSffMask

/-- The identifier of the filter, and of the frames that are sent. -/
def canId : BitVec 32 :=
  if st.extended then st.identifier &&& canEffMask ||| canEffFlag else st.identifier &&& canSffMask

/-- The frames that the socket of a receiver passes on. -/
def accepts (f : Frame) : Bool := f.canId &&& st.canMask = st.canId &&& st.canMask

/-- The frame with a number. -/
def numbered (n : BitVec 8) : Frame := ⟨st.canId, 1, fun i => if i.val = 0 then n else 0⟩

end Settings

/-- A loop goes on: it is infinite, or its count is not zero. -/
def Continues (loopcount : Option (BitVec 32)) : Prop := loopcount ≠ some 0

instance (loopcount : Option (BitVec 32)) : Decidable (Continues loopcount) := by
  unfold Continues
  infer_instance

theorem continues_none : Continues none := nofun

/-- The number of a wrap around is printed if the number is zero again. -/
def wrapLine (st : Settings) (sequence : BitVec 8) (seqWrap : ℕ) : List CString :=
  if 0 < st.verbose ∧ sequence = 0 then
    ["sequence wrap around (".toList ++ decimal seqWrap ++ ")\n".toList] else []

/-- The count of the wraps that were printed. -/
def nextWrap (st : Settings) (sequence : BitVec 8) (seqWrap : ℕ) : ℕ :=
  if 0 < st.verbose ∧ sequence = 0 then seqWrap + 1 else seqWrap

/-! ## The sender -/

/-- The result of `write`, and of the call of `poll` that follows if there is no buffer. An error
has its text. -/
inductive Write where
  | written
  | enobufs (poll : Option CString)
  | eintr
  | failed (error : CString)
deriving Repr, DecidableEq

/-- The variables of the sender, what it printed, and the frames that were sent. -/
structure Sender where
  sequence : BitVec 8
  data0 : BitVec 8
  seqWrap : ℕ
  stdout : List CString
  sent : List Frame
deriving DecidableEq

/-- The variables before the loop. -/
def Sender.start : Sender := ⟨0, 0, 0, [], []⟩

/-- The end of a process, with what it printed. -/
structure Outcome where
  status : ℕ
  stdout : List CString
  stderr : List CString
deriving Repr, DecidableEq

/-- What is printed before a frame is sent. -/
def Sender.announce (st : Settings) (s : Sender) : Sender :=
  if 1 < st.verbose then
    { s with stdout := s.stdout ++
        ["sending frame. sequence number: ".toList ++ decimal s.sequence.toNat ++ "\n".toList] }
  else s

/-- The frame was sent. -/
def Sender.advance (st : Settings) (s : Sender) : Sender where
  sequence := s.sequence + 1
  data0 := s.data0 + 1
  seqWrap := nextWrap st (s.sequence + 1) s.seqWrap
  stdout := s.stdout ++ wrapLine st (s.sequence + 1) s.seqWrap
  sent := s.sent ++ [st.numbered s.data0]

/-- The text of `ENOBUFS`. -/
def enobufsText : CString := "No buffer space available".toList

/-- What follows a call of `write`: the next frame, the label `again`, or the end. -/
inductive After where
  | next
  | again
  | exit (message : CString)
deriving Repr, DecidableEq

/-- The switch after a call of `write`. The error of `poll` is compared with `-EINTR`, which it
never is, so an interrupted call ends the process too. -/
def afterWrite (st : Settings) : Write → After
  | .written => .next
  | .eintr => .again
  | .enobufs poll =>
    if st.usePoll then
      match poll with
      | none => .again
      | some error => .exit (perror "poll()".toList error)
    else .exit (perror "write".toList enobufsText)
  | .failed error => .exit (perror "write".toList error)

/-- The end of the sender: its status, the message, and its variables. -/
structure SenderExit where
  status : ℕ
  stderr : List CString
  sender : Sender
deriving DecidableEq

/-- The loop of the sender, for the results of `write`: at its head, or at the label `again`, where
the count was taken and the frame was announced before. A call that never returns has no end. -/
def sendLoop (st : Settings) : Bool → Option (BitVec 32) → Sender → List Write → Option SenderExit
  | again, _, s, [] => if again then none else some ⟨0, [], s⟩
  | again, loopcount, s, r :: rs =>
    if again = false ∧ ¬ Continues loopcount then some ⟨0, [], s⟩
    else
      let loopcount := if again then loopcount else loopcount.map (· - 1)
      let s := if again then s else s.announce st
      match afterWrite st r with
      | .next => sendLoop st false loopcount (s.advance st) rs
      | .again => sendLoop st true loopcount s rs
      | .exit message => some ⟨1, [message], s⟩

/-! ## The receiver -/

/-- The result of `read`. -/
inductive Read where
  | frame (f : Frame)
  | failed (error : CString)
deriving DecidableEq

/-- The variables of the receiver, and what it printed. -/
structure Receiver where
  sequence : BitVec 8
  sequenceInit : Bool
  seqWrap : ℕ
  stdout : List CString
deriving Repr, DecidableEq

/-- The variables before the loop. -/
def Receiver.start : Receiver := ⟨0, true, 0, []⟩

/-- The report of a number that was not expected. -/
def wrongLine (expected got : BitVec 8) : CString :=
  "received wrong sequence count. expected: ".toList ++ decimal expected.toNat ++
    ", got: ".toList ++ decimal got.toNat ++ "\n".toList

/-- The number of a frame, for a receiver that is verbose. -/
def frameLine (st : Settings) (n : BitVec 8) : List CString :=
  if 1 < st.verbose then
    ["received frame. sequence number: ".toList ++ decimal n.toNat ++ "\n".toList] else []

/-- The receiver expects the next number. -/
def Receiver.advance (st : Settings) (r : Receiver) (sequence : BitVec 8) : Receiver where
  sequence := sequence + 1
  sequenceInit := false
  seqWrap := nextWrap st (sequence + 1) r.seqWrap
  stdout := r.stdout ++ wrapLine st (sequence + 1) r.seqWrap

/-- A frame with the number `n` is received. The first number is the one that is expected. -/
def receiveFrame (st : Settings) (r : Receiver) (n : BitVec 8) : Except Outcome Receiver :=
  let expected := if r.sequenceInit then n else r.sequence
  let r := { r with stdout := r.stdout ++ frameLine st n }
  if n ≠ expected then
    let r := { r with stdout := r.stdout ++ [wrongLine expected n] }
    if st.quit then .error ⟨1, r.stdout, []⟩ else .ok (r.advance st n)
  else .ok (r.advance st expected)

/-- The body of the loop of the receiver. -/
def readStep (st : Settings) (r : Receiver) : Read → Except Outcome Receiver
  | .failed error => .error ⟨1, r.stdout, [perror "read".toList error]⟩
  | .frame f => receiveFrame st r f.first

/-- The loop of the receiver, for the results of `read`. -/
def receiveLoop (st : Settings) : Option (BitVec 32) → Receiver → List Read → Outcome
  | _, r, [] => ⟨0, r.stdout, []⟩
  | loopcount, r, x :: xs =>
    if Continues loopcount then
      match readStep st r x with
      | .error outcome => outcome
      | .ok r => receiveLoop st (loopcount.map (· - 1)) r xs
    else ⟨0, r.stdout, []⟩

/-! ## What is sent -/

section Sending

variable {st : Settings} {s : Sender} {rs : List Write}

/-- The sender has sent the first `n` numbers, and the next one is due. -/
structure Sender.Counts (st : Settings) (s : Sender) (n : ℕ) : Prop where
  sent : s.sent = (List.range n).map fun i => st.numbered (BitVec.ofNat 8 i)
  data0 : s.data0 = BitVec.ofNat 8 n
  sequence : s.sequence = BitVec.ofNat 8 n

theorem Sender.Counts.announce {n : ℕ} (h : s.Counts st n) : (s.announce st).Counts st n := by
  unfold Sender.announce
  split_ifs
  · exact ⟨h.sent, h.data0, h.sequence⟩
  · exact h

theorem Sender.Counts.advance {n : ℕ} (h : s.Counts st n) : (s.advance st).Counts st (n + 1) where
  sent := by
    rw [Sender.advance, h.sent, h.data0, List.range_succ, List.map_append]
    rfl
  data0 := by
    rw [BitVec.ofNat_add n]
    exact congrArg (· + 1) h.data0
  sequence := by
    rw [BitVec.ofNat_add n]
    exact congrArg (· + 1) h.sequence

theorem sendLoop_of_not_continues {loopcount : Option (BitVec 32)} (h : ¬ Continues loopcount)
    (s : Sender) (rs : List Write) : sendLoop st false loopcount s rs = some ⟨0, [], s⟩ := by
  cases rs with
  | nil => rfl
  | cons r rs => exact if_pos ⟨rfl, h⟩

theorem sendLoop_again (loopcount : Option (BitVec 32)) (s : Sender) (r : Write)
    (rs : List Write) :
    sendLoop st true loopcount s (r :: rs) =
      match afterWrite st r with
      | .next => sendLoop st false loopcount (s.advance st) rs
      | .again => sendLoop st true loopcount s rs
      | .exit message => some ⟨1, [message], s⟩ := by
  rw [sendLoop, if_neg fun hstop => nomatch hstop.1]
  rfl

/-- The head of the loop goes on to the label `again`. -/
theorem sendLoop_of_continues {loopcount : Option (BitVec 32)} (h : Continues loopcount)
    (s : Sender) (r : Write) (rs : List Write) :
    sendLoop st false loopcount s (r :: rs) =
      sendLoop st true (loopcount.map (· - 1)) (s.announce st) (r :: rs) := by
  rw [sendLoop_again]
  exact if_neg fun hstop => hstop.2 h

theorem toNat_sub_one {c : BitVec 32} (h : c ≠ 0) : (c - 1).toNat + 1 = c.toNat := by
  have hpos : c.toNat ≠ 0 := fun hzero => h (BitVec.eq_of_toNat_eq hzero)
  have hle : (1 : BitVec 32) ≤ c := BitVec.le_def.mpr (Nat.one_le_iff_ne_zero.mpr hpos)
  rw [BitVec.toNat_sub_of_le hle]
  exact Nat.sub_add_cancel (Nat.one_le_iff_ne_zero.mpr hpos)

/-- What has been sent when the sender ends. -/
theorem counts_of_sendLoop {e : SenderExit} {again : Bool} {loopcount : Option (BitVec 32)} {n : ℕ}
    (h : s.Counts st n) (he : sendLoop st again loopcount s rs = some e) :
    ∃ n', e.sender.Counts st n' ∧
      ∀ c, loopcount = some c → n' ≤ n + c.toNat + if again then 1 else 0 := by
  induction rs generalizing again loopcount s n with
  | nil =>
    cases again with
    | true => exact absurd he nofun
    | false =>
      cases he
      exact ⟨n, h, fun c _ => by omega⟩
  | cons r rs ih =>
    -- First the label `again`, to which the head of the loop goes on.
    have hagain {loopcount : Option (BitVec 32)} {s : Sender} (h : s.Counts st n)
        (he : sendLoop st true loopcount s (r :: rs) = some e) :
        ∃ n', e.sender.Counts st n' ∧ ∀ c, loopcount = some c → n' ≤ n + c.toNat + 1 := by
      rw [sendLoop_again] at he
      cases hafter : afterWrite st r with
      | next =>
        rw [hafter] at he
        obtain ⟨n', hn', hle⟩ := ih h.advance he
        exact ⟨n', hn', fun c hc => (hle c hc).trans (by simp; omega)⟩
      | again =>
        rw [hafter] at he
        exact ih h he
      | exit message =>
        rw [hafter] at he
        cases he
        exact ⟨n, h, fun c _ => by omega⟩
    cases again with
    | true => exact hagain h he
    | false =>
      by_cases hcont : Continues loopcount
      · rw [sendLoop_of_continues hcont] at he
        obtain ⟨n', hn', hle⟩ := hagain h.announce he
        refine ⟨n', hn', ?_⟩
        rintro c rfl
        have hc : c ≠ 0 := fun hzero => hcont (congrArg some hzero)
        have hbound := hle (c - 1) rfl
        have := toNat_sub_one hc
        simp only [Bool.false_eq_true, if_false]
        omega
      · rw [sendLoop_of_not_continues hcont] at he
        cases he
        exact ⟨n, h, fun c _ => by omega⟩

theorem counts_start (st : Settings) : Sender.start.Counts st 0 := ⟨rfl, rfl, rfl⟩

/-- The results of `write` that let the sender go on send as many frames as were asked for. -/
theorem sendLoop_complete (again : Bool) {c : BitVec 32} {n : ℕ} (h : s.Counts st n)
    (hrs : ∀ r ∈ rs, afterWrite st r = .next ∨ afterWrite st r = .again)
    (hcount : (c.toNat + if again then 1 else 0) ≤
      (rs.filter fun r => afterWrite st r = .next).length) :
    ∃ s', sendLoop st again (some c) s rs = some ⟨0, [], s'⟩ ∧
      s'.Counts st (n + c.toNat + if again then 1 else 0) := by
  induction rs generalizing again c s n with
  | nil =>
    cases again with
    | true => simp at hcount
    | false =>
      have hzero : c.toNat = 0 := by simpa using hcount
      refine ⟨s, rfl, ?_⟩
      rw [hzero]
      exact h
  | cons r rs ih =>
    have htail : ∀ r' ∈ rs, afterWrite st r' = .next ∨ afterWrite st r' = .again :=
      fun r' hr' => hrs r' (List.mem_cons_of_mem r hr')
    have hagain {c : BitVec 32} {s : Sender} (h : s.Counts st n)
        (hcount : c.toNat + 1 ≤ ((r :: rs).filter fun r => afterWrite st r = .next).length) :
        ∃ s', sendLoop st true (some c) s (r :: rs) = some ⟨0, [], s'⟩ ∧
          s'.Counts st (n + c.toNat + 1) := by
      rw [sendLoop_again]
      rcases hrs r List.mem_cons_self with hnext | hstay
      · rw [List.filter_cons_of_pos (by simpa using hnext), List.length_cons] at hcount
        obtain ⟨s', hs', hcounts⟩ := ih false (c := c) h.advance htail (by simp; omega)
        rw [hnext]
        refine ⟨s', hs', ?_⟩
        have heq : n + 1 + c.toNat + (if false = true then 1 else 0) = n + c.toNat + 1 := by
          simp only [Bool.false_eq_true, if_false]
          omega
        rw [← heq]
        exact hcounts
      · rw [List.filter_cons_of_neg (by simp [hstay])] at hcount
        rw [hstay]
        exact ih true h htail hcount
    cases again with
    | true => exact hagain h hcount
    | false =>
      by_cases hc : c = 0
      · rw [sendLoop_of_not_continues (fun hcont => hcont (congrArg some hc))]
        refine ⟨s, rfl, ?_⟩
        rw [hc]
        exact h
      · have hsub := toNat_sub_one hc
        rw [sendLoop_of_continues fun hstop => hc (Option.some_inj.mp hstop)]
        obtain ⟨s', hs', hcounts⟩ :=
          hagain (c := c - 1) h.announce (by rw [hsub]; simpa using hcount)
        refine ⟨s', hs', ?_⟩
        rw [Nat.add_assoc, hsub] at hcounts
        exact hcounts

/-- **What the sender has sent** when it ends, whatever `write` and `poll` return: each number once
and in order, and no more frames than were asked for. -/
theorem sent_of_sendLoop {e : SenderExit}
    (h : sendLoop st false st.loopcount .start rs = some e) :
    ∃ n, e.sender.sent = (List.range n).map (fun i => st.numbered (BitVec.ofNat 8 i)) ∧
      ∀ c, st.loopcount = some c → n ≤ c.toNat := by
  obtain ⟨n, hcounts, hle⟩ := counts_of_sendLoop (counts_start st) h
  refine ⟨n, hcounts.sent, fun c hc => ?_⟩
  have hbound := hle c hc
  simpa using hbound

/-- `cansequence -p -l 3`. -/
def threeFrames : Settings := ⟨false, 2, some 3, true, false, 0⟩

/-- `cansequence -r -q`. -/
def quitReceiver : Settings := ⟨false, 2, none, false, true, 0⟩

/-- The end of a sender that was asked for three frames. -/
def threeSent : SenderExit :=
  ⟨0, [], ⟨3, 3, 0, [], [threeFrames.numbered 0, threeFrames.numbered 1, threeFrames.numbered 2]⟩⟩

theorem sent_of_sendLoop_threeFrames :
    ∃ n, threeSent.sender.sent =
        (List.range n).map (fun i => threeFrames.numbered (BitVec.ofNat 8 i)) ∧
      ∀ c, threeFrames.loopcount = some c → n ≤ c.toNat :=
  sent_of_sendLoop (show sendLoop threeFrames false threeFrames.loopcount .start
    [.written, .eintr, .written, .enobufs none, .written] = some threeSent from rfl)

/-- **The sender sends all frames** that were asked for, if `write` succeeds often enough, however
often it is interrupted or finds no buffer in between. -/
theorem sendLoop_eq_of_enough {c : BitVec 32} (hc : st.loopcount = some c)
    (hrs : ∀ r ∈ rs, afterWrite st r = .next ∨ afterWrite st r = .again)
    (hcount : c.toNat ≤ (rs.filter fun r => afterWrite st r = .next).length) :
    ∃ s, sendLoop st false st.loopcount .start rs = some ⟨0, [], s⟩ ∧
      s.sent = (List.range c.toNat).map fun i => st.numbered (BitVec.ofNat 8 i) := by
  obtain ⟨s, hs, hcounts⟩ := sendLoop_complete false (counts_start st) hrs (by simpa using hcount)
  rw [hc]
  refine ⟨s, hs, ?_⟩
  rw [hcounts.sent]
  simp

theorem sendLoop_eq_of_enough_threeFrames :
    ∃ s, sendLoop threeFrames false threeFrames.loopcount .start
        [.enobufs none, .written, .eintr, .written, .written] = some ⟨0, [], s⟩ ∧
      s.sent = (List.range 3).map fun i => threeFrames.numbered (BitVec.ofNat 8 i) :=
  sendLoop_eq_of_enough (c := 3) rfl (by decide) (by decide)

end Sending

/-! ## What is reported -/

section Receiving

variable {st : Settings} {r : Receiver}

/-- A number is the one that is expected after another. -/
def Follows (a b : BitVec 8) : Prop := b = a + 1

instance : DecidableRel Follows := fun a b => inferInstanceAs (Decidable (b = a + 1))

/-- The numbers that are reported: all of them, or the first one. -/
def Settings.reported (st : Settings) (bs : List (BitVec 8 × BitVec 8)) :
    List (BitVec 8 × BitVec 8) := if st.quit then bs.take 1 else bs

/-- The line for a number that does not follow the one before it. -/
def breakLine (p : BitVec 8 × BitVec 8) : CString := wrongLine (p.1 + 1) p.2

theorem receiveFrame_of_eq (hverbose : st.verbose = 0) (hinit : r.sequenceInit = false)
    (seqWrap : r.seqWrap = 0) :
    receiveFrame st r r.sequence = .ok ⟨r.sequence + 1, false, 0, r.stdout⟩ := by
  simp [receiveFrame, Receiver.advance, frameLine, wrapLine, nextWrap, hverbose, hinit, seqWrap]

theorem receiveFrame_of_ne (hverbose : st.verbose = 0) (hinit : r.sequenceInit = false)
    (seqWrap : r.seqWrap = 0) {n : BitVec 8} (hn : n ≠ r.sequence) :
    receiveFrame st r n =
      if st.quit then .error ⟨1, r.stdout ++ [wrongLine r.sequence n], []⟩
      else .ok ⟨n + 1, false, 0, r.stdout ++ [wrongLine r.sequence n]⟩ := by
  simp [receiveFrame, Receiver.advance, frameLine, wrapLine, nextWrap, hverbose, hinit, seqWrap, hn]

theorem receiveLoop_cons_error {loopcount : Option (BitVec 32)} (h : Continues loopcount) {x : Read}
    {outcome : Outcome} (hx : readStep st r x = .error outcome) (xs : List Read) :
    receiveLoop st loopcount r (x :: xs) = outcome := by
  rw [receiveLoop, if_pos h, hx]

theorem receiveLoop_cons_ok {loopcount : Option (BitVec 32)} (h : Continues loopcount) {x : Read}
    {r' : Receiver} (hx : readStep st r x = .ok r') (xs : List Read) :
    receiveLoop st loopcount r (x :: xs) = receiveLoop st (loopcount.map (· - 1)) r' xs := by
  rw [receiveLoop, if_pos h, hx]

/-- What a loop takes from a list. -/
def taken {α : Type*} (loopcount : Option (BitVec 32)) (l : List α) : List α :=
  match loopcount with
  | none => l
  | some c => l.take c.toNat

theorem taken_sublist {α : Type*} (loopcount : Option (BitVec 32)) (l : List α) :
    (taken loopcount l).Sublist l := by
  cases loopcount with
  | none => exact List.Sublist.refl l
  | some c => exact List.take_sublist c.toNat l

theorem map_taken {α β : Type*} (f : α → β) (loopcount : Option (BitVec 32)) (l : List α) :
    (taken loopcount l).map f = taken loopcount (l.map f) := by
  cases loopcount with
  | none => rfl
  | some c => exact List.map_take

/-- A count of frames cuts off what is received. -/
theorem receiveLoop_some (c : BitVec 32) (r : Receiver) (xs : List Read) :
    receiveLoop st (some c) r xs = receiveLoop st none r (xs.take c.toNat) := by
  induction xs generalizing c r with
  | nil => rw [List.take_nil]; rfl
  | cons x xs ih =>
    by_cases hc : c = 0
    · rw [hc, receiveLoop, if_neg fun hcont => hcont rfl]
      rfl
    · have hcont : Continues (some c) := fun hstop => hc (Option.some_inj.mp hstop)
      rw [← toNat_sub_one hc, List.take_succ_cons]
      cases hx : readStep st r x with
      | error outcome =>
        rw [receiveLoop_cons_error hcont hx, receiveLoop_cons_error continues_none hx]
      | ok r' =>
        rw [receiveLoop_cons_ok hcont hx, receiveLoop_cons_ok continues_none hx]
        exact ih (c - 1) r'

theorem receiveLoop_eq_taken (loopcount : Option (BitVec 32)) (r : Receiver) (xs : List Read) :
    receiveLoop st loopcount r xs = receiveLoop st none r (taken loopcount xs) := by
  cases loopcount with
  | none => rfl
  | some c => exact receiveLoop_some c r xs

/-- The receiver after a number. -/
theorem receiveLoop_after (hverbose : st.verbose = 0) (a : BitVec 8) (stdout : List CString)
    (fs : List Frame) :
    let bs := breaks Follows a (fs.map Frame.first)
    receiveLoop st none ⟨a + 1, false, 0, stdout⟩ (fs.map .frame) =
      ⟨if st.quit = true ∧ bs ≠ [] then 1 else 0,
        stdout ++ (st.reported bs).map breakLine, []⟩ := by
  induction fs generalizing a stdout with
  | nil => simp [receiveLoop, breaks, Settings.reported]
  | cons f fs ih =>
    simp only [List.map_cons]
    by_cases hn : f.first = a + 1
    · have hframe : readStep st ⟨a + 1, false, 0, stdout⟩ (.frame f) =
          .ok ⟨f.first + 1, false, 0, stdout⟩ := by
        rw [readStep, hn]
        exact receiveFrame_of_eq (r := ⟨a + 1, false, 0, stdout⟩) hverbose rfl rfl
      rw [receiveLoop_cons_ok continues_none hframe,
        breaks_cons_of_follows (show Follows a f.first from hn)]
      exact ih f.first stdout
    · have hframe : readStep st ⟨a + 1, false, 0, stdout⟩ (.frame f) =
          if st.quit then .error ⟨1, stdout ++ [wrongLine (a + 1) f.first], []⟩
          else .ok ⟨f.first + 1, false, 0, stdout ++ [wrongLine (a + 1) f.first]⟩ :=
        receiveFrame_of_ne (r := ⟨a + 1, false, 0, stdout⟩) hverbose rfl rfl hn
      rw [breaks_cons_of_not_follows (show ¬ Follows a f.first from hn)]
      cases hquit : st.quit with
      | true =>
        rw [hquit, if_pos rfl] at hframe
        rw [receiveLoop_cons_error continues_none hframe]
        simp [Settings.reported, hquit, breakLine]
      | false =>
        rw [hquit, if_neg Bool.false_ne_true] at hframe
        rw [receiveLoop_cons_ok continues_none hframe]
        have hrest := ih f.first (stdout ++ [wrongLine (a + 1) f.first])
        simp only [hquit, Bool.false_eq_true, false_and, if_false, Settings.reported] at hrest ⊢
        rw [List.map_cons, List.append_cons stdout (breakLine (a, f.first))]
        exact hrest

/-- **What the receiver reports**: the neighbours in the list of numbers that do not follow each
other, or only the first of them, and then it fails. -/
theorem receiveLoop_frames (hverbose : st.verbose = 0) (f : Frame) (fs : List Frame) :
    let bs := breaks Follows f.first (fs.map Frame.first)
    receiveLoop st none .start ((f :: fs).map .frame) =
      ⟨if st.quit = true ∧ bs ≠ [] then 1 else 0, (st.reported bs).map breakLine, []⟩ := by
  have hfirst : readStep st .start (.frame f) = .ok ⟨f.first + 1, false, 0, []⟩ := by
    simp [readStep, receiveFrame, Receiver.start, Receiver.advance, frameLine, wrapLine, nextWrap,
      hverbose]
  rw [List.map_cons, receiveLoop_cons_ok continues_none hfirst]
  exact receiveLoop_after hverbose f.first [] fs

/-! ## Both ends of the link -/

/-- The neighbours among the positions of the received frames between which a loss shows. -/
def shownLosses : List ℕ → List (ℕ × ℕ)
  | [] => []
  | i :: is => breaks (fun i k => 2 ^ 8 ∣ k - i - 1) i is

/-- What a receiver makes of frames that were sent at increasing positions. -/
theorem receiveLoop_numbered {st' : Settings} (hverbose : st'.verbose = 0) {is : List ℕ}
    (his : is.Pairwise (· < ·)) :
    receiveLoop st' none .start
        ((is.map fun i => st.numbered (BitVec.ofNat 8 i)).map .frame) =
      ⟨if st'.quit = true ∧ shownLosses is ≠ [] then 1 else 0,
        (st'.reported ((shownLosses is).map (Prod.map (BitVec.ofNat 8) (BitVec.ofNat 8)))).map
          breakLine, []⟩ := by
  cases is with
  | nil => simp [receiveLoop, shownLosses, Settings.reported, Receiver.start]
  | cons i is =>
    have hnumbers : (is.map fun i => st.numbered (BitVec.ofNat 8 i)).map Frame.first =
        is.map (BitVec.ofNat 8) := by
      rw [List.map_map]
      rfl
    have hfollows (i k : ℕ) (h : i < k) :
        Follows (BitVec.ofNat 8 i) (BitVec.ofNat 8 k) ↔ 2 ^ 8 ∣ k - i - 1 := ofNat_eq_succ_iff 8 h
    have hbreaks := breaks_map hfollows his.isChain
    have hreceive := receiveLoop_frames hverbose (st.numbered (BitVec.ofNat 8 i))
      (is.map fun i => st.numbered (BitVec.ofNat 8 i))
    rw [hnumbers] at hreceive
    change receiveLoop st' none .start _ =
      ⟨if st'.quit = true ∧ breaks _ (BitVec.ofNat 8 i) _ ≠ [] then 1 else 0,
        (st'.reported (breaks _ (BitVec.ofNat 8 i) _)).map breakLine, []⟩ at hreceive
    rw [hbreaks] at hreceive
    rw [List.map_cons, hreceive, shownLosses]
    simp only [ne_eq, List.map_eq_nil_iff]

theorem Sender.Counts.getElem? {s : Sender} {n : ℕ} (h : s.Counts st n) {i : ℕ} {f : Frame}
    (hf : s.sent[i]? = some f) : f = st.numbered (BitVec.ofNat 8 i) := by
  rw [h.sent, List.getElem?_map] at hf
  obtain ⟨k, hk, rfl⟩ := Option.map_eq_some_iff.mp hf
  obtain ⟨hlt, rfl⟩ := List.getElem?_eq_some_iff.mp hk
  rw [List.getElem_range]

/-- **What is reported of a run of the sender**, of which the frames at the positions `is` arrive: a
loss between two of them is reported unless it is of a multiple of 256 frames. Without `-q` the
receiver succeeds all the same. -/
theorem receiveLoop_of_sendLoop {st st' : Settings} {rs : List Write} {e : SenderExit}
    {bus : List Frame} {is : List ℕ} (hverbose : st'.verbose = 0)
    (hsend : sendLoop st false st.loopcount .start rs = some e) (his : is.Pairwise (· < ·))
    (hbus : (bus.filter st'.accepts).map some = is.map fun i => e.sender.sent[i]?) :
    receiveLoop st' st'.loopcount .start ((bus.filter st'.accepts).map .frame) =
      let losses := shownLosses (taken st'.loopcount is)
      ⟨if st'.quit = true ∧ losses ≠ [] then 1 else 0,
        (st'.reported (losses.map (Prod.map (BitVec.ofNat 8) (BitVec.ofNat 8)))).map breakLine,
        []⟩ := by
  obtain ⟨n, hcounts, -⟩ := counts_of_sendLoop (counts_start st) hsend
  -- Each position that arrives is one that was sent, with its number.
  have hnumbered : ∀ i ∈ is, e.sender.sent[i]? = some (st.numbered (BitVec.ofNat 8 i)) := by
    intro i hi
    have hmem : e.sender.sent[i]? ∈ (bus.filter st'.accepts).map some :=
      hbus ▸ List.mem_map_of_mem hi
    obtain ⟨f, -, hf⟩ := List.mem_map.mp hmem
    rw [← hf, hcounts.getElem? hf.symm]
  have hframes : bus.filter st'.accepts = is.map fun i => st.numbered (BitVec.ofNat 8 i) := by
    refine List.map_injective_iff.mpr (Option.some_injective Frame) ?_
    rw [hbus, List.map_map]
    exact List.map_congr_left hnumbered
  rw [receiveLoop_eq_taken, hframes, List.map_map, ← map_taken, ← List.map_map]
  exact receiveLoop_numbered hverbose (his.sublist (taken_sublist st'.loopcount is))

/-- The second frame of three is lost. -/
theorem receiveLoop_of_sendLoop_second_lost :
    receiveLoop quitReceiver none .start
        (([threeFrames.numbered 0, threeFrames.numbered 2].filter quitReceiver.accepts).map
          .frame) =
      ⟨1, [wrongLine 1 2], []⟩ :=
  receiveLoop_of_sendLoop rfl
    (show sendLoop threeFrames false threeFrames.loopcount .start
      [.written, .written, .written] = some threeSent from rfl)
    (show [0, 2].Pairwise (· < ·) by decide) (by decide)

end Receiving

end LinuxTest.Can
