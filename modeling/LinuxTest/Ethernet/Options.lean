import LinuxTest.Ethernet.IPAddress
import LinuxTest.Foundations.EarlyExit
import LinuxTest.Foundations.PartialRun

/-!
# The option loop of the traffic tool

The option loop of `main` in `ethernet_test/test-suite/options.cpp`. An option is recognised by its
second character; `-t` and `-r` open a new worker, which becomes the current one, and most other
options configure the current worker, if there is one. Members that the constructor of a worker
leaves uninitialised have no value until an option gives them one.

## Main definitions

* `SocketWorker`, `State`: a worker, and the variables of the loop
* `Opt`, `parse`: the options, and how an argument is recognised
* `configure`, `step`: what an option does
* `optionLoop`: the whole loop over an argument vector
* `accepted`: the same over recognised options, for runs without an error

## Main results

* `optionLoop_ok_iff`: a command line is accepted when its arguments are recognised and their
  options accepted
* `length_runFrom`: there is a worker for every `-t` and `-r`
-/

namespace LinuxTest.Ethernet.Options

open Foundations

/-- A worker. A member without a value is uninitialised. -/
structure SocketWorker where
  txrxType : ℕ
  bStats : Bool
  bUdp : Option Bool
  bTouch : Bool
  bEcho : Bool
  bNoUdpChecksum : Bool
  bNoTcpDelay : Bool
  bForceIPv6 : Bool
  priority : Option (BitVec 32)
  affinity : Option (BitVec 32)
  sockbufsize : Option (BitVec 32)
  seconds : Option (BitVec 32)
  messageSize : Option (BitVec 32)
  vSrcIPs : List Sockaddr
  vDestIP : List Sockaddr
  vLocalIP : List Sockaddr
deriving Repr, DecidableEq

/-- The constructor. -/
def SocketWorker.new (type : ℕ) : SocketWorker where
  txrxType := type
  bStats := false
  bUdp := none
  bTouch := false
  bEcho := false
  bNoUdpChecksum := false
  bNoTcpDelay := false
  bForceIPv6 := false
  priority := none
  affinity := none
  sockbufsize := none
  seconds := none
  messageSize := none
  vSrcIPs := []
  vDestIP := []
  vLocalIP := []

/-- The variables of the loop. The current worker, as an index into the workers, is always the one
opened last. -/
structure State where
  psocket : Option ℕ
  seconds : BitVec 32
  sockbufsize : BitVec 32
  vSockets : List SocketWorker
  current : vSockets.length = (psocket.map (· + 1)).getD 0
deriving Repr, DecidableEq

/-- The variables before the loop. -/
def State.init : State := ⟨none, 0, 8192, [], rfl⟩

/-- The options, with the text that follows the letter where it is used. -/
inductive Opt where
  | t
  | r
  | m (text : CString)
  | s
  | six
  | l (text : CString)
  | b (text : CString)
  | i (text : CString)
  | a (text : CString)
  | x (text : CString)
  | T
  | e
  | R
  | u
  | n
  | S (text : CString)
deriving Repr, DecidableEq

/-- Why the loop does not end normally: an unsupported option, an address that cannot be built, or
an empty argument, whose second character is out of bounds. -/
inductive Stop where
  | unsupported (c : Char)
  | address (stop : IPAddress.Stop)
  | emptyArgument
deriving Repr, DecidableEq

/-- The switch over the second character of an argument. The first is not looked at. -/
def parse : CString → Except Stop Opt
  | [] => .error .emptyArgument
  | [_] => .error (.unsupported '\x00')
  | _ :: 't' :: _ => .ok .t
  | _ :: 'r' :: _ => .ok .r
  | _ :: 'm' :: text => .ok (.m text)
  | _ :: 's' :: _ => .ok .s
  | _ :: '6' :: _ => .ok .six
  | _ :: 'l' :: text => .ok (.l text)
  | _ :: 'b' :: text => .ok (.b text)
  | _ :: 'i' :: text => .ok (.i text)
  | _ :: 'a' :: text => .ok (.a text)
  | _ :: 'x' :: text => .ok (.x text)
  | _ :: 'T' :: _ => .ok .T
  | _ :: 'e' :: _ => .ok .e
  | _ :: 'R' :: _ => .ok .R
  | _ :: 'u' :: _ => .ok .u
  | _ :: 'n' :: _ => .ok .n
  | _ :: 'S' :: text => .ok (.S text)
  | _ :: c :: _ => .error (.unsupported c)

/-- Build an address, in the terms of the loop. -/
def address (net : Network) (text : CString) : Except Stop Sockaddr :=
  (IPAddress.new net text).mapError .address

/-- What an option does to the current worker. -/
def configure (net : Network) : Opt → Except Stop (SocketWorker → SocketWorker)
  | .m text => .ok fun w => { w with messageSize := some (atoi text) }
  | .s => .ok fun w => { w with bStats := true }
  | .six => .ok fun w => { w with bForceIPv6 := true }
  | .l text => do
    let ip ← address net text
    -- The address is printed, which asserts its family.
    let _ ← (IPAddress.tostring net ip).mapError .address
    return fun w => { w with vLocalIP := w.vLocalIP ++ [ip] }
  | .i text => do
    let ip ← address net text
    return fun w => { w with vDestIP := w.vDestIP ++ [ip] }
  | .a text => .ok fun w => { w with affinity := some (atoi text) }
  | .x text => .ok fun w => { w with priority := some (atoi text) }
  | .T => .ok fun w => { w with bTouch := true }
  | .e => .ok fun w => { w with bEcho := true }
  | .u => .ok fun w => { w with bNoUdpChecksum := true }
  | .n => .ok fun w => { w with bNoTcpDelay := true }
  -- These are handled by the loop itself.
  | .t | .r | .b _ | .R | .S _ => .ok id

namespace State

/-- A new worker, which takes the seconds and the buffer size seen so far. -/
def opened (s : State) (type : ℕ) : SocketWorker :=
  { SocketWorker.new type with seconds := some s.seconds, sockbufsize := some s.sockbufsize }

/-- Open a worker, and make it the current one. -/
def create (s : State) (type : ℕ) : State where
  psocket := some s.vSockets.length
  seconds := s.seconds
  sockbufsize := s.sockbufsize
  vSockets := s.vSockets ++ [s.opened type]
  current := List.length_append

/-- Change one worker. -/
def update (s : State) (i : ℕ) (f : SocketWorker → SocketWorker) : State where
  psocket := s.psocket
  seconds := s.seconds
  sockbufsize := s.sockbufsize
  vSockets := s.vSockets.modify i f
  current := (List.length_modify ..).trans s.current

/-- Change the current worker, if there is one. -/
def withSocket (s : State) (change : Except Stop (SocketWorker → SocketWorker)) :
    Except Stop State :=
  match s.psocket with
  | none => .ok s
  | some i => change.map (s.update i)

@[simp] theorem create_vSockets (s : State) (type : ℕ) :
    (s.create type).vSockets = s.vSockets ++ [s.opened type] := rfl

@[simp] theorem update_vSockets (s : State) (i : ℕ) (f : SocketWorker → SocketWorker) :
    (s.update i f).vSockets = s.vSockets.modify i f := rfl

end State

/-- One iteration of the loop, for a recognised option. -/
def step (net : Network) (s : State) : Opt → Except Stop State
  | .t => .ok (s.create 0)
  | .r => .ok (s.create 1)
  | .b text => .ok { s with sockbufsize := atoi text }
  | .R => .ok s
  | .S text => .ok { s with seconds := atoi text }
  | o => s.withSocket (configure net o)

/-- The loop over an argument vector, whose first entry is the name of the program. -/
def optionLoop (net : Network) (argv : List CString) : Except Stop State :=
  argv.tail.foldlM (fun s arg => do step net s (← parse arg)) State.init

/-- The state after the options `opts` from the state `s`, if all are accepted. -/
def runFrom (net : Network) (s : State) (opts : List Opt) : Option State :=
  run (fun s o => (step net s o).toOption) s opts

/-- The state after the options `opts`, if all are accepted. -/
def accepted (net : Network) (opts : List Opt) : Option State := runFrom net State.init opts

/-- The options that open a worker. -/
def Opt.creates : Opt → Bool
  | .t | .r => true
  | _ => false

/-- The kind of worker that `-t` and `-r` open: a sender or a receiver. -/
def Opt.type : Opt → ℕ
  | .t => 0
  | _ => 1

/-- The options that configure the current worker and nothing else: all but `-t`, `-r`, `-b`, `-R`
and `-S`. -/
def Opt.configures : Opt → Bool
  | .t | .r | .b _ | .R | .S _ => false
  | _ => true

/-! ## One iteration -/

section Step

variable {net : Network} {s s' : State} {o : Opt}

theorem step_creates (ho : o.creates = true) : step net s o = .ok (s.create o.type) := by
  cases o <;> first | rfl | cases ho

theorem step_configures (ho : o.configures = true) :
    step net s o = s.withSocket (configure net o) := by
  cases o <;> first | rfl | cases ho

/-- What changing the current worker can do. -/
theorem withSocket_cases {change : Except Stop (SocketWorker → SocketWorker)}
    (h : s.withSocket change = .ok s') :
    (s.psocket = none ∧ s' = s) ∨
      ∃ i f, s.psocket = some i ∧ change = .ok f ∧ s' = s.update i f := by
  unfold State.withSocket at h
  cases hp : s.psocket with
  | none =>
    rw [hp] at h
    exact Or.inl ⟨rfl, (Except.ok.inj h).symm⟩
  | some i =>
    rw [hp] at h
    cases hc : change with
    | error stop =>
      rw [hc] at h
      cases h
    | ok f =>
      rw [hc] at h
      exact Or.inr ⟨i, f, rfl, rfl, (Except.ok.inj h).symm⟩

/-- Whether the current worker can be changed, and how, depends on which one it is. -/
theorem withSocket_congr {t : State} {change : Except Stop (SocketWorker → SocketWorker)}
    (hst : s.psocket = t.psocket) (h : s.withSocket change = .ok s') :
    (s' = s ∧ t.withSocket change = .ok t) ∨
      ∃ i f, s.psocket = some i ∧ change = .ok f ∧ s' = s.update i f ∧
        t.withSocket change = .ok (t.update i f) := by
  unfold State.withSocket
  rw [← hst]
  rcases withSocket_cases h with ⟨hnone, rfl⟩ | ⟨i, f, hi, rfl, rfl⟩
  · rw [hnone]
    exact Or.inl ⟨rfl, rfl⟩
  · rw [hi]
    exact Or.inr ⟨i, f, rfl, rfl, rfl, rfl⟩

/-- **What an iteration can do**: open a worker, set a variable of the loop, or change the current
worker. -/
theorem step_cases (h : step net s o = .ok s') :
    (o.creates = true ∧ s' = s.create o.type) ∨
    (∃ text, o = .b text ∧ s' = { s with sockbufsize := atoi text }) ∨
    (o = .R ∧ s' = s) ∨
    (∃ text, o = .S text ∧ s' = { s with seconds := atoi text }) ∨
    (o.configures = true ∧ s.withSocket (configure net o) = .ok s') := by
  by_cases ho : o.configures = true
  · exact Or.inr (Or.inr (Or.inr (Or.inr ⟨ho, by rwa [step_configures ho] at h⟩)))
  · cases o with
    | t => exact Or.inl ⟨rfl, (Except.ok.inj h).symm⟩
    | r => exact Or.inl ⟨rfl, (Except.ok.inj h).symm⟩
    | b text => exact Or.inr (Or.inl ⟨text, rfl, (Except.ok.inj h).symm⟩)
    | R => exact Or.inr (Or.inr (Or.inl ⟨rfl, (Except.ok.inj h).symm⟩))
    | S text => exact Or.inr (Or.inr (Or.inr (Or.inl ⟨text, rfl, (Except.ok.inj h).symm⟩)))
    | _ => exact absurd rfl ho

theorem not_creates_of_configures (ho : o.configures = true) : ¬ o.creates = true := by
  cases o <;> first | exact Bool.false_ne_true | cases ho

/-- A worker is added exactly by the options that open one. -/
theorem length_step (h : step net s o = .ok s') :
    s'.vSockets.length = s.vSockets.length + (if o.creates = true then 1 else 0) := by
  rcases step_cases h with ⟨ho, rfl⟩ | ⟨text, rfl, rfl⟩ | ⟨rfl, rfl⟩ | ⟨text, rfl, rfl⟩ |
    ⟨ho, hchange⟩
  · rw [if_pos ho]
    exact List.length_append
  · rfl
  · rfl
  · rfl
  · rw [if_neg (not_creates_of_configures ho)]
    rcases withSocket_cases hchange with ⟨-, rfl⟩ | ⟨i, f, -, -, rfl⟩
    · rfl
    · exact List.length_modify ..

/-- The current worker changes exactly with the options that open one. -/
theorem psocket_step (h : step net s o = .ok s') :
    s'.psocket = if o.creates = true then some s.vSockets.length else s.psocket := by
  rcases step_cases h with ⟨ho, rfl⟩ | ⟨text, rfl, rfl⟩ | ⟨rfl, rfl⟩ | ⟨text, rfl, rfl⟩ |
    ⟨ho, hchange⟩
  · rw [if_pos ho]
    rfl
  · rfl
  · rfl
  · rfl
  · rw [if_neg (not_creates_of_configures ho)]
    rcases withSocket_cases hchange with ⟨-, rfl⟩ | ⟨i, f, -, -, rfl⟩
    · rfl
    · rfl

end Step

/-! ## Whole runs -/

theorem toOption_eq_some {A B : Type} {x : Except A B} {y : B} :
    x.toOption = some y ↔ x = .ok y := by
  cases x <;> simp [Except.toOption]

/-- How many workers a list of options opens. -/
def creations (opts : List Opt) : ℕ := opts.countP Opt.creates

/-- **There is a worker for every option that opens one.** -/
theorem length_runFrom {net : Network} {s s' : State} {opts : List Opt}
    (h : runFrom net s opts = some s') :
    s'.vSockets.length = s.vSockets.length + creations opts := by
  induction opts generalizing s with
  | nil =>
    cases h
    rfl
  | cons o opts ih =>
    obtain ⟨s₁, ho, hrun⟩ := Option.bind_eq_some_iff.mp h
    rw [ih hrun, length_step (toOption_eq_some.mp ho), creations, creations, List.countP_cons]
    omega

/-- **A command line is accepted** when its arguments are recognised and their options accepted. -/
theorem optionLoop_ok_iff (net : Network) (argv : List CString) (s : State) :
    optionLoop net argv = .ok s ↔
      ∃ opts, argv.tail.mapM parse = .ok opts ∧ accepted net opts = some s := by
  unfold optionLoop accepted
  generalize State.init = s₀
  -- The loop parses an argument just before its step, the right side parses all of them first.
  induction argv.tail generalizing s₀ with
  | nil =>
    constructor
    · rintro ⟨⟩
      exact ⟨[], rfl, rfl⟩
    · rintro ⟨opts, ⟨⟩, ⟨⟩⟩
      rfl
  | cons arg args ih =>
    rw [List.foldlM_cons, List.mapM_cons, bind_eq_ok]
    constructor
    · rintro ⟨s₁, harg, hrest⟩
      obtain ⟨o, ho, hstep⟩ := bind_eq_ok.mp harg
      obtain ⟨opts, hopts, hrun⟩ := (ih s₁).mp hrest
      refine ⟨o :: opts, ?_, ?_⟩
      · rw [ho, hopts]
        rfl
      · exact Option.bind_eq_some_iff.mpr ⟨s₁, toOption_eq_some.mpr hstep, hrun⟩
    · rintro ⟨opts', hopts', hrun⟩
      obtain ⟨o, ho, hrest⟩ := bind_eq_ok.mp hopts'
      obtain ⟨opts, hopts, heq⟩ := bind_eq_ok.mp hrest
      cases heq
      obtain ⟨s₁, hstep, hrun'⟩ := Option.bind_eq_some_iff.mp hrun
      exact ⟨s₁, bind_eq_ok.mpr ⟨o, ho, toOption_eq_some.mp hstep⟩,
        (ih s₁).mpr ⟨opts, hopts, hrun'⟩⟩

end LinuxTest.Ethernet.Options
