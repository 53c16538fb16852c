import LinuxTest.Foundations.DoWhile
import LinuxTest.Foundations.EarlyExit
import LinuxTest.Libc

/-!
# The watchdog test

`watchdog/watchdog-test.c`: the program opens the watchdog, which arms it, sets and reads its
interval, and kicks it on commands from the standard input. Before it closes the device it writes
the byte `V`, which disarms it. `getopt_long` is left out: the options are the sequence of its
results. The results of the calls are parameters, and what the device sees is a list of events.

The command loop reads until it gets an `x`. At the end of its input `getchar` returns `EOF`, which
becomes a character like any other.

## Main definitions

* `Event`: what the device sees
* `getchar`, `command`, `commandLoop`: the command loop
* `parseOpt`, `prepare`, `main`: the rest of the program
* `kicks`: the kicks that a sequence of commands asks for
* `Disarmed`: the byte `V` was written after the last kick

## Main results

* `commandLoop_eq`, `commandLoop_eq_none`: the loop with and without an `x` in its input
* `commandLoop_kicks_iff`: when the loop stops with the right kicks
* `disarmed_iff`: when a run that ends leaves the watchdog disarmed
-/

namespace LinuxTest.Watchdog

open Foundations

/-- The byte of a character. -/
def byte (c : Char) : BitVec 8 := BitVec.ofNat 8 c.toNat

/-- What the device sees. -/
inductive Event where
  | opened (dev : CString)
  | setTimeout (interval : BitVec 32)
  | getTimeout
  | getBootStatus
  | keepAlive
  | write (byte : BitVec 8)
  | closed
deriving Repr, DecidableEq

/-- The events so far, and what has been printed. -/
structure State where
  events : List Event
  output : List CString
deriving Repr, DecidableEq

namespace State

/-- Call the device. -/
def call (s : State) (event : Event) : State := { s with events := s.events ++ [event] }

/-- Print a text. -/
def print (s : State) (text : CString) : State := { s with output := s.output ++ [text] }

end State

/-! ## The command loop -/

/-- The `n`-th result of `getchar`: a character of the input, or `EOF` after its end. -/
def getchar (input : List (BitVec 8)) (n : ℕ) : BitVec 32 :=
  match input[n]? with
  | some c => c.setWidth 32
  | none => -1

/-- The body of the loop. The result of `getchar` is narrowed to a `char`. -/
def command (s : State) (c : BitVec 32) : State :=
  let kickWatchdog := c.setWidth 8
  if kickWatchdog = byte 'w' then
    (s.call (.write (byte 'w'))).print "Kick watchdog through writing over device file\n".toList
  else if kickWatchdog = byte 'i' then
    (s.call .keepAlive).print "Kick watchdog through IOCTL\n".toList
  else if kickWatchdog = byte 'x' then s.print "Goodbye !\n".toList
  else s.print "Unknown command\n".toList

/-- The loop; without a result it has not stopped after `fuel` characters. -/
def commandLoop (input : List (BitVec 8)) (fuel : ℕ) (s : State) : Option State :=
  doWhile command (fun c => c.setWidth 8 ≠ byte 'x') s ((List.range fuel).map (getchar input))

/-- The kick that a character asks for. -/
def kickOf (c : BitVec 8) : Option Event :=
  if c = byte 'w' then some (.write (byte 'w'))
  else if c = byte 'i' then some .keepAlive
  else none

/-- The kicks that the input asks for before its first `x`. -/
def kicks (input : List (BitVec 8)) : List Event :=
  (input.takeWhile (· ≠ byte 'x')).filterMap kickOf

section CommandLoop

variable {input p q : List (BitVec 8)}

theorem setWidth_getchar (input : List (BitVec 8)) (n : ℕ) :
    (getchar input n).setWidth 8 = input[n]?.getD (-1) := by
  unfold getchar
  cases input[n]? with
  | none => rfl
  | some c => exact BitVec.setWidth_setWidth_of_le c (by decide)

theorem events_command (s : State) (c : BitVec 32) :
    (command s c).events = s.events ++ (kickOf (c.setWidth 8)).toList := by
  unfold command kickOf
  dsimp only
  split_ifs
  · rfl
  · rfl
  · exact (List.append_nil _).symm
  · exact (List.append_nil _).symm

theorem events_foldl_command (cs : List (BitVec 32)) (s : State) :
    (cs.foldl command s).events =
      s.events ++ (cs.map fun c => c.setWidth 8).filterMap kickOf := by
  induction cs generalizing s with
  | nil => exact (List.append_nil _).symm
  | cons c cs ih =>
    rw [List.foldl_cons, ih, events_command, List.map_cons, List.filterMap_cons, List.append_assoc]
    cases kickOf (c.setWidth 8) <;> rfl

theorem narrow_widen (c : BitVec 8) : (c.setWidth 32).setWidth 8 = c :=
  BitVec.setWidth_setWidth_of_le c (by decide)

/-- The first results of `getchar` are the first characters. -/
theorem map_getchar (p q : List (BitVec 8)) :
    (List.range p.length).map (getchar (p ++ q)) = p.map fun c => c.setWidth 32 := by
  refine List.ext_getElem (by simp) fun n hn hn' => ?_
  have hlt : n < p.length := by simpa using hn
  simp [getchar, List.getElem?_append_left hlt, hlt]

theorem kicks_append_cons (hp : byte 'x' ∉ p) : kicks (p ++ byte 'x' :: q) = p.filterMap kickOf := by
  have hall : ∀ c ∈ p, (decide (c ≠ byte 'x')) = true :=
    fun c hc => decide_eq_true fun h => hp (h ▸ hc)
  rw [kicks, List.takeWhile_append_of_pos hall, List.takeWhile_cons, if_neg (by decide),
    List.append_nil]

/-- **With an `x` in its input the loop stops**, after the kicks before it. -/
theorem commandLoop_eq (hp : byte 'x' ∉ p) (q : List (BitVec 8)) (s : State) :
    ∃ s', commandLoop (p ++ byte 'x' :: q) (p.length + 1) s = some s' ∧
      s'.events = s.events ++ kicks (p ++ byte 'x' :: q) := by
  -- The loop reads the characters before the `x`, and the `x` itself.
  have hreads : (List.range (p.length + 1)).map (getchar (p ++ byte 'x' :: q)) =
      (p.map fun c => c.setWidth 32) ++ [(byte 'x').setWidth 32] := by
    have happend : p ++ byte 'x' :: q = (p ++ [byte 'x']) ++ q := by simp
    have hmap := map_getchar (p ++ [byte 'x']) q
    rw [List.length_append, List.length_singleton, List.map_append] at hmap
    rw [happend]
    exact hmap
  have hagain : ∀ c ∈ p.map (fun c => c.setWidth 32), c.setWidth 8 ≠ byte 'x' := by
    intro c hc
    obtain ⟨c', hc', rfl⟩ := List.mem_map.mp hc
    rw [narrow_widen]
    exact fun h => hp (h ▸ hc')
  have hloop : commandLoop (p ++ byte 'x' :: q) (p.length + 1) s =
      some (((p.map fun c => c.setWidth 32) ++ [(byte 'x').setWidth 32]).foldl command s) := by
    rw [commandLoop, hreads]
    exact doWhile_append_cons hagain (fun h => h (narrow_widen _)) s []
  refine ⟨_, hloop, ?_⟩
  have hnarrow : ((p.map fun c => c.setWidth 32) ++ [(byte 'x').setWidth 32]).map
      (fun c => c.setWidth 8) = p ++ [byte 'x'] := by
    rw [List.map_append, List.map_map]
    simp [Function.comp_def]
  rw [events_foldl_command, hnarrow, kicks_append_cons hp, List.filterMap_append]
  -- The `x` itself is no kick.
  exact congrArg (s.events ++ ·) (List.append_nil _)

/-- **Without an `x` in its input the loop never stops.** -/
theorem commandLoop_eq_none (hinput : byte 'x' ∉ input) (fuel : ℕ) (s : State) :
    commandLoop input fuel s = none := by
  refine doWhile_eq_none (fun c hc => ?_) s
  obtain ⟨n, -, rfl⟩ := List.mem_map.mp hc
  rw [setWidth_getchar]
  -- Neither a character of the input nor the end of the file is an `x`.
  cases hn : input[n]? with
  | none => decide
  | some c => exact fun h => hinput (h ▸ List.mem_of_getElem? hn)

/-- **When the loop stops with the right kicks**: exactly when there is an `x` in its input. -/
theorem commandLoop_kicks_iff (input : List (BitVec 8)) (s : State) :
    (∃ fuel s', commandLoop input fuel s = some s' ∧ s'.events = s.events ++ kicks input) ↔
      byte 'x' ∈ input := by
  constructor
  · rintro ⟨fuel, s', hloop, -⟩
    by_contra hinput
    rw [commandLoop_eq_none hinput] at hloop
    cases hloop
  · intro hinput
    obtain ⟨p, q, rfl, hp⟩ := List.eq_append_cons_of_mem hinput
    exact ⟨p.length + 1, commandLoop_eq hp q s⟩

/-- Without any input the loop goes on forever. -/
theorem not_commandLoop_kicks_nil :
    ¬ ∃ fuel s', commandLoop [] fuel ⟨[], []⟩ = some s' ∧ s'.events = [] ++ kicks [] := by
  rintro ⟨fuel, s', hloop, -⟩
  rw [commandLoop_eq_none List.not_mem_nil] at hloop
  cases hloop

end CommandLoop

/-! ## The program -/

/-- The results of `getopt_long`: the options with their arguments, an invalid one, and anything
else. -/
inductive Opt where
  | help
  | dev (text : CString)
  | interval (text : CString)
  | invalid
  | other
deriving Repr, DecidableEq

/-- The variables that the options set. -/
structure Settings where
  dev : CString
  interval : BitVec 32
deriving Repr, DecidableEq

/-- How the program ends. -/
inductive Ending where
  | exit (status : ℕ)
  | abort
deriving Repr, DecidableEq

/-- The end of the program, with what the device saw and what was printed. -/
structure Outcome where
  ending : Ending
  state : State
deriving Repr, DecidableEq

/-- The results of the calls before the command loop. -/
structure Device where
  /-- Whether a device can be opened. -/
  opens : CString → Bool
  /-- Whether the interval can be set. -/
  setTimeout : BitVec 32 → Bool
  /-- The interval, unless it cannot be read. -/
  getTimeout : Option (BitVec 32)
  /-- The status of the last boot, unless it cannot be read. -/
  getBootStatus : Option (BitVec 32)
  /-- The text of `errno`. -/
  error : CString

/-- The text of `print_usage`. -/
def usage (appName : CString) : CString :=
  "Usage: ".toList ++ appName ++ (" [options]\n" ++
    " -h  --help                Display this usage information.\n" ++
    " -d  --dev <device_file>   Use <device_file> as watchdog device file.\n" ++
    "                           The default device file is '/dev/watchdog'\n" ++
    " -i  --interval <interval> Change the watchdog interval time\n").toList

/-- One iteration of the loop over the options. -/
def parseOpt (appName : CString) (settings : Settings) : Opt → Except Outcome Settings
  | .help => .error ⟨.exit 0, ⟨[], [usage appName]⟩⟩
  | .dev text => .ok { settings with dev := text }
  | .interval text => .ok { settings with interval := atoi text }
  | .invalid => .error ⟨.exit 1, ⟨[], [usage appName]⟩⟩
  | .other => .error ⟨.abort, ⟨[], []⟩⟩

/-- Open the device, which arms the watchdog. -/
def openDevice (device : Device) (dev : CString) : Except Outcome State :=
  if device.opens dev then .ok ⟨[.opened dev], []⟩
  else .error ⟨.exit 1, ⟨[], ["Error: ".toList ++ device.error ++ "\n".toList]⟩⟩

/-- Set the interval, if the user wants to change it. -/
def setInterval (device : Device) (interval : BitVec 32) (s : State) : Except Outcome State :=
  if interval = 0 then .ok s
  else
    let s := (s.print ("Set watchdog interval to ".toList ++ decimal interval.toInt ++
      "\n".toList)).call (.setTimeout interval)
    if device.setTimeout interval then .ok s
    else .error ⟨.exit 1, s.print "Error: Set watchdog interval failed\n".toList⟩

/-- A call that reads from the device: the line with what was read, or the end of the program. -/
def request (event : Event) (line : Option CString) (failure : CString) (s : State) :
    Except Outcome State :=
  match line with
  | some text => .ok ((s.call event).print text)
  | none => .error ⟨.exit 1, (s.call event).print failure⟩

/-- Display the interval. -/
def showInterval (device : Device) : State → Except Outcome State :=
  request .getTimeout
    (device.getTimeout.map fun interval =>
      "Current watchdog interval is ".toList ++ decimal interval.toInt ++ "\n".toList)
    "Error: Cannot read watchdog interval\n".toList

/-- Check if the last boot was caused by the watchdog. -/
def showBootStatus (device : Device) : State → Except Outcome State :=
  request .getBootStatus
    (device.getBootStatus.map fun bootstatus =>
      "Last boot is caused by : ".toList ++
        (if bootstatus ≠ 0 then "Watchdog".toList else "Power-On-Reset".toList) ++ "\n".toList)
    "Error: Cannot read watchdog status\n".toList

/-- The calls between the opening of the device and the command loop. -/
def prepare (device : Device) (interval : BitVec 32) (s : State) : Except Outcome State := do
  let s ← setInterval device interval s
  let s ← showInterval device s
  showBootStatus device s

/-- The program up to the command loop. -/
def start (device : Device) (appName : CString) (opts : List Opt) : Except Outcome State := do
  let settings ← opts.foldlM (parseOpt appName) ⟨"/dev/watchdog".toList, 0⟩
  let s ← openDevice device settings.dev
  prepare device settings.interval s

/-- The explanation of the commands. -/
def commands : CString :=
  ("Use:\n" ++
    " <w> to kick through writing over device file\n" ++
    " <i> to kick through IOCTL\n" ++
    " <x> to exit the program\n").toList

/-- The function `main`; without a result it has not ended after `fuel` characters. -/
def main (device : Device) (appName : CString) (opts : List Opt) (input : List (BitVec 8))
    (fuel : ℕ) : Option Outcome :=
  match start device appName opts with
  | .error outcome => some outcome
  | .ok s =>
    (commandLoop input fuel (s.print commands)).map fun s =>
      ⟨.exit 0, (s.call (.write (byte 'V'))).call .closed⟩

/-- The kicks among the events. -/
def Event.isKick : Event → Bool
  | .keepAlive => true
  | .write b => b = byte 'w'
  | _ => false

/-- The byte `V` was written, and no kick came after it. -/
def Disarmed (events : List Event) : Prop :=
  ∃ before after, events = before ++ .write (byte 'V') :: after ∧ ∀ e ∈ after, e.isKick = false

/-- The interval after an option. -/
def Opt.setsInterval (interval : BitVec 32) : Opt → BitVec 32
  | .interval text => atoi text
  | _ => interval

/-- The interval that the last `-i` asks for; zero without one. -/
def intervalOf (opts : List Opt) : BitVec 32 := opts.foldl Opt.setsInterval 0

/-- The calls before the command loop go well. -/
structure Responds (device : Device) (interval : BitVec 32) : Prop where
  setTimeout : interval ≠ 0 → device.setTimeout interval = true
  getTimeout : device.getTimeout.isSome = true
  getBootStatus : device.getBootStatus.isSome = true

section Disarm

variable {device : Device} {interval : BitVec 32} {s : State}

/-- Nothing has been written. -/
def Quiet (s : State) : Prop := ∀ b, .write b ∉ s.events

theorem Quiet.call (h : Quiet s) {event : Event} (hevent : ∀ b, event ≠ .write b) :
    Quiet (s.call event) := by
  intro b hb
  rcases List.mem_append.mp hb with hb | hb
  · exact h b hb
  · exact hevent b (List.mem_singleton.mp hb).symm

theorem Quiet.not_disarmed (h : Quiet s) : ¬ Disarmed s.events := by
  rintro ⟨before, after, hevents, -⟩
  refine h (byte 'V') ?_
  rw [hevents]
  exact List.mem_append_right before List.mem_cons_self

theorem setInterval_decides (device : Device) (interval : BitVec 32) (hquiet : Quiet s) :
    Decides (interval ≠ 0 → device.setTimeout interval = true) (setInterval device interval s)
      (fun outcome => Quiet outcome.state) Quiet := by
  unfold setInterval
  by_cases hzero : interval = 0
  · rw [if_pos hzero]
    exact .ok (fun h => absurd hzero h) hquiet
  · have hquiet' : Quiet ((s.print ("Set watchdog interval to ".toList ++ decimal interval.toInt ++
        "\n".toList)).call (.setTimeout interval)) :=
      Quiet.call hquiet fun b => Event.noConfusion
    rw [if_neg hzero]
    dsimp only
    by_cases hset : device.setTimeout interval = true
    · rw [if_pos hset]
      exact .ok (fun _ => hset) hquiet'
    · rw [if_neg hset]
      exact .error (fun h => hset (h hzero)) hquiet'

theorem request_decides {event : Event} (hevent : ∀ b, event ≠ .write b) {A : Type}
    (reply : Option A) (line : A → CString) (failure : CString) (hquiet : Quiet s) :
    Decides (reply.isSome = true) (request event (reply.map line) failure s)
      (fun outcome => Quiet outcome.state) Quiet := by
  have hquiet' : Quiet (s.call event) := hquiet.call hevent
  cases reply with
  | none => exact .error Bool.false_ne_true hquiet'
  | some a => exact .ok rfl hquiet'

/-- **The calls between the opening and the command loop**: they go well or end the program, and
write nothing. -/
theorem prepare_decides (device : Device) (interval : BitVec 32) (hquiet : Quiet s) :
    Decides (Responds device interval) (prepare device interval s)
      (fun outcome => Quiet outcome.state) Quiet := by
  have hshow : ∀ s, Quiet s → Decides (device.getTimeout.isSome = true) (showInterval device s)
      (fun outcome => Quiet outcome.state) Quiet :=
    fun s hs => request_decides (fun _ => Event.noConfusion) _ _ _ hs
  have hboot : ∀ s, Quiet s → Decides (device.getBootStatus.isSome = true)
      (showBootStatus device s) (fun outcome => Quiet outcome.state) Quiet :=
    fun s hs => request_decides (fun _ => Event.noConfusion) _ _ _ hs
  have hall := (setInterval_decides device interval hquiet).bind
    fun s hs => (hshow s hs).bind hboot
  exact hall.of_iff ⟨fun h => ⟨h.1, h.2.1, h.2.2⟩,
    fun h => ⟨h.setTimeout, h.getTimeout, h.getBootStatus⟩⟩

end Disarm

/-! ## Whole runs -/

section Runs

variable {device : Device} {appName : CString} {opts : List Opt}

/-- The options set the interval, or end the program before the device is opened. -/
theorem foldlM_parseOpt_cases (appName : CString) (opts : List Opt) (settings : Settings) :
    (∃ outcome, opts.foldlM (parseOpt appName) settings = .error outcome ∧
      outcome.state.events = []) ∨
    (∃ settings', opts.foldlM (parseOpt appName) settings = .ok settings' ∧
      settings'.interval = opts.foldl Opt.setsInterval settings.interval) := by
  induction opts generalizing settings with
  | nil => exact Or.inr ⟨settings, rfl, rfl⟩
  | cons o opts ih =>
    cases o with
    | help | invalid | other => exact Or.inl ⟨_, rfl, rfl⟩
    | dev text => exact ih { settings with dev := text }
    | interval text => exact ih { settings with interval := atoi text }

/-- **The program up to the command loop**: it ends before the device is opened, or the calls on the
device decide. -/
theorem start_cases (device : Device) (appName : CString) (opts : List Opt) :
    (∃ outcome, start device appName opts = .error outcome ∧ outcome.state.events = []) ∨
    Decides (Responds device (intervalOf opts)) (start device appName opts)
      (fun outcome => Quiet outcome.state) Quiet := by
  rcases foldlM_parseOpt_cases appName opts ⟨"/dev/watchdog".toList, 0⟩ with
    ⟨outcome, herror, hevents⟩ | ⟨settings, hok, hinterval⟩
  · exact Or.inl ⟨outcome, bind_of_error herror _, hevents⟩
  -- The options are accepted. The opening writes nothing, so the calls after it decide.
  rw [start, bind_of_ok hok, openDevice]
  split_ifs with hopens
  · have hquiet : Quiet ⟨[.opened settings.dev], []⟩ := by
      intro b hb
      cases List.mem_singleton.mp hb
    have hinterval' : intervalOf opts = settings.interval := hinterval.symm
    rw [hinterval', bind_of_ok rfl]
    exact Or.inr (prepare_decides device settings.interval hquiet)
  · exact Or.inl ⟨_, rfl, rfl⟩

/-- **When a run that ends leaves the watchdog disarmed**: when the calls before the command loop go
well. -/
theorem disarmed_iff {input : List (BitVec 8)} {fuel : ℕ} {outcome : Outcome}
    (hmain : main device appName opts input fuel = some outcome)
    (hopened : ∃ dev, .opened dev ∈ outcome.state.events) :
    Disarmed outcome.state.events ↔ Responds device (intervalOf opts) := by
  unfold main at hmain
  rcases start_cases device appName opts with
    ⟨outcome', hstart, hevents⟩ | ⟨hfails, outcome', hstart, hquiet⟩ | ⟨hresponds, s, hstart, -⟩
  · -- The program ended before it opened the device.
    rw [hstart] at hmain
    cases hmain
    obtain ⟨dev, hdev⟩ := hopened
    rw [hevents] at hdev
    exact absurd hdev List.not_mem_nil
  · rw [hstart] at hmain
    cases hmain
    exact iff_of_false hquiet.not_disarmed hfails
  · -- After the command loop the `V` is written, and only the close comes after it.
    rw [hstart] at hmain
    obtain ⟨s', -, rfl⟩ := Option.map_eq_some_iff.mp hmain
    refine iff_of_true ⟨s'.events, [.closed], List.append_assoc _ _ _, fun e he => ?_⟩ hresponds
    rw [List.mem_singleton.mp he]
    rfl

end Runs

/-- A watchdog that answers every call. -/
def goodDevice : Device := ⟨fun _ => true, fun _ => true, some 60, some 0, "Success".toList⟩

/-- A watchdog whose interval cannot be read. -/
def unreadableDevice : Device := { goodDevice with getTimeout := none }

theorem disarmed_good : ∃ outcome,
    main goodDevice "watchdog-test".toList [] [byte 'w', byte 'x'] 2 = some outcome ∧
      (∃ dev, .opened dev ∈ outcome.state.events) ∧ Disarmed outcome.state.events := by
  have hresponds : Responds goodDevice (intervalOf []) := ⟨fun _ => rfl, rfl, rfl⟩
  refine ⟨_, rfl, ⟨_, List.mem_cons_self⟩, ?_⟩
  exact (@disarmed_iff goodDevice "watchdog-test".toList [] [byte 'w', byte 'x'] 2 _ rfl
    ⟨_, List.mem_cons_self⟩).mpr hresponds

/-- An interval that cannot be read ends the program with the watchdog armed. -/
theorem not_disarmed_unreadable : ∃ outcome,
    main unreadableDevice "watchdog-test".toList [] [] 0 = some outcome ∧
      (∃ dev, .opened dev ∈ outcome.state.events) ∧ ¬ Disarmed outcome.state.events := by
  have hmain : main unreadableDevice "watchdog-test".toList [] [] 0 =
      some ⟨.exit 1, ⟨[.opened "/dev/watchdog".toList, .getTimeout],
        ["Error: Cannot read watchdog interval\n".toList]⟩⟩ := rfl
  refine ⟨_, hmain, ⟨_, List.mem_cons_self⟩, Quiet.not_disarmed fun b hb => ?_⟩
  rcases List.mem_pair.mp hb with h | h <;> cases h

end LinuxTest.Watchdog
