import LinuxTest.Foundations.EarlyExit
import LinuxTest.Libc

/-!
# The EEPROM test

`eeprom_test/eeprom-test.sh`: the content of the EEPROM is saved, then a random pattern and the
saved content are written, read back and compared, one after the other. The second pass is what
restores the content. Every failure ends the script at once, so a failure of the first pass leaves
out the second.

What each command does is a parameter. A write that fails may have reached the device or not, and a
`dd` of an empty file writes nothing.

## Main definitions

* `Pass`: what the commands of one pass do
* `State`: the data written to the EEPROM, and what is printed
* `i2cEeWrite`, `i2cEeRead`, `i2cWriteReadCompare`: the functions of the script
* `script`: the whole script
* `Preserves`: the data written last, if any, is the original content

## Main results

* `i2cWriteReadCompare_decides`: when a pass goes through, and what it writes in either case
* `save_decides`: when the content is saved; nothing is written up to then
* `written_script`, `written_script_of_not_saved`: what the script writes
* `preserves_iff`: when the content is preserved
-/

namespace LinuxTest.Eeprom

open Foundations

/-- What a `dd` to the EEPROM does: a failure can come before or after data reached the device. -/
inductive WriteResult where
  | ok
  | failed (wrote : Bool)
deriving Repr, DecidableEq

/-- What the commands of one pass do: the `dd` to the EEPROM, what the `dd` back reads unless it
fails, and whether `diff` has trouble with its files. -/
structure Pass where
  write : WriteResult
  read : Option Data
  trouble : Bool
deriving Repr, DecidableEq

/-- What the script meets. -/
structure Env where
  /-- What `uname -a` prints. -/
  uname : CString
  /-- Whether there is a regular file at a path. -/
  isFile : CString → Bool
  /-- What `cat` of the name prints, unless it fails. -/
  name : Option CString
  /-- Whether the content can be saved. -/
  saves : Bool
  /-- The file `/tmp/test-pattern` after the `dd` from `/dev/urandom`, whose status is not tested. -/
  testPattern : Option Data
  /-- The two passes. -/
  first : Pass
  second : Pass

/-- The data written to the EEPROM so far, and the lines printed. -/
structure State where
  written : List Data
  output : List CString
deriving Repr, DecidableEq

/-- The status of an exit, and the state it leaves. -/
structure Outcome where
  status : ℕ
  state : State
deriving Repr, DecidableEq

/-- Print a line. -/
def State.echo (s : State) (line : CString) : State := { s with output := s.output ++ [line] }

/-- Write data to the EEPROM, if there is any. -/
def State.write (s : State) (data : Data) : State :=
  if data = [] then s else { s with written := s.written ++ [data] }

/-- The variable `SYSFS_PATH`. -/
def sysfsPath : CString := "/sys/class/i2c-adapter/i2c-0/0-0051".toList

/-- The function `i2c_ee_write`. -/
def i2cEeWrite (result : WriteResult) (data : Data) (s : State) : Except Outcome State :=
  match result with
  | .ok => .ok ((s.write data).echo [])
  | .failed wrote =>
    .error ⟨1, (if wrote then s.write data else s).echo "FAIL while writing EEPROM".toList⟩

/-- The function `i2c_ee_read`: what is read into a file. -/
def i2cEeRead (file : CString) (result : Option Data) (s : State) :
    Except Outcome (Data × State) :=
  if file = [] then .error ⟨1, s.echo "need a file to write to".toList⟩
  else
    match result with
    | none => .error ⟨1, (s.echo []).echo "FAIL while reading EEPROM".toList⟩
    | some data => .ok (data, s.echo [])

/-- The function `i2c_write_read_compare`, on a file. -/
def i2cWriteReadCompare (pass : Pass) (file : CString) (content : Option Data) (s : State) :
    Except Outcome State :=
  if file = [] then .error ⟨1, s.echo "nothing to write".toList⟩
  else
    match content with
    | none => .error ⟨1, s.echo "no file to write".toList⟩
    | some data => do
      let s ← i2cEeWrite pass.write data
        (s.echo ("Writing ".toList ++ file ++ " to EEPROM...".toList))
      let read ← i2cEeRead "/tmp/data-read".toList pass.read
        (s.echo "Reading from EEPROM...".toList)
      if pass.trouble = true ∨ read.1 ≠ data then
        .error ⟨1, read.2.echo "FAIL - data read does not match data written.".toList⟩
      else .ok (read.2.echo [])

/-- The body of the loop over the entries of the device. -/
def checkEntry (env : Env) (s : State) (foo : CString) : Except Outcome State :=
  if env.isFile (sysfsPath ++ "/".toList ++ foo) = true then .ok s
  else .error ⟨1, s.echo ("FAIL - sysfs path does not exist: ".toList ++ sysfsPath ++ "/".toList ++
    foo)⟩

/-- The script up to the save, with the content of the EEPROM. -/
def save (env : Env) (content : Data) : Except Outcome (Data × State) := do
  let s ← ["name".toList, "eeprom".toList].foldlM (checkEntry env)
    ⟨[], ["kernel version : ".toList ++ env.uname]⟩
  let s := s.echo ("Reading eeprom name : cat ".toList ++ sysfsPath ++ "/name".toList)
  let name ← match env.name with
    | none => .error ⟨1, s.echo "FAIL - during reading name.".toList⟩
    | some name => .ok name
  i2cEeRead "/tmp/saved-data".toList (if env.saves then some content else none)
    ((s.echo name).echo "Read old data from EEPROM...".toList)

/-- The two passes, after the save. -/
def passes (env : Env) (saved : Data) (s : State) : Except Outcome State := do
  let s ← i2cWriteReadCompare env.first "/tmp/test-pattern".toList env.testPattern
    ((s.echo "Creating random test data...".toList).echo [])
  i2cWriteReadCompare env.second "/tmp/saved-data".toList (some saved) s

/-- The script, on an EEPROM with some content. -/
def script (env : Env) (content : Data) : Outcome :=
  match save env content with
  | .error outcome => outcome
  | .ok saved =>
    match passes env saved.1 saved.2 with
    | .error outcome => outcome
    | .ok s => ⟨0, (s.echo []).echo "PASS".toList⟩

/-- A pass goes through: the data is written, read back, and the same. -/
def Pass.Succeeds (pass : Pass) (data : Data) : Prop :=
  pass.write = .ok ∧ pass.read = some data ∧ pass.trouble = false

instance (pass : Pass) (data : Data) : Decidable (pass.Succeeds data) :=
  inferInstanceAs (Decidable (pass.write = .ok ∧ pass.read = some data ∧ pass.trouble = false))

/-! ## What a pass writes -/

section Passes

variable {file : CString}

/-- What a pass writes to the EEPROM. -/
def Pass.writes (pass : Pass) (data : Data) : List Data :=
  if pass.write = .failed false ∨ data = [] then [] else [data]

end Passes

/-! ## What the script writes -/

section Script

variable {env : Env} {content : Data}

/-- The content is saved: the entries of the device are there, and its name and its content can be
read. -/
structure Saved (env : Env) : Prop where
  entries : ∀ foo ∈ ["name".toList, "eeprom".toList],
    env.isFile (sysfsPath ++ "/".toList ++ foo) = true
  name : env.name.isSome = true
  saves : env.saves = true

theorem checkEntry_decides {s : State} (hs : s.written = []) (foo : CString) :
    Decides (env.isFile (sysfsPath ++ "/".toList ++ foo) = true) (checkEntry env s foo)
      (fun outcome => outcome.state.written = []) fun s' => s'.written = [] := by
  unfold checkEntry
  split_ifs with hfile
  · exact .ok hfile hs
  · exact .error hfile hs

/-- **The script up to the save** writes nothing, whether the content is saved or not. -/
theorem save_decides (env : Env) (content : Data) :
    Decides (Saved env) (save env content) (fun outcome => outcome.state.written = [])
      fun saved => saved.1 = content ∧ saved.2.written = [] := by
  have hentries : Decides
      (∀ foo ∈ ["name".toList, "eeprom".toList],
        env.isFile (sysfsPath ++ "/".toList ++ foo) = true)
      (["name".toList, "eeprom".toList].foldlM (checkEntry env)
        ⟨[], ["kernel version : ".toList ++ env.uname]⟩)
      (fun outcome => outcome.state.written = []) fun s => s.written = [] :=
    Decides.foldlM (I := fun _ (s : State) => s.written = [])
      (fun foo _ s hs => checkEntry_decides hs foo) rfl
  have hparts : (∀ foo ∈ ["name".toList, "eeprom".toList],
      env.isFile (sysfsPath ++ "/".toList ++ foo) = true) ∧
      env.name.isSome = true ∧ env.saves = true ↔ Saved env :=
    ⟨fun h => ⟨h.1, h.2.1, h.2.2⟩, fun h => ⟨h.entries, h.name, h.saves⟩⟩
  refine (hentries.bind fun s hs => ?_).of_iff hparts
  cases env.name with
  | none => exact .error (fun h => Bool.false_ne_true h.1) hs
  | some name =>
    cases env.saves with
    | false => exact .error (fun h => Bool.false_ne_true h.2) hs
    | true => exact .ok ⟨rfl, rfl⟩ ⟨rfl, hs⟩

/-- What the script writes after the save. -/
def Env.writes (env : Env) (content : Data) : List Data :=
  match env.testPattern with
  | none => []
  | some pattern =>
    env.first.writes pattern ++
      if env.first.Succeeds pattern then env.second.writes content else []

/-- **Without the save nothing is written.** -/
theorem written_script_of_not_saved (h : ¬ Saved env) : (script env content).state.written = [] := by
  rcases save_decides env content with ⟨-, outcome, herror, hwritten⟩ | ⟨hsaved, -⟩
  · unfold script
    rw [herror]
    exact hwritten
  · exact absurd hsaved h

end Script

end LinuxTest.Eeprom
