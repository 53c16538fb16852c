import LinuxTest.Foundations.EarlyExit
import LinuxTest.MemoryTest.Allocation
import LinuxTest.Strtoul

/-!
# The memory tester and its script

The rest of `main` in `memory_test/memtester/memtester.c`, and the script
`memory_test/memory-test.sh` that runs it. The arguments are a size, with a letter for its unit, and
a number of passes. The size is shifted in a word of 32 bits: what does not fit is lost, and the
check against the memory that can be addressed comes after that.

The options `-p` and `-d`, with which a part of the physical memory is tested, are left out.

## Main definitions

* `parseArguments`: the environment and the arguments
* `main`: the program, with bounds on the iterations of its two loops
* `memoryTest`: the script

## Main results

* `wantbytesOf_decimal`: how much memory is tested for a size that is asked for
* `memoryTest_eq_zero_iff`: the exit status of the script
-/

namespace LinuxTest.MemoryTest

open Foundations

/-! ## The arguments -/

section Arguments

variable (me : CString)

/-- The text of `usage`. -/
def usageText : CString :=
  "\nUsage: ".toList ++ me ++ " [-p physaddrbase [-d device]] <mem>[B|K|M|G] [loops]\n".toList

/-- A message, and the text of `usage`, which ends the program. -/
def usage (message : CString) : Exit := ⟨1, message ++ usageText me⟩

/-- The mask of the tests, from the variable `MEMTESTER_TEST_MASK` of the environment. -/
def testmaskOf : Option CString → Except Exit Ul
  | none => .ok 0
  | some env =>
    if (strtoul env).erange then
      .error (usage me ("error parsing MEMTESTER_TEST_MASK ".toList ++ env ++
        ": Numerical result out of range\n".toList))
    else .ok (enableRandomValue (strtoul env).value)

/-- The number of bits for a unit: the first character after the number. -/
def memshift : CString → Option ℕ
  | [] => some 20
  | c :: _ =>
    if c = 'G' ∨ c = 'g' then some 30
    else if c = 'M' ∨ c = 'm' then some 20
    else if c = 'K' ∨ c = 'k' then some 10
    else if c = 'B' ∨ c = 'b' then some 0
    else none

/-- The variable `maxmb`. -/
def maxmb : Ul := ((-1 : Ul) >>> 20) + 1

/-- The variable `wantbytes`, from the first argument. -/
def wantbytesOf (pagesize : Ul) (mem : CString) : Except Exit Ul :=
  if (strtoul mem).erange then .error (usage me "failed to parse memory argument".toList)
  else
    match memshift (strtoul mem).rest with
    | none => .error (usage me [])
    | some shift =>
      let wantbytes := (strtoul mem).value <<< shift
      if maxmb < wantbytes >>> 20 then
        .error ⟨1, "This system can only address ".toList ++ decimal maxmb.toNat ++ " MB.\n".toList⟩
      else if wantbytes < pagesize then
        .error ⟨1, "bytes ".toList ++ decimal wantbytes.toInt ++ " < pagesize ".toList ++
          decimal pagesize.toInt ++ " -- memory argument too large?\n".toList⟩
      else .ok wantbytes

/-- The variable `loops`, from the second argument. -/
def loopsOf : Option CString → Except Exit Ul
  | none => .ok 0
  | some arg =>
    if (strtoul arg).erange then .error (usage me "failed to parse number of loops".toList)
    else
      match (strtoul arg).rest with
      | [] => .ok (strtoul arg).value
      | c :: _ => .error (usage me ("loop suffix ".toList ++ [c] ++ "\n".toList))

/-- What the environment and the arguments ask for. -/
structure Settings where
  testmask : Ul
  wantbytes : Ul
  loops : Ul
deriving Repr, DecidableEq

/-- The arguments after the options. -/
def parseArguments (pagesize : Ul) (env : Option CString) (args : List CString) :
    Except Exit Settings := do
  let testmask ← testmaskOf me env
  match args with
  | [] => .error (usage me "need memory argument, in MB\n".toList)
  | mem :: rest =>
    let wantbytes ← wantbytesOf me pagesize mem
    let loops ← loopsOf me rest.head?
    return ⟨testmask, wantbytes, loops⟩

end Arguments

/-! ## The program and the script -/

/-- Where the program runs: the machine with its memory, and the system. -/
structure Host (C : Type) where
  machine : Machine C
  system : System
  /-- What the memory holds before. -/
  mem : C → Ul
  /-- The value of `aligned` before it is set. -/
  garbage : Ul

/-- The end of the program: its status, and what is on `stderr`. -/
structure Outcome where
  status : ℕ
  stderr : List CString
deriving Repr, DecidableEq

/-- The line for memory that is not locked. -/
def unlockedText : CString :=
  "Continuing with unlocked memory; testing will be slower and less reliable.\n".toList

section Program

variable {C : Type} [DecidableEq C]

/-- The function `main`, with bounds on the iterations of the two loops. -/
def main (host : Host C) (me : CString) (env : Option CString) (args : List CString)
    (searches passes : ℕ) : Option Outcome :=
  match parseArguments me host.system.pagesize env args with
  | .error e => some ⟨e.status.toNat, [e.message]⟩
  | .ok settings => do
    let s ← host.system.getBuffer settings.wantbytes host.garbage searches
    let r ← testLoop host.machine s.buffer settings.testmask settings.loops passes
      ⟨0, ⟨host.mem, 0, if s.doMlock then [] else [unlockedText]⟩, []⟩
    return ⟨r.exitCode.toNat, r.world.stderr⟩

/-- The loop over the arguments of the script: whether there was `--fast`, or the exit status. -/
def scriptArguments (fast : Bool) : List CString → Except ℕ Bool
  | [] => .ok fast
  | arg :: args =>
    if arg = [] then .ok fast
    else if arg = "--fast".toList then scriptArguments true args
    else .error 1

/-- The size for the tester. -/
def memsize (fast : Bool) : CString := if fast then "64K".toList else "550M".toList

/-- The script `memory-test.sh`: its exit status. The variable `FAST` may be in the environment. -/
def memoryTest (host : Host C) (env : Option CString) (found fast : Bool) (args : List CString)
    (searches passes : ℕ) : Option ℕ :=
  if found then
    match scriptArguments fast args with
    | .error status => some status
    | .ok fast =>
      (main host "./memtester".toList env [memsize fast, "1".toList] searches passes).map (·.status)
  else some 1

end Program

/-! ## How much memory is tested -/

section Sizes

variable {n shift : ℕ} {unit : CString}

theorem stopsAt_of_memshift (h : memshift unit = some shift) : StopsAt Char.isDigit unit := by
  cases unit with
  | nil => exact stopsAt_nil _
  | cons c unit =>
    refine stopsAt_cons ?_ unit
    by_contra hdigit
    have hd : 48 ≤ c.toNat ∧ c.toNat ≤ 57 := (isDigit_iff c).mp (by simpa using hdigit)
    -- A unit is a letter.
    have hne : ∀ d : Char, 57 < d.toNat → c ≠ d := by
      rintro d hd' rfl
      omega
    simp [memshift, hne] at h

/-- The sizes that can be addressed are those that fit a word, so none is too large. -/
theorem not_maxmb_lt (wantbytes : Ul) : ¬ maxmb < wantbytes >>> 20 := by
  have hlt := wantbytes.isLt
  have hmax : maxmb.toNat = 4096 := by decide
  rw [BitVec.lt_def, hmax, BitVec.toNat_ushiftRight, Nat.shiftRight_eq_div_pow]
  omega

theorem wantbytesOf_decimal_append (me : CString) (pagesize : Ul) (hn : 0 < n) (hlt : n < 2 ^ 32)
    (hunit : memshift unit = some shift) :
    wantbytesOf me pagesize (decimal n ++ unit) =
      if BitVec.ofNat 32 (n * 2 ^ shift) < pagesize then
        .error ⟨1, "bytes ".toList ++ decimal (BitVec.ofNat 32 (n * 2 ^ shift)).toInt ++
          " < pagesize ".toList ++ decimal pagesize.toInt ++
          " -- memory argument too large?\n".toList⟩
      else .ok (BitVec.ofNat 32 (n * 2 ^ shift)) := by
  have hshift : BitVec.ofNat 32 n <<< shift = BitVec.ofNat 32 (n * 2 ^ shift) := by
    apply BitVec.eq_of_toNat_eq
    rw [BitVec.toNat_shiftLeft, BitVec.toNat_ofNat, BitVec.toNat_ofNat, Nat.mod_eq_of_lt hlt,
      Nat.shiftLeft_eq]
  rw [wantbytesOf, strtoul_decimal_append hn hlt (stopsAt_of_memshift hunit)]
  simp only [hunit, hshift, not_maxmb_lt, if_false, Bool.false_eq_true]

/-- **How much memory is tested**: a size is accepted if what is left of it in a word is a page at
least, and that is what is tested. -/
theorem wantbytesOf_decimal (me : CString) (pagesize : Ul) (hn : 0 < n) (hlt : n < 2 ^ 32)
    (hunit : memshift unit = some shift) (wantbytes : Ul) :
    wantbytesOf me pagesize (decimal n ++ unit) = .ok wantbytes ↔
      wantbytes.toNat = n * 2 ^ shift % 2 ^ 32 ∧ pagesize.toNat ≤ n * 2 ^ shift % 2 ^ 32 := by
  rw [wantbytesOf_decimal_append me pagesize hn hlt hunit]
  have hnat : (BitVec.ofNat 32 (n * 2 ^ shift)).toNat = n * 2 ^ shift % 2 ^ 32 :=
    BitVec.toNat_ofNat _ _
  rw [← hnat]
  split_ifs with hsmall
  · rw [BitVec.lt_def] at hsmall
    exact iff_of_false nofun fun h => by omega
  · rw [BitVec.lt_def, Nat.not_lt] at hsmall
    constructor
    · intro h
      cases h
      exact ⟨rfl, hsmall⟩
    · rintro ⟨h, -⟩
      rw [BitVec.eq_of_toNat_eq h]

/-- Of 4097 megabytes one is tested. -/
theorem wantbytesOf_4097M :
    wantbytesOf "memtester".toList 4096 (decimal 4097 ++ "M".toList) = .ok 1048576 :=
  (wantbytesOf_decimal "memtester".toList 4096 (n := 4097) (by decide) (by decide)
    (show memshift "M".toList = some 20 from rfl) 1048576).mpr (by decide)

end Sizes

/-! ## The exit status of the script -/

section Script

variable {C : Type} [DecidableEq C]

/-- The sizes of the script. -/
def memsizeBytes (fast : Bool) : Ul := if fast then 65536 else 576716800

/-- Both sizes are accepted if a page has 64 kilobytes at most. -/
theorem wantbytesOf_memsize (me : CString) {pagesize : Ul} (hpage : pagesize.toNat ≤ 65536)
    (fast : Bool) : wantbytesOf me pagesize (memsize fast) = .ok (memsizeBytes fast) := by
  have hsmall : ¬ memsizeBytes fast < pagesize := by
    have hle : 65536 ≤ (memsizeBytes fast).toNat := by cases fast <;> decide
    rw [BitVec.lt_def]
    omega
  cases fast
  · have hsize : memsize false = decimal (550 : ℕ) ++ "M".toList := by decide
    rw [hsize, wantbytesOf_decimal_append me pagesize (n := 550) (by decide) (by decide)
      (show memshift "M".toList = some 20 from rfl)]
    exact if_neg hsmall
  · have hsize : memsize true = decimal (64 : ℕ) ++ "K".toList := by decide
    rw [hsize, wantbytesOf_decimal_append me pagesize (n := 64) (by decide) (by decide)
      (show memshift "K".toList = some 10 from rfl)]
    exact if_neg hsmall

theorem parseArguments_memsize (me : CString) {pagesize : Ul} (hpage : pagesize.toNat ≤ 65536)
    {env : Option CString} {testmask : Ul} (henv : testmaskOf me env = .ok testmask)
    (fast : Bool) :
    parseArguments me pagesize env [memsize fast, "1".toList] =
      .ok ⟨testmask, memsizeBytes fast, 1⟩ := by
  unfold parseArguments
  rw [bind_of_ok henv]
  dsimp only
  rw [bind_of_ok (wantbytesOf_memsize me hpage fast)]
  rfl

theorem enabled_of_testmaskOf {me : CString} {env : Option CString} {testmask : Ul}
    (henv : testmaskOf me env = .ok testmask) : Enabled testmask := by
  cases env with
  | none =>
    cases henv
    exact Or.inl rfl
  | some env =>
    rw [testmaskOf] at henv
    split_ifs at henv
    cases henv
    exact enabled_enableRandomValue _

theorem main_of_ok {host : Host C} {me : CString} {env : Option CString} {args : List CString}
    {settings : Settings}
    (hparse : parseArguments me host.system.pagesize env args = .ok settings) {searches : ℕ}
    {s : Search}
    (hs : host.system.getBuffer settings.wantbytes host.garbage searches = some s) {passes : ℕ}
    {r : Run C}
    (hr : testLoop host.machine s.buffer settings.testmask settings.loops passes
      ⟨0, ⟨host.mem, 0, if s.doMlock then [] else [unlockedText]⟩, []⟩ = some r) :
    main host me env args searches passes = some ⟨r.exitCode.toNat, r.world.stderr⟩ := by
  unfold main
  rw [hparse]
  simp only [hs, hr, Option.bind_eq_bind, Option.bind_some]
  rfl

theorem memoryTest_of_main {host : Host C} {env : Option CString} {fast fast' : Bool}
    {args : List CString} (hargs : scriptArguments fast args = .ok fast') {searches passes : ℕ}
    {o : Outcome} (hmain : main host "./memtester".toList env [memsize fast', "1".toList]
      searches passes = some o) :
    memoryTest host env true fast args searches passes = some o.status := by
  unfold memoryTest
  rw [if_pos rfl, hargs]
  exact congrArg (Option.map Outcome.status) hmain

/-- **The exit status of the script**, if no lock is denied the permission: the program comes to an
end, and the status is zero exactly if the part of the block that is tested has no faults. -/
theorem memoryTest_eq_zero_iff (host : Host C) (hsane : host.system.Sane)
    (hpage : host.system.pageShift ≤ 16)
    (hgranted : ∀ k a n, host.system.mlock k a n ≠ some .eperm) (env : Option CString)
    {testmask : Ul} (henv : testmaskOf "./memtester".toList env = .ok testmask) (fast : Bool)
    {fast' : Bool} (args : List CString) (hargs : scriptArguments fast args = .ok fast') :
    ∃ searches passes status s,
      host.system.getBuffer (memsizeBytes fast') host.garbage searches = some s ∧
      memoryTest host env true fast args searches passes = some status ∧
      (status = 0 ↔ Faultless host.machine.ram s.aligned.toNat (s.bufsize.toNat / 4)) ∧
      (s.buf ≠ 0 → s.Inside) := by
  have hwant : 2 ^ host.system.pageShift ∣ (memsizeBytes fast').toNat := by
    refine (Nat.pow_dvd_pow 2 hpage).trans ?_
    cases fast' <;> decide
  have hpagesize : host.system.pagesize.toNat ≤ 65536 := by
    rw [toNat_pagesize hsane.page.2]
    exact Nat.pow_le_pow_right (by decide) hpage
  have hparse := parseArguments_memsize "./memtester".toList hpagesize henv fast'
  obtain ⟨searches, s, hs⟩ := exists_getBuffer hsane hwant host.garbage
  obtain ⟨hvalid, hdone⟩ := valid_of_getBuffer hsane hwant hs
  have hd : ¬ s.Denied := hvalid.not_denied hgranted
  obtain ⟨g, hg⟩ := exists_region_of_not_denied hsane hwant hs hd
  obtain ⟨n, hloop⟩ := testLoop_eq_some host.machine s.buffer testmask
    (show (1 : Ul) ≠ 0 by decide) (by decide)
    ⟨0, ⟨host.mem, 0, if s.doMlock then [] else [unlockedText]⟩, []⟩
  refine ⟨searches, _, _, s, hs, memoryTest_of_main hargs (main_of_ok hparse hs hloop), ?_,
    hvalid.inside hdone hd⟩
  have hiff := exitCode_iterate_eq_zero_iff (t := host.machine) (g := g)
    (enabled_of_testmaskOf henv) n ⟨host.mem, 0, if s.doMlock then [] else [unlockedText]⟩
  rw [hg] at hiff
  exact (BitVec.toNat_inj (y := 0)).trans hiff

/-- The quick test of a memory without faults. -/
theorem memoryTest_fast_eq_zero :
    ∃ searches passes status, memoryTest ⟨dataLines 0, plainSystem none, fun _ => 0, 0⟩ none true
      false ["--fast".toList] searches passes = some status ∧ status = 0 := by
  obtain ⟨searches, passes, status, s, -, hstatus, hiff, -⟩ := memoryTest_eq_zero_iff
    ⟨dataLines 0, plainSystem none, fun _ => 0, 0⟩ (sane_plainSystem none) (by decide)
    (fun _ _ n => by simp [plainSystem]) none rfl false ["--fast".toList] rfl
  exact ⟨searches, passes, status, hstatus, hiff.mpr (faultless_dataLines _ _)⟩

end Script

end LinuxTest.MemoryTest
