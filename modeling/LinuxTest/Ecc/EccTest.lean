import LinuxTest.Foundations.WordSearch
import LinuxTest.Libc

/-!
# The test of the error correction of memories

`ecc_test/ecc_test.sh`: for each peripheral with error correction the script writes to a trigger
file that injects errors, and compares the counters of errors before and after. Which directories
there are, and what the counter files hold at each second, are parameters; a counter that cannot be
read is `none`. Names are words without blanks or pattern characters, so that the shell expands them
to themselves, and the needle of `grep` is read as it stands.

Before a peripheral is tested its name is to be searched for in the lists of peripherals. But the
search is for the text `{ecc_name}`, without the dollar sign, and the branch that refuses the
peripheral is the one for a name that was found. The text is in no list of names, so nothing is ever
refused.

## Main definitions

* `containsElement`, `injectAndCheckErrors`: the functions of the script
* `Edac`, `State`: the files of the kernel, and the variables and effects of the script
* `Soc`, `getDevkitType`, `script`: the boards, and the whole script
* `ListedOnly`: only listed peripherals get errors injected

## Main results

* `containsElement_iff`, `containsElement_iff_mem`: what the search finds
* `goesOn_iff`: when a peripheral is tested
* `listedOnly_iff`: when the list decides about the injection
* `advances_testAll`: what the tests of a list of peripherals do
* `script_status_eq_zero_iff`: the status of the script
* `script_writes_listed`: the script as a whole injects into listed peripherals only
* `script_fails_of_stuck`, `script_passes_of_unreadable`: which counters are noticed
-/

namespace LinuxTest.Ecc

open Foundations

/-! ## Searching the lists -/

/-- A word constituent of `grep`. -/
def isWordChar (c : Char) : Bool := c.isAlphanum || c = '_'

/-- A word that `echo` takes for its options. -/
def isEchoOption : CString → Bool
  | '-' :: c :: flags => (c :: flags).all fun c => c = 'n' || c = 'e' || c = 'E'
  | _ => false

/-- What `echo` prints of a list of words. -/
def echoText (words : List CString) : CString := [' '].intercalate (words.dropWhile isEchoOption)

/-- `contains_element`: whether it returns 0. -/
def containsElement (needle : CString) (haystack : List CString) : Bool :=
  decide (0 < wordMatches isWordChar needle 0 true (echoText haystack))

/-! ## The files of the kernel -/

/-- The files of the error detection and correction. -/
structure Edac where
  /-- Whether a path is a directory. -/
  isDir : CString → Bool
  /-- What a counter file holds at a second. -/
  count : ℕ → CString → Option ℕ

/-- `ECC_STATUS_PATH_TOP`. -/
def eccStatusPathTop : CString := "/sys/devices/system/edac".toList

section Paths

variable (edac : Edac) (eccName : CString)

/-- The variable `ecc_dir`. The memory controller has a name of its own, which changed after 5.6. -/
def eccDir : CString :=
  if eccName = "ddr".toList then
    if edac.isDir (eccStatusPathTop ++ "/sdramedac".toList) then "sdramedac".toList
    else "mc".toList
  else eccName ++ "-ecc".toList

/-- The variable `err_status_path_root`. -/
def errStatusPathRoot : CString := eccStatusPathTop ++ "/".toList ++ eccDir edac eccName

/-- The variable `err_status_path`; the instance is 0 if there is none. -/
def errStatusPath (eccInstance : CString) : CString :=
  errStatusPathRoot edac eccName ++ "/".toList ++ eccDir edac eccName ++
    if eccInstance = [] then "0".toList else eccInstance

/-- The variable `err_inject_path`. -/
def errInjectPath : CString :=
  "/sys/kernel/debug/edac/".toList ++
    (if eccName = "ddr".toList ∧ eccDir edac eccName = "mc".toList then "mc0".toList
      else eccDir edac eccName) ++
    "/altr_trigger".toList

end Paths

/-- The counters of correctable and uncorrectable errors. -/
structure Counts where
  cerrs : Option ℕ
  uerrs : Option ℕ
deriving Repr, DecidableEq

/-- The counters in a directory at a second. -/
def Edac.counts (edac : Edac) (clock : ℕ) (path : CString) : Counts where
  cerrs := edac.count clock (path ++ "/ce_count".toList)
  uerrs := edac.count clock (path ++ "/ue_count".toList)

/-! ## The state of the script -/

/-- The values of `compare_result`. -/
inductive Result where
  | pass
  | fail
deriving Repr, DecidableEq

/-- Six entries of `ecc_err_accounting`. -/
structure Record where
  eccType : CString
  start : Counts
  finish : Counts
  compareResult : Result
deriving Repr, DecidableEq

/-- The variables of the script, what it has written to trigger files, the lines it has printed, and
the seconds it has slept. -/
structure State where
  statusFail : ℕ
  memoryEccPeripherals : List CString
  fifoEccPeripherals : List CString
  eccErrAccounting : List Record
  written : List (CString × CString)
  output : List CString
  clock : ℕ
deriving Repr, DecidableEq

namespace State

/-- The variables at the start, with the two lists. -/
def init (memory fifo : List CString) : State := ⟨0, memory, fifo, [], [], [], 0⟩

/-- Print a line. -/
def echo (s : State) (line : CString) : State := { s with output := s.output ++ [line] }

/-- Sleep for some seconds. -/
def sleep (s : State) (seconds : ℕ) : State := { s with clock := s.clock + seconds }

/-- Write a text to a trigger file. -/
def write (s : State) (path text : CString) : State :=
  { s with written := s.written ++ [(path, text)] }

/-- Account for a test, and remember its failure. -/
def account (s : State) (record : Record) : State :=
  { s with
    statusFail := if record.compareResult = .pass then s.statusFail else 1
    eccErrAccounting := s.eccErrAccounting ++ [record] }

end State

/-! ## One peripheral -/

/-- The test `[ start -ne end ]`. Without the two numbers what is left is a test of a text that is
not empty, and with only one of them it is an error. -/
def testNe : Option ℕ → Option ℕ → Bool
  | some a, some b => a != b
  | none, none => true
  | _, _ => false

/-- The variable `compare_result`. -/
def compareCounts (skipEcc : ℕ) (start finish : Counts) : Result :=
  if skipEcc = 0 then
    if testNe start.cerrs finish.cerrs && testNe start.uerrs finish.uerrs then .pass else .fail
  else
    if testNe start.cerrs finish.cerrs then .pass else .fail

/-- The name of the function, for its messages. -/
def funcname : CString := "ecc_test::inject_and_check_errors".toList

section Test

variable (edac : Edac) (eccName : CString) (skipEcc : ℕ) (eccInstance : CString)

/-- Inject a correctable error, and an uncorrectable one unless it is skipped. -/
def injectErrors (s : State) : State :=
  let s := s.write (errInjectPath edac eccName) "C".toList
  if skipEcc = 0 then s.write (errInjectPath edac eccName) "U".toList else s

/-- The part of the function after the check of the name. -/
def testPeripheral (s : State) : State :=
  if edac.isDir (errStatusPathRoot edac eccName) then
    let s := s.echo (funcname ++ " => ".toList ++ eccName ++ " enabled - testing.".toList)
    let start := edac.counts s.clock (errStatusPath edac eccName eccInstance)
    let s := (injectErrors edac eccName skipEcc (s.sleep 1)).sleep 1
    let finish := edac.counts s.clock (errStatusPath edac eccName eccInstance)
    let s := s.account ⟨eccName, start, finish, compareCounts skipEcc start finish⟩
    (s.echo []).sleep 1
  else
    (s.echo (funcname ++ " => ".toList ++ eccName ++
      " not found/enabled - skipping test.".toList)).sleep 1

/-- `ecc_test::inject_and_check_errors`. -/
def injectAndCheckErrors (s : State) : State :=
  -- The argument is this text, not the name.
  if containsElement "\x7becc_name\x7d".toList
      (s.memoryEccPeripherals ++ s.fifoEccPeripherals) then
    { s.echo ("ERROR: ".toList ++ funcname ++ " => invalid ECC ".toList ++ eccName) with
      statusFail := 1 }
  else
    testPeripheral edac eccName skipEcc eccInstance
      (s.echo ("ECC Peripheral is ".toList ++ eccName))

end Test

/-! ## The script -/

/-- The first `Altera ` of a text removed, as by `sed`. -/
def sedAltera : CString → CString
  | [] => []
  | c :: text =>
    if "Altera ".toList.isPrefixOf (c :: text) then (c :: text).drop "Altera ".toList.length
    else c :: sedAltera text

/-- The fields 2 and 3 of a line, as `cut` prints them. -/
def cutFields (text : CString) : CString :=
  let fields := text.splitOn ' '
  if fields.length = 1 then text else [' '].intercalate ((fields.drop 1).take 2)

/-- `get_devkit_type`, on the model of the board: its second and third word, put together. -/
def getDevkitType (model : CString) : CString := (cutFields (sedAltera model)).filter (· ≠ ' ')

example : getDevkitType "Altera SOCFPGA Cyclone V SoC Development Kit".toList = "CycloneV".toList :=
  by decide

/-- The values of `SOC` that the script knows. -/
inductive Soc where
  | arriaV
  | cycloneV
  | arria10
  | stratix10
  | agilex
deriving Repr, DecidableEq

namespace Soc

/-- The board of a text. -/
def ofText (text : CString) : Option Soc :=
  if text = "ArriaV".toList then some arriaV
  else if text = "CycloneV".toList then some cycloneV
  else if text = "Arria10".toList then some arria10
  else if text = "Stratix10".toList then some stratix10
  else if text = "Agilex".toList then some agilex
  else none

/-- The memories with error correction. -/
def memoryEccPeriphs : Soc → List CString
  | arriaV | cycloneV | arria10 => ["ddr".toList, "l2".toList, "ocram".toList]
  | stratix10 | agilex => ["ddr".toList, "ocram".toList]

/-- `A10_FIFO_ECC_PERIPHS`, which is also `S10_FIFO_ECC_PERIPHS`. -/
def fifoNames : List CString :=
  ["usb0".toList, "usb1".toList, "qspi".toList, "nand".toList, "dma".toList, "emac0-rx".toList,
    "emac0-tx".toList, "emac1-rx".toList, "emac1-tx".toList, "emac2-rx".toList, "emac2-tx".toList,
    "sdmmca".toList, "sdmmcb".toList]

/-- The buffers with error correction; the second `case` of the script does not know all boards that
the first one knows. -/
def fifoEccPeriphs : Soc → Option (List CString)
  | arriaV | cycloneV => some []
  | arria10 | stratix10 => some fifoNames
  | agilex => none

/-- The second argument for a test of a buffer; on the other boards there is no test. -/
def fifoSkipEcc : Soc → Option ℕ
  | arria10 => some 0
  | stratix10 => some 1
  | _ => none

end Soc

/-- A rule between the tests. -/
def rule : CString := List.replicate 57 '-'

/-- The body of the loops over peripherals; without a second argument nothing is tested. -/
def testOne (edac : Edac) (skipEcc : Option ℕ) (s : State) (eccArg : CString) : State :=
  match skipEcc with
  | some skipEcc => (injectAndCheckErrors edac eccArg skipEcc [] s).echo rule
  | none => s.echo rule

/-- The loop over a list of peripherals. -/
def testAll (edac : Edac) (skipEcc : Option ℕ) (names : List CString) (s : State) : State :=
  names.foldl (testOne edac skipEcc) s

/-- A count as it is printed. -/
def countText (count : Option ℕ) : CString := count.elim [] fun n => decimal n

/-- The lines of the summary for one test. -/
def Record.lines (r : Record) : List CString :=
  ["ECC Type: ".toList ++ r.eccType,
    "                start | end |".toList,
    "  Correctable:      ".toList ++ countText r.start.cerrs ++ " |   ".toList ++
      countText r.finish.cerrs ++ " |".toList,
    "  Uncorrectable:    ".toList ++ countText r.start.uerrs ++ " |   ".toList ++
      countText r.finish.uerrs ++ " |".toList,
    "  ECC Results  : ".toList ++
      (match r.compareResult with
        | .pass => "PASS".toList
        | .fail => "FAIL".toList),
    rule]

/-- The status of the script, and the state it leaves. -/
structure Outcome where
  status : ℕ
  state : State
deriving Repr, DecidableEq

/-- The end of the script for a board that it does not know. -/
def unsupported (soc : CString) (s : State) : Outcome :=
  ⟨1, s.echo ("Unsupported SoC (".toList ++ soc ++ ")".toList)⟩

/-- The summary and the end of the script. -/
def finish (self : CString) (s : State) : Outcome :=
  let s := ((s.echo []).sleep 2).echo ("ECC Test Summary (".toList ++ self ++ ")".toList)
  let s := (s.eccErrAccounting.flatMap Record.lines).foldl State.echo (s.echo rule)
  ⟨s.statusFail, (s.echo []).echo
    (if s.statusFail = 0 then "TEST PASSED".toList
      else "TEST FAILED due to failures already listed above".toList)⟩

/-- The first half of the script: the memories of a board. -/
def memoryTests (edac : Edac) (soc : Soc) (s : State) : State :=
  let s := testAll edac (some 1) soc.memoryEccPeriphs
    { s with memoryEccPeripherals := soc.memoryEccPeriphs }
  (s.echo []).echo "Running the Peripheral FIFO ECC Tests".toList

/-- The second half of the script: the buffers of a board. -/
def fifoTests (edac : Edac) (soc : Soc) (names : List CString) (s : State) : State :=
  testAll edac soc.fifoSkipEcc names { s with fifoEccPeripherals := names }

/-- The whole script, on the model of the board. -/
def script (edac : Edac) (self model : CString) : Outcome :=
  let s := (((State.init [] []).echo rule).echo ("   Running ".toList ++ self)).echo rule
  match Soc.ofText (getDevkitType model) with
  | none => unsupported (getDevkitType model) s
  | some soc =>
    match soc.fifoEccPeriphs with
    | none => unsupported (getDevkitType model) (memoryTests edac soc s)
    | some names => finish self (fifoTests edac soc names (memoryTests edac soc s))

/-! ## When the lists decide -/

/-- The characters of the name of a peripheral. -/
def isNameChar (c : Char) : Bool := c.isAlphanum || c = '-'

/-- The name of a peripheral: letters, digits and dashes. -/
def IsName (name : CString) : Prop := name ≠ [] ∧ name.all isNameChar = true

instance (name : CString) : Decidable (IsName name) :=
  inferInstanceAs (Decidable (name ≠ [] ∧ name.all isNameChar = true))

/-- The function gets past its check: it prints the name of the peripheral. -/
def GoesOn (edac : Edac) (eccName : CString) (skipEcc : ℕ) (eccInstance : CString) (s : State) :
    Prop :=
  s.output ++ ["ECC Peripheral is ".toList ++ eccName] <+:
    (injectAndCheckErrors edac eccName skipEcc eccInstance s).output

/-- The name is in one of the lists. -/
def Listed (s : State) (eccName : CString) : Prop :=
  eccName ∈ s.memoryEccPeripherals ∨ eccName ∈ s.fifoEccPeripherals

instance (s : State) (eccName : CString) : Decidable (Listed s eccName) :=
  inferInstanceAs
    (Decidable (eccName ∈ s.memoryEccPeripherals ∨ eccName ∈ s.fifoEccPeripherals))

/-- **Only listed peripherals get errors injected.** For other names there is an error, and nothing
is written to the trigger file. -/
def ListedOnly (edac : Edac) (eccName : CString) (skipEcc : ℕ) (eccInstance : CString) (s : State) :
    Prop :=
  (GoesOn edac eccName skipEcc eccInstance s ↔ Listed s eccName) ∧
    (¬ Listed s eccName →
      (injectAndCheckErrors edac eccName skipEcc eccInstance s).statusFail = 1 ∧
        (injectAndCheckErrors edac eccName skipEcc eccInstance s).written = s.written)

/-! ## What the search finds -/

/-- **What the search finds**: an element, among those that `echo` prints, that has the needle in it
as a whole word. -/
theorem containsElement_iff {needle : CString} (hne : needle ≠ []) (hspace : ' ' ∉ needle)
    (haystack : List CString) : containsElement needle haystack = true ↔
      ∃ element ∈ haystack.dropWhile isEchoOption,
        OccursAsWord isWordChar needle true element := by
  have hblank : isWordChar ' ' = false := by decide
  rw [containsElement, decide_eq_true_iff, wordMatches_pos_iff hne, echoText,
    occursAsWord_intercalate hblank hspace hne]

/-- A part of a name before a dash is found too. -/
example : containsElement "emac0".toList ["usb0".toList, "emac0-rx".toList] = true := by decide

theorem isEchoOption_of_all {name : CString} (h : ∀ c ∈ name, isWordChar c = true) :
    isEchoOption name = false := by
  unfold isEchoOption
  split
  · exact absurd (h '-' List.mem_cons_self) (by decide)
  · rfl

/-- **The search decides membership** in a list of names without dashes. -/
theorem containsElement_iff_mem {needle : CString} (hne : needle ≠ []) (hspace : ' ' ∉ needle)
    {haystack : List CString} (hall : ∀ name ∈ haystack, ∀ c ∈ name, isWordChar c = true) :
    containsElement needle haystack = true ↔ needle ∈ haystack := by
  have hecho : haystack.dropWhile isEchoOption = haystack := by
    cases haystack with
    | nil => rfl
    | cons name rest =>
      rw [List.dropWhile_cons, isEchoOption_of_all (hall name List.mem_cons_self),
        if_neg Bool.false_ne_true]
  rw [containsElement_iff hne hspace, hecho]
  constructor
  · rintro ⟨name, hname, hoccurs⟩
    rwa [← (occursAsWord_of_forall_isWord hne (hall name hname)).mp hoccurs]
  · intro hmem
    exact ⟨needle, hmem, (occursAsWord_of_forall_isWord hne (hall needle hmem)).mpr rfl⟩

/-- The text in the place of the name is in no list of names. -/
theorem containsElement_eccName {names : List CString} (h : ∀ name ∈ names, IsName name) :
    containsElement "\x7becc_name\x7d".toList names = false := by
  rw [← Bool.not_eq_true, containsElement_iff (by decide) (by decide)]
  rintro ⟨name, hname, hoccurs⟩
  have hmem := (List.dropWhile_sublist isEchoOption).subset hname
  have hbrace := mem_of_occursAsWord hoccurs (c := '\x7b') (by decide)
  exact absurd (List.all_eq_true.mp (h name hmem).2 _ hbrace) (by decide)

theorem isName_memoryEccPeriphs (soc : Soc) : ∀ name ∈ soc.memoryEccPeriphs, IsName name := by
  cases soc <;> exact List.forall_iff_forall_mem.mp (by decide)

theorem isName_fifoNames : ∀ name ∈ Soc.fifoNames, IsName name :=
  List.forall_iff_forall_mem.mp (by decide)

/-! ## What a test does -/

/-- The status so far is zero exactly if every test accounted for has passed. -/
def State.Sound (s : State) : Prop :=
  s.statusFail = 0 ↔ ∀ r ∈ s.eccErrAccounting, r.compareResult = .pass

/-- What a part of the script does between two states: texts are written to trigger files, tests are
accounted for, and seconds pass. The lists stay, lines are only added, and the status stays
sound. -/
structure Advances (writes : List (CString × CString)) (records : List Record) (seconds : ℕ)
    (s s' : State) : Prop where
  memory : s'.memoryEccPeripherals = s.memoryEccPeripherals
  fifo : s'.fifoEccPeripherals = s.fifoEccPeripherals
  written : s'.written = s.written ++ writes
  accounting : s'.eccErrAccounting = s.eccErrAccounting ++ records
  clock : s'.clock = s.clock + seconds
  output : s.output <+: s'.output
  sound : s.Sound → s'.Sound

namespace Advances

variable {s s' s'' : State} {writes writes' : List (CString × CString)}
  {records records' : List Record} {seconds seconds' : ℕ}

theorem refl (s : State) : Advances [] [] 0 s s where
  memory := rfl
  fifo := rfl
  written := (List.append_nil _).symm
  accounting := (List.append_nil _).symm
  clock := rfl
  output := List.prefix_rfl
  sound := id

theorem trans (h : Advances writes records seconds s s')
    (h' : Advances writes' records' seconds' s' s'') :
    Advances (writes ++ writes') (records ++ records') (seconds + seconds') s s'' where
  memory := h'.memory.trans h.memory
  fifo := h'.fifo.trans h.fifo
  written := by rw [h'.written, h.written, List.append_assoc]
  accounting := by rw [h'.accounting, h.accounting, List.append_assoc]
  clock := by rw [h'.clock, h.clock, Nat.add_assoc]
  output := h.output.trans h'.output
  sound := h'.sound ∘ h.sound

theorem echo (h : Advances writes records seconds s s') (line : CString) :
    Advances writes records seconds s (s'.echo line) :=
  { h with output := h.output.trans (List.prefix_append _ _) }

theorem sleep (h : Advances writes records seconds s s') (n : ℕ) :
    Advances writes records (seconds + n) s (s'.sleep n) :=
  { h with clock := (congrArg (· + n) h.clock).trans (Nat.add_assoc ..) }

theorem write (h : Advances writes records seconds s s') (path text : CString) :
    Advances (writes ++ [(path, text)]) records seconds s (s'.write path text) :=
  { h with written := (congrArg (· ++ _) h.written).trans (List.append_assoc ..) }

/-- A test is accounted for and its failure is remembered. -/
theorem account (h : Advances writes records seconds s s') (record : Record) :
    Advances writes (records ++ [record]) seconds s (s'.account record) := by
  refine { h with
    accounting := (congrArg (· ++ _) h.accounting).trans (List.append_assoc ..)
    sound := fun hs => ?_ }
  change (if record.compareResult = .pass then s'.statusFail else 1) = 0 ↔
    ∀ r ∈ s'.eccErrAccounting ++ [record], r.compareResult = .pass
  rw [List.forall_mem_append, List.forall_mem_singleton]
  by_cases hpass : record.compareResult = .pass
  · rw [if_pos hpass]
    exact (h.sound hs).trans (and_iff_left hpass).symm
  · rw [if_neg hpass]
    exact iff_of_false one_ne_zero fun hall => hpass hall.2

end Advances

section Test

variable (edac : Edac) (skipEcc : ℕ)

/-- There is error correction for a peripheral. -/
def Enabled (eccName : CString) : Prop := edac.isDir (errStatusPathRoot edac eccName) = true

instance (eccName : CString) : Decidable (Enabled edac eccName) :=
  inferInstanceAs (Decidable (edac.isDir (errStatusPathRoot edac eccName) = true))

/-- What a test writes to the trigger file. -/
def triggers (eccName : CString) : List (CString × CString) :=
  if Enabled edac eccName then
    (errInjectPath edac eccName, "C".toList) ::
      if skipEcc = 0 then [(errInjectPath edac eccName, "U".toList)] else []
  else []

/-- The record of a test that begins at a second: the counters then and two seconds later. -/
def recordAt (eccInstance : CString) (clock : ℕ) (eccName : CString) : Record :=
  let start := edac.counts clock (errStatusPath edac eccName eccInstance)
  let finish := edac.counts (clock + 2) (errStatusPath edac eccName eccInstance)
  ⟨eccName, start, finish, compareCounts skipEcc start finish⟩

/-- The seconds that a test takes. -/
def duration (eccName : CString) : ℕ := if Enabled edac eccName then 3 else 1

theorem advances_injectErrors (eccName : CString) (s : State) :
    Advances ((errInjectPath edac eccName, "C".toList) ::
      if skipEcc = 0 then [(errInjectPath edac eccName, "U".toList)] else []) [] 0 s
        (injectErrors edac eccName skipEcc s) := by
  unfold injectErrors
  have hcorrectable := (Advances.refl s).write (errInjectPath edac eccName) "C".toList
  by_cases hskip : skipEcc = 0
  · rw [if_pos hskip, if_pos hskip]
    exact hcorrectable.write _ _
  · rw [if_neg hskip, if_neg hskip]
    exact hcorrectable

/-- **What a test does**: a peripheral with error correction gets a record of its counters. -/
theorem advances_testPeripheral (eccName eccInstance : CString) (s : State) :
    Advances (triggers edac skipEcc eccName)
      (if Enabled edac eccName then [recordAt edac skipEcc eccInstance s.clock eccName] else [])
      (duration edac eccName) s (testPeripheral edac eccName skipEcc eccInstance s) := by
  unfold testPeripheral triggers duration
  by_cases hdir : edac.isDir (errStatusPathRoot edac eccName) = true
  · have henabled : Enabled edac eccName := hdir
    rw [if_pos henabled, if_pos henabled, if_pos henabled, if_pos hdir]
    have hsleep := ((Advances.refl s).echo
      (funcname ++ " => ".toList ++ eccName ++ " enabled - testing.".toList)).sleep 1
    have hinject := (hsleep.trans (advances_injectErrors edac skipEcc eccName _)).sleep 1
    have hrecord := hinject.account (recordAt edac skipEcc eccInstance s.clock eccName)
    -- The counters are read again after two seconds.
    dsimp only
    rw [hinject.clock]
    exact (hrecord.echo []).sleep 1
  · have henabled : ¬ Enabled edac eccName := hdir
    rw [if_neg henabled, if_neg henabled, if_neg henabled, if_neg hdir]
    exact ((Advances.refl s).echo _).sleep 1

end Test

/-- The names in the lists are names of peripherals. -/
def State.NamesOnly (s : State) : Prop :=
  ∀ name ∈ s.memoryEccPeripherals ++ s.fifoEccPeripherals, IsName name

/-- **Nothing is ever refused.** -/
theorem injectAndCheckErrors_eq (edac : Edac) (eccName : CString) (skipEcc : ℕ)
    (eccInstance : CString) {s : State} (h : s.NamesOnly) :
    injectAndCheckErrors edac eccName skipEcc eccInstance s =
      testPeripheral edac eccName skipEcc eccInstance
        (s.echo ("ECC Peripheral is ".toList ++ eccName)) := by
  rw [injectAndCheckErrors, containsElement_eccName h, if_neg Bool.false_ne_true]

/-- The function goes on exactly if the search for the text finds nothing, for all lists. -/
theorem goesOn_iff (edac : Edac) (eccName : CString) (skipEcc : ℕ) (eccInstance : CString)
    (s : State) : GoesOn edac eccName skipEcc eccInstance s ↔
      containsElement "\x7becc_name\x7d".toList
        (s.memoryEccPeripherals ++ s.fifoEccPeripherals) = false := by
  unfold GoesOn injectAndCheckErrors
  cases containsElement "\x7becc_name\x7d".toList
      (s.memoryEccPeripherals ++ s.fifoEccPeripherals) with
  | false =>
    have hadvances := advances_testPeripheral edac skipEcc eccName eccInstance
      (s.echo ("ECC Peripheral is ".toList ++ eccName))
    rw [if_neg Bool.false_ne_true]
    exact iff_of_true hadvances.output rfl
  | true =>
    rw [if_pos rfl]
    refine iff_of_false (fun hprefix => ?_) Bool.noConfusion
    -- The line that is printed instead begins in another way.
    have hlines := (List.cons_prefix_cons.mp ((List.prefix_append_right_inj s.output).mp hprefix)).1
    have hchars := congrArg (List.take 2) hlines
    exact absurd hchars (by simp)

/-- **The list decides about the injection** only for names that are in it: every other name goes on
as well. -/
theorem listedOnly_iff (edac : Edac) (eccName : CString) (skipEcc : ℕ) (eccInstance : CString)
    (s : State) (hmemory : ∀ name ∈ s.memoryEccPeripherals, IsName name)
    (hfifo : ∀ name ∈ s.fifoEccPeripherals, IsName name) :
    ListedOnly edac eccName skipEcc eccInstance s ↔
      eccName ∈ s.memoryEccPeripherals ∨ eccName ∈ s.fifoEccPeripherals := by
  have hgoes : GoesOn edac eccName skipEcc eccInstance s :=
    (goesOn_iff edac eccName skipEcc eccInstance s).mpr
      (containsElement_eccName (List.forall_mem_append.mpr ⟨hmemory, hfifo⟩))
  constructor
  · intro h
    exact h.1.mp hgoes
  · intro hlisted
    exact ⟨iff_of_true hgoes hlisted, fun hnot => absurd hlisted hnot⟩

/-- The memory controller of an Arria 10 is listed. -/
theorem listedOnly_ddr :
    ListedOnly ⟨fun _ => true, fun clock _ => some clock⟩ "ddr".toList 1 []
      (State.init Soc.arria10.memoryEccPeriphs Soc.fifoNames) :=
  (listedOnly_iff _ _ _ _ _ (isName_memoryEccPeriphs .arria10) isName_fifoNames).mpr
    (Or.inl List.mem_cons_self)

/-- A name that is in no list of an Arria 10 is not refused, and errors are injected. -/
theorem not_listedOnly_gpio :
    (injectAndCheckErrors ⟨fun _ => true, fun clock _ => some clock⟩ "gpio".toList 0 []
      (State.init Soc.arria10.memoryEccPeriphs Soc.fifoNames)).written =
        [("/sys/kernel/debug/edac/gpio-ecc/altr_trigger".toList, "C".toList),
          ("/sys/kernel/debug/edac/gpio-ecc/altr_trigger".toList, "U".toList)] ∧
      ¬ ListedOnly ⟨fun _ => true, fun clock _ => some clock⟩ "gpio".toList 0 []
        (State.init Soc.arria10.memoryEccPeriphs Soc.fifoNames) := by
  have hnames : (State.init Soc.arria10.memoryEccPeriphs Soc.fifoNames).NamesOnly :=
    List.forall_mem_append.mpr ⟨isName_memoryEccPeriphs .arria10, isName_fifoNames⟩
  constructor
  · rw [injectAndCheckErrors_eq _ _ _ _ hnames, (advances_testPeripheral _ _ _ _ _).written]
    decide
  · intro h
    have hlisted := h.1.mp ((goesOn_iff _ _ _ _ _).mpr (containsElement_eccName hnames))
    exact absurd hlisted (by decide)

/-! ## The loops -/

section Loops

variable (edac : Edac) (skipEcc : ℕ) {names : List CString}

/-- The records of the tests of a list of peripherals, the first of them at a second. -/
def recordsFrom (clock : ℕ) : List CString → List Record
  | [] => []
  | name :: names =>
    (if Enabled edac name then [recordAt edac skipEcc [] clock name] else []) ++
      recordsFrom (clock + duration edac name) names

theorem exists_of_mem_recordsFrom {clock : ℕ} {r : Record}
    (h : r ∈ recordsFrom edac skipEcc clock names) :
    ∃ name ∈ names, ∃ t, r = recordAt edac skipEcc [] t name := by
  induction names generalizing clock with
  | nil => exact absurd h List.not_mem_nil
  | cons name names ih =>
    rcases List.mem_append.mp h with hfirst | hrest
    · by_cases henabled : Enabled edac name
      · rw [if_pos henabled, List.mem_singleton] at hfirst
        exact ⟨name, List.mem_cons_self, clock, hfirst⟩
      · rw [if_neg henabled] at hfirst
        exact absurd hfirst List.not_mem_nil
    · obtain ⟨name', hname', t, ht⟩ := ih hrest
      exact ⟨name', List.mem_cons_of_mem name hname', t, ht⟩

/-- Every peripheral with error correction has a record. -/
theorem exists_mem_recordsFrom {clock : ℕ} {name : CString} (hmem : name ∈ names)
    (henabled : Enabled edac name) :
    ∃ t, recordAt edac skipEcc [] t name ∈ recordsFrom edac skipEcc clock names := by
  induction names generalizing clock with
  | nil => exact absurd hmem List.not_mem_nil
  | cons first names ih =>
    rcases List.mem_cons.mp hmem with rfl | hrest
    · refine ⟨clock, List.mem_append_left _ ?_⟩
      rw [if_pos henabled]
      exact List.mem_singleton_self _
    · obtain ⟨t, ht⟩ := ih hrest
      exact ⟨t, List.mem_append_right _ ht⟩

theorem Advances.namesOnly {s s' : State} {writes : List (CString × CString)}
    {records : List Record} {seconds : ℕ} (h : Advances writes records seconds s s')
    (hs : s.NamesOnly) : s'.NamesOnly := by
  rwa [State.NamesOnly, h.memory, h.fifo]

theorem advances_testOne (eccArg : CString) {s : State} (h : s.NamesOnly) :
    Advances (triggers edac skipEcc eccArg)
      (if Enabled edac eccArg then [recordAt edac skipEcc [] s.clock eccArg] else [])
      (duration edac eccArg) s (testOne edac (some skipEcc) s eccArg) := by
  have hfirst := (Advances.refl s).echo ("ECC Peripheral is ".toList ++ eccArg)
  have htest := (hfirst.trans (advances_testPeripheral edac skipEcc eccArg [] _)).echo rule
  rw [List.nil_append, List.nil_append, Nat.zero_add] at htest
  rw [testOne, injectAndCheckErrors_eq edac eccArg skipEcc [] h]
  exact htest

/-- **What the tests of a list of peripherals do**: each writes to the trigger file of its
peripheral and is accounted for, one after another. -/
theorem advances_testAll (names : List CString) {s : State} (h : s.NamesOnly) :
    Advances (names.flatMap (triggers edac skipEcc)) (recordsFrom edac skipEcc s.clock names)
      (names.map (duration edac)).sum s (testAll edac (some skipEcc) names s) := by
  induction names generalizing s with
  | nil => exact Advances.refl s
  | cons name names ih =>
    have hone := advances_testOne edac skipEcc name h
    have hrest := ih (hone.namesOnly h)
    rw [hone.clock] at hrest
    exact hone.trans hrest

theorem advances_foldl_echo (lines : List CString) (s : State) :
    Advances [] [] 0 s (lines.foldl State.echo s) := by
  induction lines generalizing s with
  | nil => exact Advances.refl s
  | cons line lines ih => exact ((Advances.refl s).echo line).trans (ih (s.echo line))

end Loops

/-! ## The script -/

section Script

variable (edac : Edac) (self : CString) {model : CString} {soc : Soc} {names : List CString}

theorem advances_memoryTests (soc : Soc) {s : State} (hfifo : s.fifoEccPeripherals = []) :
    Advances (soc.memoryEccPeriphs.flatMap (triggers edac 1))
      (recordsFrom edac 1 s.clock soc.memoryEccPeriphs)
      (soc.memoryEccPeriphs.map (duration edac)).sum
      { s with memoryEccPeripherals := soc.memoryEccPeriphs } (memoryTests edac soc s) := by
  have hnames : State.NamesOnly { s with memoryEccPeripherals := soc.memoryEccPeriphs } := by
    rw [State.NamesOnly, hfifo, List.append_nil]
    exact isName_memoryEccPeriphs soc
  exact ((advances_testAll edac 1 soc.memoryEccPeriphs hnames).echo []).echo _

theorem namesOnly_fifoNames {s : State} (hmemory : s.memoryEccPeripherals = soc.memoryEccPeriphs) :
    State.NamesOnly { s with fifoEccPeripherals := Soc.fifoNames } := by
  rw [State.NamesOnly, hmemory]
  exact List.forall_mem_append.mpr ⟨isName_memoryEccPeriphs soc, isName_fifoNames⟩

theorem advances_fifoTests (hnames : soc.fifoEccPeriphs = some names) {s : State}
    (hmemory : s.memoryEccPeripherals = soc.memoryEccPeriphs) :
    Advances (names.flatMap (triggers edac (soc.fifoSkipEcc.getD 0)))
      (recordsFrom edac (soc.fifoSkipEcc.getD 0) s.clock names)
      (names.map (duration edac)).sum
      { s with fifoEccPeripherals := names } (fifoTests edac soc names s) := by
  -- A board without a second argument has no buffers to test.
  cases soc with
  | arriaV =>
    cases hnames
    exact Advances.refl _
  | cycloneV =>
    cases hnames
    exact Advances.refl _
  | agilex => cases hnames
  | arria10 =>
    cases hnames
    exact advances_testAll edac 0 Soc.fifoNames (namesOnly_fifoNames hmemory)
  | stratix10 =>
    cases hnames
    exact advances_testAll edac 1 Soc.fifoNames (namesOnly_fifoNames hmemory)

/-- The end of the script prints the summary. -/
theorem advances_finish (s : State) : Advances [] [] 2 s (finish self s).state := by
  have hhead := (((Advances.refl s).echo []).sleep 2).echo
    ("ECC Test Summary (".toList ++ self ++ ")".toList)
  exact (((hhead.echo rule).trans (advances_foldl_echo _ _)).echo []).echo _

/-- The state at the first `case` of the script. -/
def started : State :=
  (((State.init [] []).echo rule).echo ("   Running ".toList ++ self)).echo rule

/-- The memories are tested from the first second on. -/
theorem advances_memoryTests_started (soc : Soc) :
    Advances (soc.memoryEccPeriphs.flatMap (triggers edac 1))
      (recordsFrom edac 1 0 soc.memoryEccPeriphs) (soc.memoryEccPeriphs.map (duration edac)).sum
      { started self with memoryEccPeripherals := soc.memoryEccPeriphs }
      (memoryTests edac soc (started self)) :=
  advances_memoryTests edac soc (s := started self) rfl

theorem written_memoryTests_started (soc : Soc) : (memoryTests edac soc (started self)).written =
    soc.memoryEccPeriphs.flatMap (triggers edac 1) :=
  (advances_memoryTests_started edac self soc).written

theorem sound_started : (started self).Sound :=
  iff_of_true rfl fun _ hr => absurd hr List.not_mem_nil

/-- A board that the first `case` does not know: nothing is tested. -/
theorem script_unknown (hsoc : Soc.ofText (getDevkitType model) = none) :
    script edac self model = unsupported (getDevkitType model) (started self) := by
  rw [script, hsoc]
  rfl

/-- A board that only the first `case` knows: the memories are tested, and the status is 1 whatever
comes out. -/
theorem script_halfKnown (hsoc : Soc.ofText (getDevkitType model) = some soc)
    (hnames : soc.fifoEccPeriphs = none) :
    script edac self model =
      unsupported (getDevkitType model) (memoryTests edac soc (started self)) := by
  rw [script, hsoc]
  dsimp only
  rw [hnames]
  rfl

/-- **A board that the script knows**: its memories and then its buffers are tested and accounted
for, and the status tells whether all passed. -/
theorem script_known (hsoc : Soc.ofText (getDevkitType model) = some soc)
    (hnames : soc.fifoEccPeriphs = some names) :
    (script edac self model).status = (script edac self model).state.statusFail ∧
      (script edac self model).state.Sound ∧
      (script edac self model).state.written =
        soc.memoryEccPeriphs.flatMap (triggers edac 1) ++
          names.flatMap (triggers edac (soc.fifoSkipEcc.getD 0)) ∧
      (script edac self model).state.eccErrAccounting =
        recordsFrom edac 1 0 soc.memoryEccPeriphs ++
          recordsFrom edac (soc.fifoSkipEcc.getD 0)
            (soc.memoryEccPeriphs.map (duration edac)).sum names := by
  have hscript : script edac self model =
      finish self (fifoTests edac soc names (memoryTests edac soc (started self))) := by
    rw [script, hsoc]
    dsimp only
    rw [hnames]
    rfl
  have hmemory := advances_memoryTests_started edac self soc
  have hfifo := advances_fifoTests edac hnames hmemory.memory
  have hfinish := advances_finish self
    (fifoTests edac soc names (memoryTests edac soc (started self)))
  have hclock : (memoryTests edac soc (started self)).clock =
      (soc.memoryEccPeriphs.map (duration edac)).sum := hmemory.clock.trans (Nat.zero_add _)
  have haccounting : (memoryTests edac soc (started self)).eccErrAccounting =
      recordsFrom edac 1 0 soc.memoryEccPeriphs := hmemory.accounting
  rw [hscript]
  refine ⟨rfl, hfinish.sound (hfifo.sound (hmemory.sound (sound_started self))), ?_, ?_⟩
  · rw [hfinish.written, hfifo.written, List.append_nil,
      written_memoryTests_started]
  · rw [hfinish.accounting, hfifo.accounting, List.append_nil, haccounting, hclock]

theorem compareCounts_eq_fail (skipEcc : ℕ) {start finish : Counts}
    (h : testNe start.cerrs finish.cerrs = false) :
    compareCounts skipEcc start finish = .fail := by
  rw [compareCounts, h, Bool.false_and, if_neg Bool.false_ne_true, ite_self]

/-- **The status of the script** is zero exactly if it knows the board and every test accounted for
has passed. -/
theorem script_status_eq_zero_iff : (script edac self model).status = 0 ↔
    (∃ soc, Soc.ofText (getDevkitType model) = some soc ∧ soc.fifoEccPeriphs ≠ none) ∧
      ∀ r ∈ (script edac self model).state.eccErrAccounting, r.compareResult = .pass := by
  cases hsoc : Soc.ofText (getDevkitType model) with
  | none =>
    rw [script_unknown edac self hsoc]
    exact iff_of_false one_ne_zero fun h => by simp at h
  | some soc =>
    cases hnames : soc.fifoEccPeriphs with
    | none =>
      rw [script_halfKnown edac self hsoc hnames]
      refine iff_of_false one_ne_zero ?_
      rintro ⟨⟨soc', hsoc', hne⟩, -⟩
      cases hsoc'
      exact hne hnames
    | some names =>
      obtain ⟨hstatus, hsound, -, -⟩ := script_known edac self hsoc hnames
      rw [hstatus]
      refine hsound.trans (and_iff_right ⟨soc, rfl, ?_⟩).symm
      rw [hnames]
      exact Option.some_ne_none names

theorem exists_of_mem_triggers {skipEcc : ℕ} {write : CString × CString}
    (h : write ∈ names.flatMap (triggers edac skipEcc)) :
    ∃ name ∈ names, write.1 = errInjectPath edac name ∧
      (write.2 = "C".toList ∨ write.2 = "U".toList ∧ skipEcc = 0) := by
  obtain ⟨name, hname, hwrite⟩ := List.mem_flatMap.mp h
  refine ⟨name, hname, ?_⟩
  unfold triggers at hwrite
  split_ifs at hwrite with henabled hskip
  · rcases List.mem_pair.mp hwrite with rfl | rfl
    · exact ⟨rfl, Or.inl rfl⟩
    · exact ⟨rfl, Or.inr ⟨rfl, hskip⟩⟩
  · obtain rfl := List.mem_singleton.mp hwrite
    exact ⟨rfl, Or.inl rfl⟩
  · exact absurd hwrite List.not_mem_nil

/-- **The script as a whole injects into listed peripherals only**, although the function does not
check: uncorrectable errors only into buffers, correctable ones also into memories. -/
theorem script_writes_listed (hsoc : Soc.ofText (getDevkitType model) = some soc)
    {write : CString × CString} (hwrite : write ∈ (script edac self model).state.written) :
    (∃ name ∈ soc.memoryEccPeriphs, write = (errInjectPath edac name, "C".toList)) ∨
      ∃ name ∈ soc.fifoEccPeriphs.getD [], write.1 = errInjectPath edac name ∧
        (write.2 = "C".toList ∨ write.2 = "U".toList ∧ soc.fifoSkipEcc.getD 0 = 0) := by
  have hmemory : ∀ w ∈ soc.memoryEccPeriphs.flatMap (triggers edac 1),
      ∃ name ∈ soc.memoryEccPeriphs, w = (errInjectPath edac name, "C".toList) := by
    intro w hw
    obtain ⟨name, hname, hpath, hcorrectable | ⟨-, hone⟩⟩ := exists_of_mem_triggers edac hw
    · exact ⟨name, hname, Prod.ext hpath hcorrectable⟩
    · exact absurd hone one_ne_zero
  cases hnames : soc.fifoEccPeriphs with
  | none =>
    rw [script_halfKnown edac self hsoc hnames] at hwrite
    exact Or.inl (hmemory write (written_memoryTests_started edac self soc ▸ hwrite))
  | some names =>
    rw [(script_known edac self hsoc hnames).2.2.1] at hwrite
    rcases List.mem_append.mp hwrite with hfirst | hsecond
    · exact Or.inl (hmemory write hfirst)
    · exact Or.inr (exists_of_mem_triggers edac hsecond)

/-- An uncorrectable error on an Arria 10 goes into a buffer. -/
theorem script_writes_listed_usb0 :
    ∃ name ∈ Soc.arria10.fifoEccPeriphs.getD [],
      "/sys/kernel/debug/edac/usb0-ecc/altr_trigger".toList =
        errInjectPath ⟨fun _ => true, fun clock _ => some clock⟩ name := by
  have hsoc : Soc.ofText (getDevkitType "Altera SOCFPGA Arria 10".toList) = some .arria10 := by
    decide
  have hwrite : ("/sys/kernel/debug/edac/usb0-ecc/altr_trigger".toList, "U".toList) ∈
      (script ⟨fun _ => true, fun clock _ => some clock⟩ "ecc_test.sh".toList
        "Altera SOCFPGA Arria 10".toList).state.written := by
    rw [(script_known _ _ hsoc rfl).2.2.1]
    decide
  rcases script_writes_listed _ _ hsoc hwrite with ⟨name, -, hmemory⟩ | ⟨name, hname, hpath, -⟩
  · exact absurd (congrArg Prod.snd hmemory) (show "U".toList ≠ "C".toList by decide)
  · exact ⟨name, hname, hpath⟩

/-- **A counter that does not count is noticed**: the script fails if the correctable errors of an
enabled peripheral stay at one number. -/
theorem script_fails_of_stuck (hsoc : Soc.ofText (getDevkitType model) = some soc)
    {name : CString} {n : ℕ} (hlisted : name ∈ soc.memoryEccPeriphs ∨
      name ∈ soc.fifoEccPeriphs.getD []) (henabled : Enabled edac name)
    (hstuck : ∀ t, edac.count t (errStatusPath edac name [] ++ "/ce_count".toList) = some n) :
    (script edac self model).status ≠ 0 := by
  have hfail : ∀ skipEcc t, (recordAt edac skipEcc [] t name).compareResult = .fail := by
    intro skipEcc t
    refine compareCounts_eq_fail skipEcc ?_
    change testNe (edac.count t (errStatusPath edac name [] ++ _))
      (edac.count (t + 2) (errStatusPath edac name [] ++ _)) = false
    rw [hstuck, hstuck, testNe, bne_self_eq_false]
  intro hzero
  obtain ⟨⟨soc', hsoc', hne⟩, hpass⟩ := (script_status_eq_zero_iff edac self).mp hzero
  rw [hsoc] at hsoc'
  cases hsoc'
  obtain ⟨names, hnames⟩ := Option.ne_none_iff_exists'.mp hne
  rw [(script_known edac self hsoc hnames).2.2.2] at hpass
  rw [hnames, Option.getD_some] at hlisted
  obtain ⟨skipEcc, t, hmem⟩ : ∃ skipEcc t, recordAt edac skipEcc [] t name ∈
      recordsFrom edac 1 0 soc.memoryEccPeriphs ++
        recordsFrom edac (soc.fifoSkipEcc.getD 0)
          (soc.memoryEccPeriphs.map (duration edac)).sum names := by
    rcases hlisted with hmemory | hfifo
    · obtain ⟨t, ht⟩ := exists_mem_recordsFrom edac 1 hmemory henabled
      exact ⟨1, t, List.mem_append_left _ ht⟩
    · obtain ⟨t, ht⟩ := exists_mem_recordsFrom edac (soc.fifoSkipEcc.getD 0) hfifo henabled
      exact ⟨_, t, List.mem_append_right _ ht⟩
  have hcontra := (hfail skipEcc t).symm.trans (hpass _ hmem)
  cases hcontra

/-- On an Arria 10 the counters stay at zero. -/
theorem script_fails_of_stuck_zero :
    (script ⟨fun _ => true, fun _ _ => some 0⟩ "ecc_test.sh".toList
      "Altera SOCFPGA Arria 10".toList).status ≠ 0 :=
  script_fails_of_stuck _ _ (show _ = some Soc.arria10 by decide)
    (Or.inl (show "ddr".toList ∈ Soc.arria10.memoryEccPeriphs from List.mem_cons_self)) rfl
    fun _ => rfl

/-- **Counters that cannot be read are not noticed**: the script passes on every board it knows. -/
theorem script_passes_of_unreadable (hsoc : Soc.ofText (getDevkitType model) = some soc)
    (hknown : soc.fifoEccPeriphs ≠ none) (hnone : ∀ t path, edac.count t path = none) :
    (script edac self model).status = 0 := by
  have hpass : ∀ skipEcc t name, (recordAt edac skipEcc [] t name).compareResult = .pass := by
    intro skipEcc t name
    simp [recordAt, compareCounts, Edac.counts, hnone, testNe]
  refine (script_status_eq_zero_iff edac self).mpr ⟨⟨soc, hsoc, hknown⟩, ?_⟩
  obtain ⟨names, hnames⟩ := Option.ne_none_iff_exists'.mp hknown
  rw [(script_known edac self hsoc hnames).2.2.2]
  intro r hr
  rcases List.mem_append.mp hr with hmemory | hfifo
  · obtain ⟨name, -, t, rfl⟩ := exists_of_mem_recordsFrom edac 1 hmemory
    exact hpass 1 t name
  · obtain ⟨name, -, t, rfl⟩ := exists_of_mem_recordsFrom edac _ hfifo
    exact hpass _ t name

/-- On an Arria 10 the files of the counters are missing. -/
theorem script_passes_of_unreadable_missing :
    (script ⟨fun _ => true, fun _ _ => none⟩ "ecc_test.sh".toList
      "Altera SOCFPGA Arria 10".toList).status = 0 :=
  script_passes_of_unreadable _ _ (show _ = some Soc.arria10 by decide)
    (Option.some_ne_none _) fun _ _ => rfl

end Script

end LinuxTest.Ecc
