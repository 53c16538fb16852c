import LinuxTest.Foundations.Cleanup
import LinuxTest.Foundations.EarlyExit
import LinuxTest.Libc

/-!
# The tests of the flash driver

`qspi_test/qspi-mtd-tests.sh`: the driver of the flash is loaded, then three test modules one after
another, and at every exit the modules on a record are removed. The modules in the kernel are a set
of names. Which files are there, and which of them the kernel accepts, are parameters; a module that
is loaded already is never accepted again.

A module of the driver is recorded whether the script loaded it or found it loaded. It is found by a
search in the output of `lsmod`, so a longer name is taken for it as well.

## Main definitions

* `Kernel`: the files of the modules, and which of them are accepted
* `State`: the loaded modules, the record, and what is printed
* `cleanupModules`, `installModule`, `runTest`: the function and the bodies of the two loops
* `script`: the whole script

## Main results

* `installModule_cases`, `runTest_cases`: what a step loads is on the record
* `loaded_runTests`: the tests leave what the clean-up before them would leave
* `loaded_script_cases`: what the script leaves of the modules that were loaded before
* `restores_iff`: when the script leaves the modules as they were
-/

namespace LinuxTest.Qspi

open Foundations

/-- The expansion of a name with its first dash replaced. -/
def replaceDash : CString → CString
  | [] => []
  | c :: name => if c = '-' then '_' :: name else c :: replaceDash name

/-- The expansion of a name with every dash replaced. -/
def replaceDashes (name : CString) : CString := name.map fun c => if c = '-' then '_' else c

/-- The files of the modules. -/
structure Kernel where
  /-- What `uname -r` prints. -/
  release : CString
  /-- Whether a file exists. -/
  fileExists : CString → Bool
  /-- Whether `insmod` succeeds for a file with arguments, if its module is not loaded. -/
  accepts : CString → List CString → Bool

/-- The variable `MODULE_DIR`. -/
def Kernel.moduleDir (kernel : Kernel) : CString :=
  "/lib/modules/".toList ++ kernel.release ++ "/kernel/drivers/mtd".toList

/-- The variable `CHECK_PATH`. -/
def Kernel.checkPath (kernel : Kernel) : CString := kernel.moduleDir ++ "/spi-nor/".toList

/-- The modules in the kernel, the variable `LOADED_MODULES`, and the lines printed. -/
structure State where
  loaded : Finset CString
  loadedModules : List CString
  output : List CString
deriving DecidableEq

/-- The status of an exit, and the state it leaves. -/
structure Outcome where
  status : ℕ
  state : State
deriving DecidableEq

namespace State

/-- Print a line. -/
def echo (s : State) (line : CString) : State := { s with output := s.output ++ [line] }

/-- Put a name in front of `LOADED_MODULES`. -/
def record (s : State) (name : CString) : State :=
  { s with loadedModules := name :: s.loadedModules }

/-- The test `lsmod | grep -q name`. The lines have names of loaded modules, and numbers. -/
def grep (s : State) (name : CString) : Bool := decide (∃ m ∈ s.loaded, name <:+: m)

/-- Load a module from its file: `none` if it is loaded already, or not accepted. -/
def insmod (kernel : Kernel) (s : State) (dir name : CString) (args : List CString) :
    Option State :=
  if replaceDashes name ∉ s.loaded ∧
      kernel.accepts (kernel.moduleDir ++ dir ++ name ++ ".ko".toList) args = true then
    some { s with loaded := insert (replaceDashes name) s.loaded }
  else none

/-- The body of the loop of `cleanup_modules`: a module that is not loaded cannot be removed. -/
def remove (s : State) (name : CString) : State :=
  let s := s.echo ("Removing ".toList ++ replaceDashes name)
  if replaceDashes name ∈ s.loaded then
    { s with loaded := s.loaded.erase (replaceDashes name) }
  else s.echo ("!! Unable to remove module[".toList ++ replaceDashes name ++ "].".toList)

end State

/-- The function `cleanup_modules`, on `LOADED_MODULES`. -/
def cleanupModules (s : State) : State :=
  s.loadedModules.foldl State.remove (s.echo "Unravel the installed modules.".toList)

/-- The body of the loop that loads the driver. -/
def installModule (kernel : Kernel) (s : State) (name : CString) : Except Outcome State :=
  let installed := s.grep (replaceDash name)
  let s := s.echo ("Retcode is ".toList ++ if installed then "0".toList else "1".toList)
  if installed = false ∧
      kernel.fileExists (kernel.checkPath ++ "/".toList ++ name ++ ".ko".toList) = true then
    let s := s.echo ("install ".toList ++ name ++ " module".toList)
    match s.insmod kernel "/spi-nor/".toList name [] with
    | none =>
      .error ⟨255, cleanupModules
        (s.echo ("Problem installing ".toList ++ name ++ ". Exiting...".toList))⟩
    | some s => .ok (s.record name)
  else
    -- Also without a file. The name is recorded all the same.
    .ok ((s.echo ("The ".toList ++ name ++ " module is already installed.".toList)).record name)

/-- The body of the loop over the tests. -/
def runTest (kernel : Kernel) (partition : ℕ) (s : State) (name : CString) :
    Except Outcome State :=
  let s := s.echo ("Run Test: ".toList ++ name)
  match s.insmod kernel "/tests/".toList name ["dev=".toList ++ decimal partition] with
  | none =>
    .error ⟨255, cleanupModules
      (s.echo ("Problem running ".toList ++ name ++ ". Exiting...".toList))⟩
  | some s => .ok (s.record name)

/-- The partition to test, by the name of the SoC. -/
def devPartition (soc : CString) : Option ℕ :=
  if soc = "ArriaV".toList ∨ soc = "CycloneV".toList then some 0
  -- The first partition has the boot code.
  else if soc = "Arria10".toList then some 1
  else if soc = "Stratix10".toList then some 1
  else none

/-- The modules of the driver. -/
def driverModules : List CString := ["spi-nor".toList, "cadence-quadspi".toList]

/-- The test modules. -/
def testModules : List CString :=
  ["mtd_speedtest".toList, "mtd_readtest".toList, "mtd_stresstest".toList]

/-- The loop over the tests, and the end of the script. -/
def runTests (kernel : Kernel) (partition : ℕ) (tests : List CString) (s : State) : Outcome :=
  match tests.foldlM (runTest kernel partition) s with
  | .error outcome => outcome
  | .ok s => ⟨0, (cleanupModules (s.echo "Test Results".toList)).echo "MTD Tests complete".toList⟩

/-- The script after the driver is loaded. -/
def beginTests (kernel : Kernel) (soc : CString) (partition : ℕ) (s : State) : Outcome :=
  let s := s.echo ("Using parition ".toList ++ decimal partition ++ " for ".toList ++ soc)
  runTests kernel partition testModules (((s.echo []).echo "Beginning Tests...".toList).echo [])

/-- The script, on a SoC and with modules that are loaded already. -/
def script (kernel : Kernel) (soc : CString) (loaded : Finset CString) : Outcome :=
  match devPartition soc with
  | none => ⟨1, ⟨loaded, [], ["Unsupported SoC (".toList ++ soc ++ ")".toList]⟩⟩
  | some partition =>
    match driverModules.foldlM (installModule kernel)
        ⟨loaded, [], ["Check for installed modules".toList]⟩ with
    | .error outcome => outcome
    | .ok s => beginTests kernel soc partition s

/-- The attempt to load a module of the driver fails: no loaded module has its name in its own, its
file exists, and it is not accepted. -/
def InstallFails (kernel : Kernel) (loaded : Finset CString) (name : CString) : Prop :=
  (∀ m ∈ loaded, ¬ replaceDash name <:+: m) ∧
    kernel.fileExists (kernel.checkPath ++ "/".toList ++ name ++ ".ko".toList) = true ∧
    kernel.accepts (kernel.moduleDir ++ "/spi-nor/".toList ++ name ++ ".ko".toList) [] = false

/-! ## The clean-up -/

section Cleanup

variable {initial : Finset CString} {s : State} {name : CString}

/-- The names on the record, as `modprobe` gets them. -/
def State.names (s : State) : List CString := s.loadedModules.map replaceDashes

/-- Whatever is loaded beyond the initial modules is on the record. -/
def Tracked (initial : Finset CString) (s : State) : Prop := Tracks initial s.loaded s.names

theorem remove_loaded : (s.remove name).loaded = s.loaded.erase (replaceDashes name) := by
  unfold State.remove
  dsimp only
  split_ifs with h
  · rfl
  · exact (Finset.erase_eq_of_notMem h).symm

theorem foldl_remove_loaded (names : List CString) :
    (names.foldl State.remove s).loaded = releaseAll s.loaded (names.map replaceDashes) := by
  induction names generalizing s with
  | nil => rfl
  | cons name names ih =>
    rw [List.foldl_cons, ih, remove_loaded]
    rfl

theorem cleanupModules_loaded : (cleanupModules s).loaded = releaseAll s.loaded s.names :=
  foldl_remove_loaded s.loadedModules

theorem Tracked.echo (h : Tracked initial s) (line : CString) : Tracked initial (s.echo line) := h

/-- **What the clean-up leaves** of the initial modules. -/
theorem Tracked.cleanupModules (h : Tracked initial s) :
    (cleanupModules s).loaded = initial \ s.names.toFinset := by
  rw [cleanupModules_loaded, h.releaseAll_eq]

end Cleanup

/-! ## The two loops -/

section Loops

variable {kernel : Kernel} {initial : Finset CString} {partition : ℕ} {s s' : State}
  {name dir : CString} {args : List CString}

theorem insmod_eq_some (h : s.insmod kernel dir name args = some s') :
    replaceDashes name ∉ s.loaded ∧
      kernel.accepts (kernel.moduleDir ++ dir ++ name ++ ".ko".toList) args = true ∧
      s' = { s with loaded := insert (replaceDashes name) s.loaded } := by
  unfold State.insmod at h
  split_ifs at h with hcond
  exact ⟨hcond.1, hcond.2, (Option.some.inj h).symm⟩

theorem refused_of_insmod (h : s.insmod kernel dir name args = none)
    (hnot : replaceDashes name ∉ s.loaded) :
    kernel.accepts (kernel.moduleDir ++ dir ++ name ++ ".ko".toList) args = false := by
  unfold State.insmod at h
  split_ifs at h with hcond
  exact Bool.eq_false_iff.mpr fun haccepts => hcond ⟨hnot, haccepts⟩

theorem Tracked.insmod (h : Tracked initial s) (hs : s.insmod kernel dir name args = some s') :
    Tracked initial (s'.record name) := by
  obtain ⟨-, -, rfl⟩ := insmod_eq_some hs
  exact h.acquire (replaceDashes name)

theorem grep_eq_false_iff : s.grep name = false ↔ ∀ m ∈ s.loaded, ¬ name <:+: m := by
  simp [State.grep]

/-- **One module of the driver.** Either its loading fails, and the script ends with the clean-up, or
it is recorded, loaded or not. -/
theorem installModule_cases (kernel : Kernel) (s : State) (name : CString)
    (hdash : replaceDashes name = replaceDash name) :
    (InstallFails kernel s.loaded name ∧ ∃ outcome, installModule kernel s name = .error outcome ∧
      outcome.state.loaded = (cleanupModules s).loaded) ∨
    (¬ InstallFails kernel s.loaded name ∧ ∃ s', installModule kernel s name = .ok s' ∧
      s'.names = replaceDashes name :: s.names ∧
      ∀ initial, Tracked initial s → Tracked initial s') := by
  unfold installModule InstallFails
  rw [← grep_eq_false_iff]
  dsimp only
  by_cases hcond : s.grep (replaceDash name) = false ∧
      kernel.fileExists (kernel.checkPath ++ "/".toList ++ name ++ ".ko".toList) = true
  · rw [if_pos hcond]
    -- The module is not loaded, so whether it is loaded now depends on its file.
    have hnot : replaceDashes name ∉ s.loaded := by
      intro hmem
      rw [hdash] at hmem
      exact grep_eq_false_iff.mp hcond.1 _ hmem (List.infix_refl _)
    generalize hins : State.insmod kernel _ _ name [] = result
    cases result with
    | none =>
      refine Or.inl ⟨⟨hcond.1, hcond.2, refused_of_insmod hins hnot⟩, _, rfl, ?_⟩
      rw [cleanupModules_loaded, cleanupModules_loaded]
      rfl
    | some s' =>
      have htracked' : ∀ initial, Tracked initial s → Tracked initial (s'.record name) :=
        fun initial htracked => ((htracked.echo _).echo _).insmod hins
      obtain ⟨-, haccepts, rfl⟩ := insmod_eq_some hins
      refine Or.inr ⟨?_, _, rfl, rfl, htracked'⟩
      rintro ⟨-, -, hrefused⟩
      exact absurd (haccepts.symm.trans hrefused) (by decide)
  · rw [if_neg hcond]
    refine Or.inr ⟨fun h => hcond ⟨h.1, h.2.1⟩, _, rfl, rfl, fun initial htracked => ?_⟩
    exact htracked.note (replaceDashes name)

/-- **One test.** Either it fails, and the script ends with the clean-up, or it was not loaded before
and is recorded. -/
theorem runTest_cases (htracked : Tracked initial s) :
    (∃ outcome, runTest kernel partition s name = .error outcome ∧
      outcome.state.loaded = (cleanupModules s).loaded) ∨
    (∃ s', runTest kernel partition s name = .ok s' ∧ Tracked initial s' ∧
      s'.names = replaceDashes name :: s.names ∧ replaceDashes name ∉ initial) := by
  unfold runTest
  dsimp only
  generalize hins : State.insmod kernel _ _ name _ = result
  cases result with
  | none =>
    refine Or.inl ⟨_, rfl, ?_⟩
    rw [cleanupModules_loaded, cleanupModules_loaded]
    rfl
  | some s' =>
    have htracked' : Tracked initial (s'.record name) := (htracked.echo _).insmod hins
    obtain ⟨hnot, -, rfl⟩ := insmod_eq_some hins
    exact Or.inr ⟨_, rfl, htracked', rfl, fun hmem => hnot (htracked.kept hmem)⟩

/-- **The tests leave what the clean-up before them would leave**: none of their modules was loaded
initially. -/
theorem loaded_runTests (tests : List CString) (htracked : Tracked initial s) :
    (runTests kernel partition tests s).state.loaded = initial \ s.names.toFinset := by
  induction tests generalizing s with
  | nil => exact (htracked.echo _).cleanupModules
  | cons name tests ih =>
    rcases runTest_cases htracked with ⟨outcome, herror, hloaded⟩ | ⟨s', hok, htracked', hnames, hnot⟩
    · have hrun : runTests kernel partition (name :: tests) s = outcome := by
        rw [runTests, foldlM_cons_of_error herror]
      rw [hrun, hloaded, htracked.cleanupModules]
    · have hrun : runTests kernel partition (name :: tests) s =
          runTests kernel partition tests s' := by
        rw [runTests, runTests, foldlM_cons_of_ok hok]
      rw [hrun, ih htracked', hnames, List.toFinset_cons, Finset.sdiff_insert_of_notMem hnot]

end Loops

/-! ## The whole script -/

section Script

variable {kernel : Kernel} {soc : CString} {partition : ℕ} {initial : Finset CString}

/-- The state before the driver is loaded. -/
def State.start (initial : Finset CString) : State :=
  ⟨initial, [], ["Check for installed modules".toList]⟩

theorem script_of_error {outcome : Outcome} (hsoc : devPartition soc = some partition)
    (h : driverModules.foldlM (installModule kernel) (.start initial) = .error outcome) :
    script kernel soc initial = outcome := by
  unfold script
  rw [hsoc]
  dsimp only
  rw [← State.start, h]

theorem script_of_ok {s : State} (hsoc : devPartition soc = some partition)
    (h : driverModules.foldlM (installModule kernel) (.start initial) = .ok s) :
    script kernel soc initial = beginTests kernel soc partition s := by
  unfold script
  rw [hsoc]
  dsimp only
  rw [← State.start, h]

/-- **What the script leaves** of the modules that were loaded before: all of them if the first module
of the driver cannot be loaded, and all but the recorded ones otherwise. -/
theorem loaded_script_cases (hsoc : devPartition soc = some partition) :
    (InstallFails kernel initial "spi-nor".toList ∧
      (script kernel soc initial).state.loaded = initial) ∨
    (¬ InstallFails kernel initial "spi-nor".toList ∧ "cadence_quadspi".toList ∉ initial ∧
      (script kernel soc initial).state.loaded = initial \ ["spi_nor".toList].toFinset) ∨
    (¬ InstallFails kernel initial "spi-nor".toList ∧
      (script kernel soc initial).state.loaded =
        initial \ ["cadence_quadspi".toList, "spi_nor".toList].toFinset) := by
  have hinit : Tracked initial (.start initial) := Tracks.init initial
  rcases installModule_cases kernel (.start initial) "spi-nor".toList rfl with
    ⟨hfails, outcome, herror, hloaded⟩ | ⟨hgoes, s₁, hok, hnames, htracked⟩
  · -- Nothing has been recorded, so nothing is removed.
    rw [script_of_error hsoc (foldlM_cons_of_error herror _)]
    exact Or.inl ⟨hfails, hloaded⟩
  have htracked₁ := htracked initial hinit
  have hnames₁ : s₁.names = ["spi_nor".toList] := hnames
  have hfirst : driverModules.foldlM (installModule kernel) (.start initial) =
      ["cadence-quadspi".toList].foldlM (installModule kernel) s₁ := foldlM_cons_of_ok hok _
  rcases installModule_cases kernel s₁ "cadence-quadspi".toList rfl with
    ⟨hfails, outcome, herror, hloaded⟩ | ⟨-, s₂, hok₂, hnames₂, htracked₂⟩
  · -- The second module was not loaded, and the first is removed.
    have hnot : "cadence_quadspi".toList ∉ initial :=
      fun hmem => hfails.1 _ (htracked₁.kept hmem) (List.infix_refl _)
    rw [script_of_error hsoc (hfirst.trans (foldlM_cons_of_error herror _)), hloaded,
      htracked₁.cleanupModules, hnames₁]
    exact Or.inr (Or.inl ⟨hgoes, hnot, rfl⟩)
  · have htests : (beginTests kernel soc partition s₂).state.loaded =
        initial \ s₂.names.toFinset :=
      loaded_runTests testModules (htracked₂ initial htracked₁)
    rw [script_of_ok hsoc (hfirst.trans (foldlM_cons_of_ok hok₂ _)), htests, hnames₂, hnames₁]
    exact Or.inr (Or.inr ⟨hgoes, rfl⟩)

end Script

/-- **When the script leaves the modules as they were**: the driver was not loaded before, except
that its second module does not matter if the loading of the first fails. -/
theorem restores_iff {kernel : Kernel} {soc : CString} {partition : ℕ} {initial : Finset CString}
    (hsoc : devPartition soc = some partition) :
    (script kernel soc initial).state.loaded = initial ↔
      "spi_nor".toList ∉ initial ∧
        ("cadence_quadspi".toList ∉ initial ∨ InstallFails kernel initial "spi-nor".toList) := by
  rcases loaded_script_cases hsoc with
    ⟨hfails, hloaded⟩ | ⟨-, hnot, hloaded⟩ | ⟨hgoes, hloaded⟩
  · have hnot : "spi_nor".toList ∉ initial := fun hmem => hfails.1 _ hmem (List.infix_refl _)
    exact iff_of_true hloaded ⟨hnot, .inr hfails⟩
  · rw [hloaded, sdiff_toFinset_eq_iff, List.forall_mem_singleton]
    exact ⟨fun h => ⟨h, .inl hnot⟩, fun h => h.1⟩
  · rw [hloaded, sdiff_toFinset_eq_iff, List.forall_mem_cons, List.forall_mem_singleton]
    exact ⟨fun h => ⟨h.2, .inl h.1⟩, fun h => ⟨h.2.resolve_right hgoes, h.1⟩⟩

/-- A kernel with all files, which accepts all of them. -/
def completeKernel : Kernel := ⟨"4.9.78".toList, fun _ => true, fun _ _ => true⟩

theorem restores_empty : (script completeKernel "Arria10".toList ∅).state.loaded = ∅ ↔
    "spi_nor".toList ∉ (∅ : Finset CString) ∧ ("cadence_quadspi".toList ∉ (∅ : Finset CString) ∨
      InstallFails completeKernel ∅ "spi-nor".toList) :=
  restores_iff (rfl : devPartition "Arria10".toList = some 1)

/-- A driver that was loaded before is removed. -/
theorem not_restores_loaded :
    (script completeKernel "Arria10".toList {"spi_nor".toList}).state.loaded ≠
      {"spi_nor".toList} := by
  decide

end LinuxTest.Qspi
