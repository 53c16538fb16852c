import LinuxTest.Foundations.FailStop
import LinuxTest.Libc

/-!
# The partial reconfiguration test

`sysid_test/sysid-test.sh`: overlays are applied and removed, and after each change the script checks
which sysid devices the driver has bound, and what they read. The board, the release flag and the
number of runs are the configuration; the file system and the overlay tool are a sequence of
snapshots, one for each action. An entry of the driver directory is absent, a regular file, or the
directory of a device with its `sysid/id`.

## Main definitions

* `Config`, `Snapshot`: the settings of the script, and what it meets at one time
* `Action`, `perform`: the steps of the script
* `sysidTest`, `script`: one run, and the whole script
* `Right`: the device is as the check point wants it
* `Sound`: the script passes only if all check points were right

## Main results

* `perform_absence`: a check for absence never fails on directories
* `passes_iff`: which runs pass
* `sound_iff`: soundness is equivalent to no unexpected device being there, or another step failing
-/

namespace LinuxTest.Sysid

open Foundations

/-- The boards the script supports. -/
inductive Board where
  | arria10
  | socdk10
deriving Repr, DecidableEq

/-- The addresses of the three devices; `0` for one the board does not have. -/
def Board.sysidAddrs : Board → Fin 3 → String
  | .arria10, 0 => "ff200000"
  | .arria10, 1 => "ff200800"
  | .arria10, 2 => "ff200900"
  | .socdk10, 0 => "0"
  | .socdk10, 1 => "f9000800"
  | .socdk10, 2 => "f9000900"

/-- The overlay of the static region. -/
def Board.staticRegion : Board → String
  | .arria10 => "socfpga_arria10_socdk_sdmmc_ghrd_ovl_ext_cfg.dtb"
  | .socdk10 => "base.dtb"

/-- The board, whether `--ghrd-release` was given, and the number of runs. -/
structure Config where
  board : Board
  ghrd : Bool
  runs : ℤ
deriving Repr, DecidableEq

namespace Config

/-- The options of the overlay tool. -/
def dtboDir (config : Config) : List String := if config.ghrd then ["-p", "/boot"] else []

/-- The overlay of the static region; empty for a release. -/
def staticRegion (config : Config) : String :=
  if config.ghrd then "" else config.board.staticRegion

/-- The overlay of the first persona. -/
def persona0 (config : Config) : String := if config.ghrd then "persona0.dtbo" else "persona0.dtb"

/-- The overlay of the second persona. -/
def persona1 (config : Config) : String := if config.ghrd then "persona1.dtbo" else "persona1.dtb"

end Config

/-- What stands at the path of a device. -/
inductive Entry where
  | absent
  | file
  | device (id : CString)
deriving Repr, DecidableEq

/-- The test `[ -f path ]`: a regular file. -/
def Entry.isFile : Entry → Bool
  | .file => true
  | _ => false

/-- What `cat path/sysid/id` writes; nothing if there is no such file. -/
def Entry.catId : Entry → CString
  | .device id => id
  | _ => []

/-- What the script meets at one time. -/
structure Snapshot where
  /-- The status of the overlay tool, by its arguments. -/
  dtbt : List String → ℕ
  /-- Whether a path exists. -/
  path : String → Bool
  /-- What `cat` of a path writes, and its status. -/
  cat : String → CString × ℕ
  /-- The entry of a device, by its address. -/
  entry : String → Entry

/-- The steps of the script that can end it. -/
inductive Action where
  | pathTest (path : String)
  | applyOverlay (dtbo : String)
  | removeOverlay (dtbo : String)
  | sysfsCatTest (path expected : String)
  | checkSysid (device : Fin 3) (expected : Option String)
deriving Repr, DecidableEq

/-- Why the script ends. -/
inductive Failure where
  | noPath (path : String)
  | command (text : String)
  | returnCode (ret : ℕ)
  | state (expected : String) (got : CString)
  | exists (path : String)
  | value (path : String) (got : CString) (expected : String)
deriving Repr, DecidableEq

/-- The message of a failure. -/
def Failure.text : Failure → String
  | .noPath path => "path does not exist: " ++ path
  | .command text => text
  | .returnCode ret => "return code is " ++ toString ret
  | .state expected got => "expected FPGA to be in " ++ expected ++ " phase.  value = " ++
      String.ofList got
  | .exists path => "ERROR: " ++ path ++ " expected to not exist and exists"
  | .value path got expected => path ++ " == " ++ String.ofList got ++ " (expected " ++ expected ++
      ")"

/-- What the script prints at its end: the failure during a run, or the pass. -/
def verdictText : Except (Option ℕ × Failure) Unit → String
  | .error (run, failure) => "FAIL - during test run number " ++
      (run.map toString).getD "" ++ " - " ++ failure.text
  | .ok () => "PASS"

/-- The text is `PASS` for a pass only. -/
theorem verdictText_eq_pass_iff (result : Except (Option ℕ × Failure) Unit) :
    verdictText result = "PASS" ↔ result = .ok () := by
  match result with
  | .ok () => exact iff_of_true rfl rfl
  | .error (run, failure) =>
    -- The texts differ in their first character.
    refine iff_of_false (fun h => ?_) (by simp)
    change "FAIL - during test run number " ++ (run.map toString).getD "" ++ " - " ++
      failure.text = "PASS" at h
    have hchars := congrArg (fun text => text.toList.head?) h
    simp at hchars

/-- The value of a command substitution: the output without its trailing newlines. -/
def capture (output : CString) : CString := (output.reverse.dropWhile (· = '\n')).reverse

/-- The path of a device. -/
def devicePath (addr : String) : String :=
  "/sys/bus/platform/drivers/altera_sysid/" ++ addr ++ ".sysid"

/-- End the script if a command failed. -/
def exitIfFail (status : ℕ) (text : String) : Except Failure Unit :=
  if status ≠ 0 then .error (.command text) else .ok ()

/-- The function `check-sysid`. -/
def checkSysid (config : Config) (snap : Snapshot) (device : Fin 3) (expected : Option String) :
    Except Failure Unit :=
  let addr := config.board.sysidAddrs device
  if addr = "0" then .ok ()
  else
    match expected with
    | none => if (snap.entry addr).isFile then .error (.exists (devicePath addr)) else .ok ()
    | some expected =>
      let got := capture (snap.entry addr).catId
      if expected.toList ≠ got then .error (.value (devicePath addr) got expected) else .ok ()

/-- One step. -/
def perform (config : Config) (snap : Snapshot) : Action → Except Failure Unit
  | .pathTest path => if !snap.path path then .error (.noPath path) else .ok ()
  | .applyOverlay dtbo => exitIfFail (snap.dtbt (config.dtboDir ++ ["-a", dtbo])) ("dtbt -a " ++ dtbo)
  | .removeOverlay dtbo => exitIfFail (snap.dtbt ["-r", dtbo]) ("dtbt -r " ++ dtbo)
  | .sysfsCatTest path expected =>
    if (snap.cat path).2 ≠ 0 then .error (.returnCode (snap.cat path).2)
    else if capture (snap.cat path).1 ≠ expected.toList then
      .error (.state expected (capture (snap.cat path).1))
    else .ok ()
  | .checkSysid device expected => checkSysid config snap device expected

/-- The three checks of one check point. -/
def checkPoint (expected0 expected1 expected2 : Option String) : List Action :=
  [.checkSysid 0 expected0, .checkSysid 1 expected1, .checkSysid 2 expected2]

/-- The state file of the FPGA manager. -/
def fpgaMgrSysfs : String := "/sys/class/fpga_manager/fpga0"

/-- An overlay command for the static region, if there is one. -/
def onStaticRegion (config : Config) (command : String → Action) : List Action :=
  if config.staticRegion ≠ "" then [command config.staticRegion] else []

/-- The function `sysid_test`. -/
def sysidTest (config : Config) : List Action :=
  List.flatten
    [onStaticRegion config .applyOverlay,
      checkPoint (some "3221756416") none none,
      [.applyOverlay config.persona0, .sysfsCatTest (fpgaMgrSysfs ++ "/state") "operating"],
      checkPoint (some "3221756416") (some "3405707982") none,
      [.removeOverlay config.persona0],
      checkPoint (some "3221756416") none none,
      [.applyOverlay config.persona1, .sysfsCatTest (fpgaMgrSysfs ++ "/state") "operating"],
      checkPoint (some "3221756416") none (some "4207856382"),
      [.removeOverlay config.persona1],
      checkPoint (some "3221756416") none none,
      onStaticRegion config .removeOverlay,
      checkPoint none none none]

/-- The tests before the first run. -/
def pathTests : List Action :=
  [.pathTest "/sys/kernel/config", .pathTest "/sys/kernel/config/device-tree/overlays",
    .pathTest (fpgaMgrSysfs ++ "/name"), .pathTest (fpgaMgrSysfs ++ "/state")]

/-- The whole script, with the number of the run that each step belongs to. -/
def script (config : Config) : List (Option ℕ × Action) :=
  pathTests.map (none, ·) ++
    (List.range config.runs.toNat).flatMap fun run => (sysidTest config).map (some (run + 1), ·)

/-- The end of the script. -/
def verdict (config : Config) (world : ℕ → Snapshot) : Except (Option ℕ × Failure) Unit :=
  execute (fun snap step => (perform config snap step.2).mapError (step.1, ·)) world 0
    (script config)

/-! ## What a pass says -/

/-- The device is as a check point wants it: present with the expected value, or absent. -/
def Right (snap : Snapshot) (addr : String) : Option String → Prop
  | none => snap.entry addr = .absent
  | some expected => ∃ id, snap.entry addr = .device id ∧ capture id = expected.toList

/-- The script passes only if every device of the board was right at every check. -/
def Sound (config : Config) (world : ℕ → Snapshot) : Prop :=
  verdict config world = .ok () →
    ∀ k run device expected,
      (script config)[k]? = some (run, .checkSysid device expected) →
      config.board.sysidAddrs device ≠ "0" →
      Right (world k) (config.board.sysidAddrs device) expected

/-- Entries are absent or directories of devices, as the driver makes them. -/
def Directories (world : ℕ → Snapshot) : Prop := ∀ k addr, (world k).entry addr ≠ .file

/-- A device is there where the script wants it to be absent. -/
def Unexpected (config : Config) (world : ℕ → Snapshot) : Prop :=
  ∃ k run device id, (script config)[k]? = some (run, .checkSysid device none) ∧
    config.board.sysidAddrs device ≠ "0" ∧
    (world k).entry (config.board.sysidAddrs device) = .device id

/-- What makes a step fail that is not a check for absence: a path is missing, the overlay tool
fails, the state cannot be read or is another one, or a device of the board is not right. -/
def Action.Fails (config : Config) (snap : Snapshot) : Action → Prop
  | .pathTest path => snap.path path = false
  | .applyOverlay dtbo => snap.dtbt (config.dtboDir ++ ["-a", dtbo]) ≠ 0
  | .removeOverlay dtbo => snap.dtbt ["-r", dtbo] ≠ 0
  | .sysfsCatTest path expected =>
    (snap.cat path).2 ≠ 0 ∨ capture (snap.cat path).1 ≠ expected.toList
  | .checkSysid device (some expected) =>
    config.board.sysidAddrs device ≠ "0" ∧
      ¬ Right snap (config.board.sysidAddrs device) (some expected)
  | .checkSysid _ none => False

/-- A step fails that is not a check for absence. -/
def OtherStepFails (config : Config) (world : ℕ → Snapshot) : Prop :=
  ∃ k run action, (script config)[k]? = some (run, action) ∧ Action.Fails config (world k) action

/-- A value that is expected is not the empty text. -/
def Action.expectsSomething : Action → Bool
  | .checkSysid _ (some expected) => expected.toList ≠ []
  | _ => true

theorem all_expectsSomething (config : Config) :
    (sysidTest config).all Action.expectsSomething = true := by
  unfold sysidTest checkPoint onStaticRegion
  split_ifs <;> simp [Action.expectsSomething]

section Soundness

variable {config : Config} {world : ℕ → Snapshot}

/-- **Which runs pass**: those in which every step succeeds. -/
theorem passes_iff : verdict config world = .ok () ↔
    ∀ k run action, (script config)[k]? = some (run, action) →
      perform config (world k) action = .ok () := by
  have hstep : ∀ (r : Except Failure Unit) (run : Option ℕ),
      r.mapError (run, ·) = .ok () ↔ r = .ok () := by
    intro r run
    cases r <;> simp [Except.mapError]
  rw [verdict, execute_ok_iff]
  simp only [zero_add, hstep, Prod.forall]

/-- **A check for absence never fails on directories**: `[ -f path ]` looks for a regular file. -/
theorem perform_absence (hdir : Directories world) (k : ℕ) (device : Fin 3) :
    perform config (world k) (.checkSysid device none) = .ok () := by
  have hfile : ((world k).entry (config.board.sysidAddrs device)).isFile = false := by
    cases hentry : (world k).entry (config.board.sysidAddrs device) with
    | file => exact absurd hentry (hdir k _)
    | absent => rfl
    | device id => rfl
  simp [perform, checkSysid, hfile]

/-- A check for a value reads the value of a device, and nothing where there is none. -/
theorem right_iff {snap : Snapshot} {addr expected : String} (hexpected : expected.toList ≠ []) :
    Right snap addr (some expected) ↔ expected.toList = capture (snap.entry addr).catId := by
  rw [Right]
  cases snap.entry addr with
  | device id => simp [Entry.catId, eq_comm]
  | absent | file =>
    refine iff_of_false ?_ hexpected
    rintro ⟨id, hid, -⟩
    cases hid

/-- **When a step ends the script**, for a step other than a check for absence. -/
theorem perform_ne_ok_iff {snap : Snapshot} {action : Action}
    (hexpects : action.expectsSomething = true)
    (habsence : ∀ device, action ≠ .checkSysid device none) :
    perform config snap action ≠ .ok () ↔ action.Fails config snap := by
  cases action with
  | pathTest path => simp [perform, Action.Fails]
  | applyOverlay dtbo => simp [perform, exitIfFail, Action.Fails]
  | removeOverlay dtbo => simp [perform, exitIfFail, Action.Fails]
  | sysfsCatTest path expected =>
    simp only [perform, Action.Fails]
    split_ifs with hstatus hstate <;> simp_all
  | checkSysid device expected =>
    cases expected with
    | none => exact absurd rfl (habsence device)
    | some expected =>
      have hne : expected.toList ≠ [] := by simpa [Action.expectsSomething] using hexpects
      simp only [perform, checkSysid, Action.Fails, right_iff hne]
      split_ifs with haddr hvalue <;> simp_all

theorem expectsSomething_of_mem {run : Option ℕ} {action : Action}
    (h : (run, action) ∈ script config) : action.expectsSomething = true := by
  rcases List.mem_append.mp h with hpath | hrun
  · obtain ⟨action', hmem, heq⟩ := List.mem_map.mp hpath
    cases heq
    revert hmem
    simp only [pathTests, List.mem_cons, List.not_mem_nil, or_false]
    rintro (rfl | rfl | rfl | rfl) <;> rfl
  · obtain ⟨i, -, hmem⟩ := List.mem_flatMap.mp hrun
    obtain ⟨action', hmem, heq⟩ := List.mem_map.mp hmem
    cases heq
    exact List.all_eq_true.mp (all_expectsSomething config) _ hmem

/-- The script passes exactly when no other step fails. -/
theorem passes_iff_not_otherStepFails (hdir : Directories world) :
    verdict config world = .ok () ↔ ¬ OtherStepFails config world := by
  rw [passes_iff]
  constructor
  · rintro h ⟨k, run, action, hk, hfails⟩
    have habsence : ∀ device, action ≠ .checkSysid device none := by
      rintro device rfl
      exact hfails
    have hexpects := expectsSomething_of_mem (List.mem_of_getElem? hk)
    exact (perform_ne_ok_iff hexpects habsence).mpr hfails (h k run action hk)
  · intro h k run action hk
    by_cases habsence : ∃ device, action = .checkSysid device none
    · obtain ⟨device, rfl⟩ := habsence
      exact perform_absence hdir k device
    · by_contra hfails
      have hexpects := expectsSomething_of_mem (List.mem_of_getElem? hk)
      exact h ⟨k, run, action, hk,
        (perform_ne_ok_iff hexpects fun device heq => habsence ⟨device, heq⟩).mp hfails⟩

/-- **When the script is sound.** With directories in sysfs, a pass means that all check points were
right if and only if no device was there where the script wants none, or another step fails. -/
theorem sound_iff (config : Config) (world : ℕ → Snapshot) (hdir : Directories world) :
    Sound config world ↔ ¬ Unexpected config world ∨ OtherStepFails config world := by
  constructor
  · intro hsound
    by_contra hcon
    push Not at hcon
    obtain ⟨⟨k, run, device, id, hk, haddr, hentry⟩, hother⟩ := hcon
    have habsent := hsound ((passes_iff_not_otherStepFails hdir).mpr hother) k run device none hk
      haddr
    rw [Right, hentry] at habsent
    cases habsent
  · intro h hpass k run device expected hk haddr
    cases expected with
    | some expected =>
      by_contra hwrong
      exact (passes_iff_not_otherStepFails hdir).mp hpass ⟨k, run, _, hk, haddr, hwrong⟩
    | none =>
      -- With another failure there is no pass; otherwise nothing unexpected is there.
      have hunexpected := h.resolve_right ((passes_iff_not_otherStepFails hdir).mp hpass)
      cases hentry : (world k).entry (config.board.sysidAddrs device) with
      | absent => exact hentry
      | file => exact absurd hentry (hdir k _)
      | device id => exact absurd ⟨k, run, device, id, hk, haddr, hentry⟩ hunexpected

end Soundness

/-! ## A world in which every device is always there -/

/-- Every device is there all the time with the value the script expects, and all commands
succeed. -/
def allPresent : Snapshot where
  dtbt _ := 0
  path _ := true
  cat _ := ("operating\n".toList, 0)
  entry addr :=
    if addr = "ff200000" then .device "3221756416\n".toList
    else if addr = "ff200800" then .device "3405707982\n".toList
    else .device "4207856382\n".toList

theorem directories_allPresent : Directories fun _ => allPresent := by
  intro k addr
  unfold allPresent
  dsimp only
  split_ifs <;> simp

/-- Soundness for one run on the Arria 10 board. -/
theorem sound_iff_allPresent : Directories (fun _ => allPresent) ∧
    (Sound ⟨.arria10, false, 1⟩ (fun _ => allPresent) ↔
      ¬ Unexpected ⟨.arria10, false, 1⟩ (fun _ => allPresent) ∨
        OtherStepFails ⟨.arria10, false, 1⟩ (fun _ => allPresent)) :=
  ⟨directories_allPresent, sound_iff _ _ directories_allPresent⟩

/-- One run on the Arria 10 board with every device there all the time passes, though the second
device should be absent at the first check point. -/
theorem not_sound_allPresent :
    verdict ⟨.arria10, false, 1⟩ (fun _ => allPresent) = .ok () ∧
      (script ⟨.arria10, false, 1⟩)[6]? = some (some 1, .checkSysid 1 none) ∧
      ¬ Right allPresent "ff200800" none ∧
      ¬ Sound ⟨.arria10, false, 1⟩ (fun _ => allPresent) := by
  have hpass : verdict ⟨.arria10, false, 1⟩ (fun _ => allPresent) = .ok () := by decide
  have hcheck : (script ⟨.arria10, false, 1⟩)[6]? = some (some 1, .checkSysid 1 none) := by decide
  have hright : ¬ Right allPresent "ff200800" none := by
    rw [Right]
    decide
  exact ⟨hpass, hcheck, hright, fun h => hright (h hpass 6 _ 1 none hcheck (by decide))⟩

end LinuxTest.Sysid
