import LinuxTest.Foundations.EarlyExit
import LinuxTest.Libc
import Mathlib.Logic.Function.Basic

/-!
# The loopback test of the SPI bus

`spi_test/spi-test-loopback.c`: the bytes of a file are sent over the bus, and what comes back is
written to another file. `getopt_long` is left out: the options are the sequence of its results. The
device and the files are parameters, and so are the result of `fwrite` and what is left in the file
after `fclose`. Sizes are converted as on a machine with a `long` of 64 bits, so the size of the
file is reduced to an `int`.

At most 1024 bytes are transferred. The result of `fwrite` becomes the status of the program when it
is not the number that was asked for. It counts the bytes that went to a buffer. They reach the file
with `fclose`, whose result is not tested.

## Main definitions

* `Opt`, `Settings`: the options, and the variables they set
* `parseOpt`, `setup`, `transfer`, `main`: the functions of the program
* `Spidev.Ideal`: an ideal loopback device
* `Agrees`: the status is zero if and only if the bytes came back
* `Tells`: the condition under which it does

## Main results

* `parseOpts_decides`: what the options other than `-w` do
* `transfer_ideal`: the transfer on an ideal device
* `main_cases`: where a run on an ideal device ends
* `agrees_iff`: when the status tells whether the bytes came back
-/

namespace LinuxTest.Spi

open Foundations

/-- The files, by their names. -/
abbrev Files := CString → Option Data

/-- The size of the two buffers. -/
def spiArraySize : ℕ := 1024

/-- The flags of the mode of the bus. -/
inductive Flag where
  | loop
  | cpha
  | cpol
  | lsb
  | csHigh
  | threeWire
  | noCs
  | ready
deriving Repr, DecidableEq

/-- The bit of a flag. -/
def Flag.bit : Flag → BitVec 8
  | .cpha => 0x01
  | .cpol => 0x02
  | .csHigh => 0x04
  | .lsb => 0x08
  | .threeWire => 0x10
  | .loop => 0x20
  | .noCs => 0x40
  | .ready => 0x80

/-- The results of `getopt_long`: the options with their arguments. The last one is `-h` or anything
that is not known. -/
inductive Opt where
  | device (text : CString)
  | speed (text : CString)
  | delay (text : CString)
  | bpw (text : CString)
  | wfile (text : CString)
  | rfile (text : CString)
  | flag (flag : Flag)
  | verbose
  | usage
deriving Repr, DecidableEq

/-- The variables that the options set, and what has been printed. -/
structure Settings where
  device : CString
  mode : BitVec 8
  bits : BitVec 8
  speed : BitVec 32
  delay : BitVec 16
  verbose : Bool
  fsize : BitVec 32
  tx : Data
  rfilename : CString
  output : List CString
deriving Repr, DecidableEq

/-- The name of the result if there is no `-r`. -/
def defaultRfile : CString := "spi_read_loopback_data.bin".toList

/-- The variables before the options. -/
def Settings.init : Settings where
  device := "/dev/spidev0.0".toList
  mode := 0
  bits := 8
  speed := 500000
  delay := 0
  verbose := false
  fsize := BitVec.ofNat 32 spiArraySize
  tx := (List.range spiArraySize).map (BitVec.ofNat 8)
  rfilename := defaultRfile
  output := []

/-- Print a text. -/
def Settings.print (s : Settings) (text : CString) : Settings :=
  { s with output := s.output ++ [text] }

/-- How the program ends. A buffer that is overrun, or a file that is not open, has no defined
behaviour. -/
inductive Ending where
  | exit (status : ℕ)
  | abort (message : CString)
  | undefined
deriving Repr, DecidableEq

/-- The end of the program, the files it leaves, and what it printed. -/
structure Outcome where
  ending : Ending
  files : Files
  output : List CString

/-- The device and the system, as the program meets them. -/
structure Spidev where
  /-- Whether the buffers can be allocated. -/
  malloc : Bool
  /-- The result of `open`. -/
  openDevice : CString → BitVec 32
  /-- The results of the calls that set the mode, the bits and the speed. -/
  wrMode : BitVec 8 → BitVec 32
  wrBits : BitVec 8 → BitVec 32
  wrSpeed : BitVec 32 → BitVec 32
  /-- The results of the calls that read them, and what is read. -/
  rdMode : BitVec 32 × BitVec 8
  rdBits : BitVec 32 × BitVec 8
  rdSpeed : BitVec 32 × BitVec 32
  /-- The result of the transfer of some bytes, and what comes back. -/
  message : Data → BitVec 32 × Data
  /-- Whether a file can be created. -/
  creates : CString → Bool
  /-- How many bytes `fwrite` takes. -/
  fwrite : ℕ
  /-- How many of the bytes that it took the file holds after `fclose`. -/
  fclose : ℕ
  /-- The text of `errno`. -/
  error : CString

/-! ## The program -/

/-- Two hexadecimal digits, as `%.2X` prints them. -/
def hexByte (byte : BitVec 8) : CString :=
  [(Nat.digitChar (byte.toNat / 16)).toUpper, (Nat.digitChar (byte.toNat % 16)).toUpper]

/-- The listing of a buffer, six bytes a line. -/
def dump (data : Data) : CString :=
  (data.zipIdx.flatMap fun (byte, i) =>
    (if i % 6 = 0 then "\n".toList else []) ++ hexByte byte ++ " ".toList) ++ "\n".toList

/-- The text of `print_usage`, after its first line. -/
def usageText : CString :=
  ("  -D --device   device to use (default /dev/spidev0.0)\n" ++
    "  -s --speed    max speed (Hz)\n" ++
    "  -d --delay    delay (usec)\n" ++
    "  -b --bpw      bits per word \n" ++
    "  -l --loop     loopback\n" ++
    "  -H --cpha     clock phase\n" ++
    "  -O --cpol     clock polarity\n" ++
    "  -L --lsb      least significant bit first\n" ++
    "  -C --cs-high  chip select active high\n" ++
    "  -3 --3wire    SI/SO signals shared\n" ++
    "  -v --verbose  Run in verbose mode\n" ++
    "  -w --wfile    filename of data to write out to SPI\n" ++
    "  -r --rfile    filename to save SPI read data into\n" ++
    "  -h --help     Print this Usage message\n\n").toList

/-- The number of bytes of a file that are transferred: its size as an `int`, at most the size of the
buffer. -/
def cappedSize (size : ℕ) : BitVec 32 :=
  if (spiArraySize : ℤ) < (BitVec.ofNat 32 size).toInt then BitVec.ofNat 32 spiArraySize
  else BitVec.ofNat 32 size

/-- The option `-w`, for a file that can be read. A negative size becomes a huge one in `fread`,
which overruns the buffer. -/
def readFile (files : Files) (s : Settings) (content : Data) : Except Outcome Settings :=
  let s := if s.verbose then
    s.print ("Filesize to write is ".toList ++ decimal (BitVec.ofNat 32 content.length).toInt ++
      " bytes\n".toList) else s
  let fsize := cappedSize content.length
  if fsize.toInt < 0 then .error ⟨.undefined, files, s.output⟩
  else
    .ok { s with
      fsize := fsize
      tx := content.take fsize.toNat ++ s.tx.drop fsize.toNat }

/-- One iteration of `parse_opts`. -/
def parseOpt (prog : CString) (files : Files) (s : Settings) : Opt → Except Outcome Settings
  | .device text => .ok { s with device := text }
  | .speed text => .ok { s with speed := atoi text }
  | .delay text => .ok { s with delay := (atoi text).setWidth 16 }
  | .rfile text => .ok { s with rfilename := text }
  | .wfile text =>
    match files text with
    | none => .ok s
    | some content => readFile files s content
  | .bpw text => .ok { s with bits := (atoi text).setWidth 8 }
  | .flag flag => .ok { s with mode := s.mode ||| flag.bit }
  | .verbose => .ok { s with verbose := true }
  | .usage =>
    .error ⟨.exit 1, files, s.output ++
      ["Usage: ".toList ++ prog ++ " [-DsbdlHOLC3vwrh]\n".toList, usageText]⟩

/-- The end by `pabort` unless a call went well. -/
def check (dev : Spidev) (files : Files) (s : Settings) (ok : Bool) (text : String) :
    Except Outcome Unit :=
  if ok then .ok () else .error ⟨.abort (perror text.toList dev.error), files, s.output⟩

/-- The part of `main` that opens the device and sets its mode, bits and speed. -/
def setup (dev : Spidev) (files : Files) (s : Settings) : Except Outcome Settings := do
  check dev files s (0 ≤ (dev.openDevice s.device).toInt) "can't open device"
  check dev files s (dev.wrMode s.mode ≠ -1) "can't set spi mode"
  check dev files s (dev.rdMode.1 ≠ -1) "can't get spi mode"
  check dev files s (dev.wrBits s.bits ≠ -1) "can't set bits per word"
  check dev files s (dev.rdBits.1 ≠ -1) "can't get bits per word"
  check dev files s (dev.wrSpeed s.speed ≠ -1) "can't set max speed hz"
  check dev files s (dev.rdSpeed.1 ≠ -1) "can't get max speed hz"
  return { s with
    mode := dev.rdMode.2
    bits := dev.rdBits.2
    speed := dev.rdSpeed.2
    output := s.output ++
      ["spi mode: ".toList ++ decimal dev.rdMode.2.toNat ++ "\n".toList,
        "bits per word: ".toList ++ decimal dev.rdBits.2.toNat ++ "\n".toList,
        "max speed: ".toList ++ decimal dev.rdSpeed.2.toInt ++ " Hz (".toList ++
          decimal (dev.rdSpeed.2.toNat / 1000) ++ " KHz)\n".toList] }

/-- The listing of a buffer in the verbose mode. -/
def Settings.list (s : Settings) (data : Data) : Settings :=
  if s.verbose then s.print (dump data) else s

/-- The function `transfer`, and the end of the program with its result. -/
def transfer (dev : Spidev) (files : Files) (s : Settings) : Outcome :=
  let fsize := s.fsize.toNat
  let result := dev.message (s.tx.take fsize)
  if result.1.toInt < 1 then
    ⟨.abort (perror "can't send spi message".toList dev.error), files, s.output⟩
  else
    let s := s.list (result.2.take fsize)
    if dev.creates s.rfilename = false then ⟨.undefined, files, s.output⟩
    else
      let ret := min dev.fwrite fsize
      let files := Function.update files s.rfilename (some ((result.2.take ret).take dev.fclose))
      if ret ≠ fsize then
        -- The number of bytes becomes the status, of which eight bits are kept.
        ⟨.exit (ret % 256), files, s.output ++
          ["File Read Error - only ".toList ++ decimal ret ++ " instead of ".toList ++
            decimal fsize ++ " bytes read".toList]⟩
      else ⟨.exit 0, files, s.output⟩

/-- The function `main`. -/
def main (dev : Spidev) (prog : CString) (files : Files) (opts : List Opt) : Outcome :=
  if dev.malloc = false then
    ⟨.abort (perror "Can't allocate buffers".toList dev.error), files, []⟩
  else
    match opts.foldlM (parseOpt prog files) Settings.init with
    | .error outcome => outcome
    | .ok s =>
      match setup dev files (s.list (s.tx.take s.fsize.toNat)) with
      | .error outcome => outcome
      | .ok s => transfer dev files s

/-! ## What is expected -/

/-- An ideal loopback device: all calls go well, a transfer returns the number of its bytes, and they
come back. -/
structure Spidev.Ideal (dev : Spidev) : Prop where
  malloc : dev.malloc = true
  openDevice : ∀ device, 0 ≤ (dev.openDevice device).toInt
  wrMode : ∀ mode, dev.wrMode mode ≠ -1
  rdMode : dev.rdMode.1 ≠ -1
  wrBits : ∀ bits, dev.wrBits bits ≠ -1
  rdBits : dev.rdBits.1 ≠ -1
  wrSpeed : ∀ speed, dev.wrSpeed speed ≠ -1
  rdSpeed : dev.rdSpeed.1 ≠ -1
  message : ∀ tx, dev.message tx = (BitVec.ofNat 32 tx.length, tx)

/-- The name of the result after an option. -/
def Opt.rename (name : CString) : Opt → CString
  | .rfile text => text
  | _ => name

/-- The result goes to the file that the last `-r` names. -/
def resultFile (opts : List Opt) : CString := opts.foldl Opt.rename defaultRfile

/-- The status is zero if and only if the result holds the bytes. -/
def Agrees (outcome : Outcome) (name : CString) (content : Data) : Prop :=
  outcome.ending ≠ .undefined ∧
    (outcome.ending = .exit 0 ↔ outcome.files name = some content)

/-- The condition under which the status tells whether the bytes came back, for a file given between
other options. A run that ends before the transfer is reported as a failure, whatever the result
held before. Otherwise all bytes have to reach the file, or `fwrite` has to take fewer than it was
given, in a number that is not a multiple of 256. -/
def Tells (files : Files) (fwrite fclose : ℕ) (before after : List Opt) (name : CString)
    (content : Data) : Prop :=
  if .usage ∈ before then files name ≠ some content
  else if 2 ^ 31 ≤ content.length % 2 ^ 32 then False
  else if .usage ∈ after ∨ content.length % 2 ^ 32 = 0 then files name ≠ some content
  else (content.length ≤ spiArraySize ∧ content.length ≤ fwrite ∧ content.length ≤ fclose) ∨
    fwrite < min (content.length % 2 ^ 32) spiArraySize ∧ fwrite % 256 ≠ 0

/-! ## The options -/

section Options

variable {s : Settings} {o : Opt} {opts : List Opt}

/-- What the other options leave alone, and how they name the result. -/
structure Keeps (s s' : Settings) (rename : CString → CString) : Prop where
  fsize : s'.fsize = s.fsize
  tx : s'.tx = s.tx
  rfilename : s'.rfilename = rename s.rfilename

theorem Keeps.trans {s₁ s₂ : Settings} {f g : CString → CString} (h : Keeps s s₁ f)
    (h' : Keeps s₁ s₂ g) : Keeps s s₂ fun name => g (f name) where
  fsize := h'.fsize.trans h.fsize
  tx := h'.tx.trans h.tx
  rfilename := by rw [h'.rfilename, h.rfilename]

theorem parseOpt_decides (prog : CString) (files : Files) (s : Settings)
    (hw : ∀ text, o ≠ .wfile text) :
    Decides (o ≠ .usage) (parseOpt prog files s o)
      (fun outcome => ∃ output, outcome = ⟨.exit 1, files, output⟩)
      fun s' => Keeps s s' fun name => o.rename name := by
  cases o with
  | wfile text => exact absurd rfl (hw text)
  | usage => exact .error (fun h => h rfl) ⟨_, rfl⟩
  | _ => exact .ok Opt.noConfusion ⟨rfl, rfl, rfl⟩

/-- **What the options other than `-w` do.** -/
theorem parseOpts_decides (prog : CString) (files : Files) (s : Settings)
    (hw : ∀ text, .wfile text ∉ opts) :
    Decides (.usage ∉ opts) (opts.foldlM (parseOpt prog files) s)
      (fun outcome => ∃ output, outcome = ⟨.exit 1, files, output⟩)
      fun s' => Keeps s s' fun name => opts.foldl Opt.rename name := by
  induction opts generalizing s with
  | nil => exact .ok List.not_mem_nil ⟨rfl, rfl, rfl⟩
  | cons o opts ih =>
    -- The first option goes through unless it is `-h`, and the others start from what it leaves.
    have hhead : ∀ text, o ≠ .wfile text := fun text h => hw text (h ▸ List.mem_cons_self)
    have htail : ∀ text, .wfile text ∉ opts := fun text h => hw text (List.mem_cons_of_mem o h)
    have hboth := (parseOpt_decides prog files s hhead).bind
      fun s₁ hkeeps => (ih s₁ htail).imp fun s' hrest => hkeeps.trans hrest
    rw [List.foldlM_cons]
    exact hboth.of_iff ⟨fun h => List.not_mem_cons_of_ne_of_not_mem h.1.symm h.2,
      fun h => ⟨(List.ne_of_not_mem_cons h).symm, List.not_mem_of_not_mem_cons h⟩⟩

/-! ### The size of the file -/

theorem toInt_ofNat_lt_zero_iff (size : ℕ) :
    (BitVec.ofNat 32 size).toInt < 0 ↔ 2 ^ 31 ≤ size % 2 ^ 32 := by
  rw [BitVec.toInt_eq_toNat_cond, BitVec.toNat_ofNat]
  split_ifs <;> omega

theorem toInt_ofNat_eq (size : ℕ) (h : size % 2 ^ 32 < 2 ^ 31) :
    (BitVec.ofNat 32 size).toInt = (size % 2 ^ 32 : ℕ) := by
  rw [BitVec.toInt_eq_toNat_cond, BitVec.toNat_ofNat, if_pos (by omega)]

theorem cappedSize_lt_zero_iff (size : ℕ) :
    (cappedSize size).toInt < 0 ↔ 2 ^ 31 ≤ size % 2 ^ 32 := by
  rw [← toInt_ofNat_lt_zero_iff]
  unfold cappedSize
  split_ifs with h
  · have hpos : (BitVec.ofNat 32 spiArraySize).toInt = 1024 := by decide
    rw [hpos]
    have : (spiArraySize : ℤ) = 1024 := rfl
    omega
  · rfl

theorem cappedSize_toNat {size : ℕ} (h : size % 2 ^ 32 < 2 ^ 31) :
    (cappedSize size).toNat = min (size % 2 ^ 32) spiArraySize := by
  have hsize : spiArraySize = 1024 := rfl
  unfold cappedSize
  rw [toInt_ofNat_eq size h, hsize]
  split_ifs with hcap
  · have h1024 : (BitVec.ofNat 32 1024).toNat = 1024 := by decide
    rw [h1024]
    omega
  · rw [BitVec.toNat_ofNat]
    omega

/-- **The option `-w`**: the bytes to transfer are the first ones of the file. -/
theorem readFile_decides (files : Files) (s : Settings) (content : Data) :
    Decides (content.length % 2 ^ 32 < 2 ^ 31) (readFile files s content)
      (fun outcome => ∃ output, outcome = ⟨.undefined, files, output⟩)
      fun s' => s'.fsize.toNat = min (content.length % 2 ^ 32) spiArraySize ∧
        s'.tx.take s'.fsize.toNat = content.take s'.fsize.toNat ∧ s'.rfilename = s.rfilename := by
  unfold readFile
  dsimp only
  by_cases hsize : content.length % 2 ^ 32 < 2 ^ 31
  · have hcap := cappedSize_toNat hsize
    have hle : (cappedSize content.length).toNat ≤ content.length := by
      have := Nat.mod_le content.length (2 ^ 32)
      omega
    rw [if_neg (by rw [cappedSize_lt_zero_iff]; omega)]
    refine .ok hsize ⟨hcap, ?_, ?_⟩
    · -- Behind the bytes of the file the buffer keeps what was there.
      exact List.take_left' (List.length_take_of_le hle)
    · split_ifs <;> rfl
  · rw [if_pos ((cappedSize_lt_zero_iff _).mpr (by omega))]
    exact .error hsize ⟨_, rfl⟩

end Options

/-! ## The transfer -/

section Transfer

variable {dev : Spidev} {files : Files} {s : Settings}

theorem list_keeps (s : Settings) (data : Data) : Keeps s (s.list data) id := by
  unfold Settings.list
  split_ifs
  · exact ⟨rfl, rfl, rfl⟩
  · exact ⟨rfl, rfl, rfl⟩

/-- The calls before the transfer go well on an ideal device. -/
theorem setup_ideal (hideal : dev.Ideal) : ∃ s', setup dev files s = .ok s' ∧ Keeps s s' id := by
  have hcheck : ∀ (ok : Bool) (text : String), ok = true → check dev files s ok text = .ok () :=
    fun ok text h => if_pos h
  unfold setup
  rw [hcheck _ _ (decide_eq_true (hideal.openDevice s.device)),
    hcheck _ _ (decide_eq_true (hideal.wrMode s.mode)), hcheck _ _ (decide_eq_true hideal.rdMode),
    hcheck _ _ (decide_eq_true (hideal.wrBits s.bits)), hcheck _ _ (decide_eq_true hideal.rdBits),
    hcheck _ _ (decide_eq_true (hideal.wrSpeed s.speed)),
    hcheck _ _ (decide_eq_true hideal.rdSpeed)]
  exact ⟨_, rfl, rfl, rfl, rfl⟩

/-- **The transfer on an ideal device.** Without bytes it is taken for a failure. Otherwise the number
of bytes that `fwrite` takes is the status if it is not all. -/
theorem transfer_ideal (hideal : dev.Ideal) (hcreates : dev.creates s.rfilename = true)
    (hlength : (s.tx.take s.fsize.toNat).length = s.fsize.toNat)
    (hsize : s.fsize.toNat ≤ spiArraySize) :
    (s.fsize.toNat = 0 ∧ ∃ message output,
      transfer dev files s = ⟨.abort message, files, output⟩) ∨
    (0 < s.fsize.toNat ∧ ∃ output, transfer dev files s =
      ⟨.exit (if dev.fwrite < s.fsize.toNat then dev.fwrite % 256 else 0),
        Function.update files s.rfilename
          (some (((s.tx.take s.fsize.toNat).take (min dev.fwrite s.fsize.toNat)).take dev.fclose)),
        output⟩) := by
  have hint : (BitVec.ofNat 32 s.fsize.toNat).toInt = s.fsize.toNat := by
    have h1024 : spiArraySize = 1024 := rfl
    rw [toInt_ofNat_eq _ (by omega), Nat.mod_eq_of_lt (by omega)]
  unfold transfer
  dsimp only
  rw [hideal.message, hlength]
  dsimp only
  rw [hint]
  by_cases hzero : s.fsize.toNat = 0
  · rw [if_pos (by omega)]
    exact Or.inl ⟨hzero, _, _, rfl⟩
  · have hname := (list_keeps s ((s.tx.take s.fsize.toNat).take s.fsize.toNat)).rfilename
    refine Or.inr ⟨by omega, ?_⟩
    rw [if_neg (by omega), hname, id, if_neg (by rw [hcreates]; decide)]
    by_cases hshort : dev.fwrite < s.fsize.toNat
    · rw [if_pos (by omega), if_pos hshort, Nat.min_eq_left (by omega)]
      exact ⟨_, rfl⟩
    · rw [if_neg (by omega), if_neg hshort]
      exact ⟨_, rfl⟩

end Transfer

/-! ## The whole program -/

section Program

variable {files : Files} {name : CString} {content : Data}

/-- A run that fails before it writes: what the result held before decides. -/
theorem agrees_unchanged_iff {ending : Ending} {output : List CString}
    (hdefined : ending ≠ .undefined) (hfailed : ending ≠ .exit 0) :
    Agrees ⟨ending, files, output⟩ name content ↔ files name ≠ some content := by
  unfold Agrees
  exact ⟨fun h hsame => hfailed (h.2.mpr hsame), fun h => ⟨hdefined, iff_of_false hfailed h⟩⟩

/-- A run that leaves the first bytes of the file in the result. -/
theorem agrees_written_iff {status k : ℕ} {output : List CString} (hk : k ≤ content.length) :
    Agrees ⟨.exit status, Function.update files name (some (content.take k)), output⟩ name content ↔
      (status = 0 ↔ k = content.length) := by
  have hsame : content.take k = content ↔ k = content.length := by
    rw [List.take_eq_self_iff]
    omega
  unfold Agrees
  dsimp only
  rw [Function.update_self, Option.some_inj, hsame, Ending.exit.injEq]
  exact ⟨fun h => h.2, fun h => ⟨Ending.noConfusion, h⟩⟩

/-- The transfer of the first bytes of the file. -/
theorem agrees_transfer_iff {dev : Spidev} {s : Settings} (hideal : dev.Ideal)
    (hcreates : dev.creates s.rfilename = true)
    (hfsize : s.fsize.toNat = min (content.length % 2 ^ 32) spiArraySize)
    (htx : s.tx.take s.fsize.toNat = content.take s.fsize.toNat) :
    Agrees (transfer dev files s) s.rfilename content ↔
      if content.length % 2 ^ 32 = 0 then files s.rfilename ≠ some content
      else (content.length ≤ spiArraySize ∧ content.length ≤ dev.fwrite ∧
          content.length ≤ dev.fclose) ∨
        dev.fwrite < min (content.length % 2 ^ 32) spiArraySize ∧ dev.fwrite % 256 ≠ 0 := by
  have h1024 : spiArraySize = 1024 := rfl
  have hle : s.fsize.toNat ≤ content.length := by
    have := Nat.mod_le content.length (2 ^ 32)
    omega
  have hlength : (s.tx.take s.fsize.toNat).length = s.fsize.toNat := by
    rw [htx]
    exact List.length_take_of_le hle
  rcases transfer_ideal hideal hcreates hlength (by omega) with
    ⟨hzero, message, output, h⟩ | ⟨hpos, output, h⟩
  · rw [h, if_pos (by omega)]
    exact agrees_unchanged_iff Ending.noConfusion Ending.noConfusion
  · have hne : content.length % 2 ^ 32 ≠ 0 := by omega
    rw [h, htx, List.take_take, List.take_take, agrees_written_iff (by omega), if_neg hne, ← hfsize]
    -- A short result of `fwrite` is the status, and the file then has not all bytes.
    split_ifs with hshort
    · omega
    · omega

theorem resultFile_append (before after : List Opt) (wname : CString) :
    resultFile (before ++ .wfile wname :: after) =
      after.foldl Opt.rename (before.foldl Opt.rename defaultRfile) := by
  rw [resultFile, List.foldl_append, List.foldl_cons]
  rfl

section Runs

variable {dev : Spidev} {prog : CString} {opts : List Opt} {s : Settings}

theorem main_of_error {outcome : Outcome} (hideal : dev.Ideal)
    (h : opts.foldlM (parseOpt prog files) Settings.init = .error outcome) :
    main dev prog files opts = outcome := by
  rw [main, if_neg (by rw [hideal.malloc]; decide), h]

/-- The run after the options, on an ideal device. -/
theorem main_of_ok (hideal : dev.Ideal)
    (h : opts.foldlM (parseOpt prog files) Settings.init = .ok s) :
    ∃ s', main dev prog files opts = transfer dev files s' ∧ Keeps s s' id := by
  have hlist := list_keeps s (s.tx.take s.fsize.toNat)
  obtain ⟨s', hsetup, hkeeps⟩ : ∃ s', setup dev files (s.list (s.tx.take s.fsize.toNat)) = .ok s' ∧
      Keeps (s.list (s.tx.take s.fsize.toNat)) s' id := setup_ideal hideal
  refine ⟨s', ?_, hlist.trans hkeeps⟩
  rw [main, if_neg (by rw [hideal.malloc]; decide), h]
  dsimp only
  rw [hsetup]

/-- **Where a run on an ideal device ends**, for a file given with `-w` among other options: at an
option, or with the transfer of the first bytes of the file. -/
theorem main_cases (prog : CString) {wname : CString} {before after : List Opt} (hideal : dev.Ideal)
    (hread : files wname = some content) (hbefore : ∀ text, .wfile text ∉ before)
    (hafter : ∀ text, .wfile text ∉ after) :
    (.usage ∈ before ∧ ∃ output,
      main dev prog files (before ++ .wfile wname :: after) = ⟨.exit 1, files, output⟩) ∨
    (.usage ∉ before ∧ ¬ content.length % 2 ^ 32 < 2 ^ 31 ∧ ∃ output,
      main dev prog files (before ++ .wfile wname :: after) = ⟨.undefined, files, output⟩) ∨
    (.usage ∉ before ∧ content.length % 2 ^ 32 < 2 ^ 31 ∧ .usage ∈ after ∧ ∃ output,
      main dev prog files (before ++ .wfile wname :: after) = ⟨.exit 1, files, output⟩) ∨
    (.usage ∉ before ∧ content.length % 2 ^ 32 < 2 ^ 31 ∧ .usage ∉ after ∧ ∃ s,
      main dev prog files (before ++ .wfile wname :: after) = transfer dev files s ∧
      s.fsize.toNat = min (content.length % 2 ^ 32) spiArraySize ∧
      s.tx.take s.fsize.toNat = content.take s.fsize.toNat ∧
      s.rfilename = resultFile (before ++ .wfile wname :: after)) := by
  have happend : (before ++ .wfile wname :: after).foldlM (parseOpt prog files) Settings.init =
      before.foldlM (parseOpt prog files) Settings.init >>= fun s =>
        readFile files s content >>= fun s => after.foldlM (parseOpt prog files) s := by
    simp only [List.foldlM_append, List.foldlM_cons, parseOpt, hread]
  rcases parseOpts_decides prog files Settings.init hbefore with
    ⟨husage, -, hrun, output, rfl⟩ | ⟨husage, s₁, hrun, hkeeps₁⟩
  · refine Or.inl ⟨not_not.mp husage, output, ?_⟩
    exact main_of_error hideal (happend.trans (bind_of_error hrun _))
  rw [bind_of_ok hrun] at happend
  rcases readFile_decides files s₁ content with
    ⟨hsize, -, hs₂, output, rfl⟩ | ⟨hsize, s₂, hs₂, hfsize, htx, hname⟩
  · refine Or.inr (Or.inl ⟨husage, hsize, output, ?_⟩)
    exact main_of_error hideal (happend.trans (bind_of_error hs₂ _))
  rw [bind_of_ok hs₂] at happend
  rcases parseOpts_decides prog files s₂ hafter with
    ⟨husage', -, hrun', output, rfl⟩ | ⟨husage', s₃, hrun', hkeeps₃⟩
  · refine Or.inr (Or.inr (Or.inl ⟨husage, hsize, not_not.mp husage', output, ?_⟩))
    exact main_of_error hideal (happend.trans hrun')
  · obtain ⟨s₄, hmain, hkeeps₄⟩ := main_of_ok hideal (happend.trans hrun')
    have hkeeps := hkeeps₃.trans hkeeps₄
    refine Or.inr (Or.inr (Or.inr ⟨husage, hsize, husage', s₄, hmain, ?_, ?_, ?_⟩))
    · rw [hkeeps.fsize]
      exact hfsize
    · rw [hkeeps.fsize, hkeeps.tx]
      exact htx
    · rw [hkeeps.rfilename, hname, hkeeps₁.rfilename, resultFile_append]
      rfl

end Runs

/-- **When the status tells whether the bytes came back**, on an ideal device: for a file given with
`-w` among other options. -/
theorem agrees_iff {dev : Spidev} {prog wname : CString} {before after : List Opt}
    (hideal : dev.Ideal) (hread : files wname = some content)
    (hbefore : ∀ text, .wfile text ∉ before) (hafter : ∀ text, .wfile text ∉ after)
    (hcreates : dev.creates (resultFile (before ++ .wfile wname :: after)) = true) :
    Agrees (main dev prog files (before ++ .wfile wname :: after))
        (resultFile (before ++ .wfile wname :: after)) content ↔
      Tells files dev.fwrite dev.fclose before after
        (resultFile (before ++ .wfile wname :: after)) content := by
  unfold Tells
  rcases main_cases prog hideal hread hbefore hafter with
    ⟨husage, output, h⟩ | ⟨husage, hsize, output, h⟩ |
    ⟨husage, hsize, husage', output, h⟩ | ⟨husage, hsize, husage', s, h, hfsize, htx, hname⟩
  · rw [h, if_pos husage]
    exact agrees_unchanged_iff (by decide) (by decide)
  · -- The buffer is overrun.
    rw [h, if_neg husage, if_pos (by omega), iff_false]
    exact fun hagrees => hagrees.1 rfl
  · rw [h, if_neg husage, if_neg (by omega), if_pos (.inl husage')]
    exact agrees_unchanged_iff (by decide) (by decide)
  · rw [← hname] at hcreates ⊢
    rw [h, if_neg husage, if_neg (by omega), agrees_transfer_iff hideal hcreates hfsize htx]
    simp only [husage', false_or]

end Program

/-- An ideal device, with what `fwrite` takes and what is left of it after `fclose`. -/
def idealDevice (fwrite fclose : ℕ) : Spidev where
  malloc := true
  openDevice _ := 3
  wrMode _ := 0
  wrBits _ := 0
  wrSpeed _ := 0
  rdMode := (0, 0)
  rdBits := (0, 8)
  rdSpeed := (0, 500000)
  message tx := (BitVec.ofNat 32 tx.length, tx)
  creates _ := true
  fwrite := fwrite
  fclose := fclose
  error := "Success".toList

theorem ideal_idealDevice (fwrite fclose : ℕ) : (idealDevice fwrite fclose).Ideal := by
  have hopen : 0 ≤ (3 : BitVec 32).toInt := by decide
  have hcall : (0 : BitVec 32) ≠ -1 := by decide
  exact ⟨rfl, fun _ => hopen, fun _ => hcall, hcall, fun _ => hcall, hcall, fun _ => hcall, hcall,
    fun _ => rfl⟩

/-- One file, of two bytes. -/
def seedFiles : Files := fun name =>
  if name = "spi_seed_file.bin".toList then some [0x12, 0x34] else none

/-- One of the two bytes that `fwrite` took is lost by `fclose`. -/
theorem agrees_seed :
    Agrees (main (idealDevice 2 1) "spi-test-loopback".toList seedFiles
        ([.verbose] ++ .wfile "spi_seed_file.bin".toList :: [.rfile "spi_read_result.bin".toList]))
      (resultFile
        ([.verbose] ++ .wfile "spi_seed_file.bin".toList :: [.rfile "spi_read_result.bin".toList]))
      [0x12, 0x34] ↔
    Tells seedFiles 2 1 [.verbose] [.rfile "spi_read_result.bin".toList]
      (resultFile
        ([.verbose] ++ .wfile "spi_seed_file.bin".toList :: [.rfile "spi_read_result.bin".toList]))
      [0x12, 0x34] :=
  agrees_iff (ideal_idealDevice 2 1) rfl (by simp) (by simp) rfl

/-- A file without room: `fwrite` takes the bytes into its buffer, `fclose` loses them, and the
status is zero all the same. -/
theorem not_agrees_full :
    ¬ Agrees (main (idealDevice 2 0) "spi-test-loopback".toList seedFiles
        [.wfile "spi_seed_file.bin".toList]) (resultFile [.wfile "spi_seed_file.bin".toList])
      [0x12, 0x34] := by
  unfold Agrees
  decide

end LinuxTest.Spi
