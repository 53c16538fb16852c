import LinuxTest.Foundations.Alignment
import LinuxTest.Strtoul

/-!
# The memory tool

`memtool/memtool.c`: physical memory is read or written through a mapping of `/dev/mem`. The address
is aligned to the size of an access, and the mapping goes from the page of the address to the end of
the page in which the last access ends. All of that is computed in words of 32 bits, on a machine
with a `long` of that size; an `int` that overflows wraps.

The calls of the system and the memory behind the mapping are parameters. The accesses of a run are
a list.

## Main definitions

* `Settings`, `parseCmdline`: the command line
* `Settings.alignedPaddr`, `Settings.alignedSize`: where the mapping begins, and its length
* `readMem`, `writeMem`, `main`: the rest of the program
* `Maps`: the mapping holds everything that is accessed

## Main results

* `accesses_readMem`: the elements that are read
* `gPaddr_before_element`: the addresses that are printed
* `accesses_main`: the accesses of a run, and the window they are for
* `maps_iff`: when the mapping holds everything that is accessed
-/

namespace LinuxTest.Memtool

open Foundations

/-! ## The command line -/

/-- The sizes of an access: `-8`, `-16` and `-32`. -/
inductive Size where
  | size8
  | size16
  | size32
deriving Repr, DecidableEq

/-- The value of `g_size`. -/
def Size.bytes : Size → ℕ
  | .size8 => 1
  | .size16 => 2
  | .size32 => 4

/-- The global variables after the command line. Only a read sets the count. -/
structure Settings where
  size : Size
  paddr : BitVec 32
  isWrite : Bool
  value : BitVec 32
  count : BitVec 32
  single : isWrite = true → count = 1
deriving DecidableEq

/-- The digits after an optional `0x`. -/
def skipRadix : CString → CString
  | '0' :: 'x' :: s => s
  | '0' :: 'X' :: s => s
  | s => s

/-- The number at the start of a string, in base sixteen: the largest one if it does not fit. -/
def strtoul (s : CString) : BitVec 32 :=
  let s := s.dropWhile isspace
  let negative := s.head? = some '-'
  let digits := if negative ∨ s.head? = some '+' then s.tail else s
  (strtoulIn 16 negative (skipRadix digits)).value

example : strtoul " 0xFf=1".toList = 255 := by decide

/-- The option for a size. -/
def sizeOption (arg : CString) : Option Size :=
  if arg = "-8".toList then some .size8
  else if arg = "-16".toList then some .size16
  else if arg = "-32".toList then some .size32
  else none

/-- A command line that writes a value. -/
def Settings.write (size : Size) (paddr : BitVec 32) (value : CString) : Settings :=
  ⟨size, paddr, true, strtoul value, 1, fun _ => rfl⟩

/-- A command line that reads some elements. -/
def Settings.read (size : Size) (paddr : BitVec 32) (count : CString) : Settings :=
  ⟨size, paddr, false, 0, strtoul count, Bool.noConfusion⟩

/-- The arguments after the address, which may have ended in `=`. -/
def parseRest (size : Size) (paddr : BitVec 32) (isWrite : Bool) : List CString → Option Settings
  | [] => none
  | ['='] :: [] => none
  | ['='] :: value :: _ => some (.write size paddr value)
  | ('=' :: c :: value) :: _ => some (.write size paddr (c :: value))
  | arg :: _ => if isWrite then some (.write size paddr arg) else some (.read size paddr arg)

/-- The arguments after the option for the size. -/
def parseAddress (size : Size) : List CString → Option Settings
  | [] => none
  | arg :: args =>
    let paddr := strtoul arg
    if paddr = 0 then none
    else
      -- What `strchr` finds, and the text after it.
      match arg.dropWhile (· ≠ '=') with
      | [] => parseRest size paddr false args
      | [_] => parseRest size paddr true args
      | _ :: c :: value => some (.write size paddr (c :: value))

/-- The function `parse_cmdline`; `none` is its result `-1`. -/
def parseCmdline (argv : List CString) : Option Settings :=
  match argv.tail with
  | [] => none
  | arg :: args =>
    match sizeOption arg with
    | some size => parseAddress size args
    | none => parseAddress .size32 (arg :: args)

/-! ## The window -/

namespace Settings

/-- The value of `g_size` as a word. -/
def gSize (s : Settings) : BitVec 32 := BitVec.ofNat 32 s.size.bytes

/-- The address, aligned to the size of an access. -/
def gPaddr (s : Settings) : BitVec 32 := s.paddr &&& ~~~(s.gSize - 1)

/-- The address of its page. -/
def alignedPaddr (s : Settings) : BitVec 32 := s.gPaddr &&& ~~~(4096 - 1)

/-- The length of the mapping. -/
def alignedSize (s : Settings) : BitVec 32 :=
  let alignedSize := s.gPaddr - s.alignedPaddr + s.count * s.gSize
  (alignedSize + 4096 - 1) &&& ~~~(4096 - 1)

end Settings

/-! ## Reading and writing -/

/-- An access to the memory: its size and its address, and the value that is stored. -/
inductive Access where
  | load (size : Size) (addr : BitVec 32)
  | store (size : Size) (addr : BitVec 32) (value : BitVec 32)
deriving Repr, DecidableEq

/-- The size of an access. -/
def Access.size : Access → Size
  | .load size _ => size
  | .store size _ _ => size

/-- The address of an access. -/
def Access.addr : Access → BitVec 32
  | .load _ addr => addr
  | .store _ addr _ => addr

/-- The number of elements on a line. -/
def Size.perLine : Size → ℕ
  | .size8 => 16
  | .size16 => 8
  | .size32 => 4

/-- The elements read so far: the address to print next, what is printed, and the accesses. -/
structure Reading where
  gPaddr : BitVec 32
  output : List CString
  accesses : List Access
deriving Repr, DecidableEq

/-- The body of the loop for a size: the `i`-th element. -/
def readStep (load : Size → BitVec 32 → BitVec 32) (size : Size) (addr : BitVec 32) (r : Reading)
    (i : BitVec 32) : Reading :=
  let line := if i.srem (BitVec.ofNat 32 size.perLine) = 0 then
    ["\n0x".toList ++ upperHex 8 r.gPaddr.toNat ++ ": ".toList] else []
  let element := addr + i * BitVec.ofNat 32 size.bytes
  { gPaddr := r.gPaddr + BitVec.ofNat 32 size.bytes
    output := r.output ++ line ++
      [" ".toList ++ upperHex (2 * size.bytes) (load size element).toNat]
    accesses := r.accesses ++ [.load size element] }

/-- The function `read_mem`. The counter of its loop is an `int`, compared as an unsigned number. -/
def readMem (load : Size → BitVec 32 → BitVec 32) (addr count : BitVec 32) (size : Size)
    (gPaddr : BitVec 32) : Reading :=
  let r := ((List.range count.toNat).map (BitVec.ofNat 32)).foldl (readStep load size addr)
    ⟨gPaddr, [], []⟩
  { r with output := r.output ++ ["\n\n".toList] }

/-- The function `write_mem`: the low bytes of the value are stored. -/
def writeMem (addr value : BitVec 32) (size : Size) : Access :=
  .store size addr ((value.setWidth (8 * size.bytes)).setWidth 32)

/-- What the system does. -/
structure Host where
  /-- The result of `open`. -/
  openMem : BitVec 32
  /-- The result of `mmap` for a length and an offset. -/
  mmap : BitVec 32 → BitVec 32 → BitVec 32
  /-- The element at an address. -/
  load : Size → BitVec 32 → BitVec 32

/-- A part of the address space: its first address and its length. -/
structure Window where
  vaddr : BitVec 32
  length : BitVec 32
deriving Repr, DecidableEq

/-- The end of the program: its status, what is printed, what is mapped and what is accessed. -/
structure Outcome where
  status : ℕ
  output : List CString
  window : Option Window
  accesses : List Access
deriving Repr, DecidableEq

/-- The text for a command line that is not accepted. -/
def usage : CString :=
  ("Usage:\n\n" ++
    "Read memory: memtool [-8 | -16 | -32] <phys addr> <count>\n" ++
    "Write memory: memtool [-8 | -16 | -32] <phys addr>=<value>\n\n" ++
    "Default access size is 32-bit.\n\nAddress, count and value are all in hex.\n").toList

/-- What is printed before the memory is mapped. -/
def Settings.announcement (s : Settings) : CString :=
  if s.isWrite then
    "Writing ".toList ++ decimal (8 * s.size.bytes) ++ "-bit value 0x".toList ++
      upperHex 1 s.value.toNat ++ " to address 0x".toList ++ upperHex 8 s.gPaddr.toNat ++
      "\n".toList
  else
    "Reading 0x".toList ++ upperHex 1 s.count.toNat ++ " count starting at address 0x".toList ++
      upperHex 8 s.gPaddr.toNat ++ "\n".toList

/-- The part of `main` after the memory is mapped. -/
def Settings.run (s : Settings) (host : Host) (vaddr : BitVec 32) : Outcome :=
  let mem := vaddr + (s.gPaddr - s.alignedPaddr)
  if s.isWrite then
    ⟨0, [s.announcement], some ⟨vaddr, s.alignedSize⟩, [writeMem mem s.value s.size]⟩
  else
    let r := readMem host.load mem s.count s.size s.gPaddr
    ⟨0, s.announcement :: r.output, some ⟨vaddr, s.alignedSize⟩, r.accesses⟩

/-- The function `main`. -/
def main (host : Host) (argv : List CString) : Outcome :=
  match parseCmdline argv with
  | none => ⟨1, [usage], none, []⟩
  | some s =>
    if host.openMem.toInt < 0 then ⟨1, [s.announcement], none, []⟩
    else
      let vaddr := host.mmap s.alignedSize s.alignedPaddr
      if vaddr = 0 then ⟨1, [s.announcement, "Error mapping address\n".toList], none, []⟩
      else s.run host vaddr

/-! ## What is expected -/

/-- An access lies in a window. -/
def Window.Contains (window : Window) (a : Access) : Prop :=
  (a.addr - window.vaddr).toNat + a.size.bytes ≤ window.length.toNat

/-- The mapping holds everything that is accessed: its length is a multiple of the page, it is long
enough in exact arithmetic, and every access of a run lies in the window. -/
structure Maps (argv : List CString) (s : Settings) : Prop where
  pages : 4096 ∣ s.alignedSize.toNat
  covers : s.gPaddr.toNat - s.alignedPaddr.toNat + s.count.toNat * s.size.bytes ≤
    s.alignedSize.toNat
  inside : ∀ host, ∀ a ∈ (main host argv).accesses,
    ∃ window ∈ (main host argv).window, window.Contains a

/-! ## The arithmetic of the window -/

section Arithmetic

variable (s : Settings)

theorem gPaddr_toNat : s.gPaddr.toNat = s.paddr.toNat / s.size.bytes * s.size.bytes := by
  obtain ⟨k, hk, hmask⟩ : ∃ k, s.size.bytes = 2 ^ k ∧ s.gPaddr = alignDown k s.paddr := by
    unfold Settings.gPaddr Settings.gSize
    cases s.size with
    | size8 => exact ⟨0, rfl, rfl⟩
    | size16 => exact ⟨1, rfl, rfl⟩
    | size32 => exact ⟨2, rfl, rfl⟩
  rw [hmask, toNat_alignDown, hk]

/-- The distance of the address from its page. -/
theorem offset_eq : s.gPaddr - s.alignedPaddr = BitVec.ofNat 32 (s.gPaddr.toNat % 4096) := by
  have hoffset : (s.gPaddr - s.alignedPaddr).toNat = s.gPaddr.toNat % 4096 :=
    toNat_sub_alignDown 12 s.gPaddr
  rw [← hoffset, BitVec.ofNat_toNat, BitVec.setWidth_eq]

theorem gPaddr_sub_alignedPaddr :
    s.gPaddr.toNat - s.alignedPaddr.toNat = s.gPaddr.toNat % 4096 := by
  have hdown : s.alignedPaddr.toNat = s.gPaddr.toNat / 4096 * 4096 := toNat_alignDown 12 s.gPaddr
  omega

/-- What is asked for, in exact arithmetic: from the start of the page to the end of the last
element. -/
def Settings.extent : ℕ := s.gPaddr.toNat % 4096 + s.count.toNat * s.size.bytes

theorem alignedSize_eq : s.alignedSize = alignUp 12 (BitVec.ofNat 32 s.extent) := by
  have hextent : s.gPaddr - s.alignedPaddr + s.count * s.gSize = BitVec.ofNat 32 s.extent := by
    rw [offset_eq, Settings.extent, BitVec.ofNat_add, BitVec.ofNat_mul, BitVec.ofNat_toNat,
      BitVec.setWidth_eq]
    rfl
  unfold Settings.alignedSize
  dsimp only
  rw [hextent, BitVec.sub_eq_add_neg, BitVec.add_assoc]
  rfl

/-- **When the length covers what is asked for.** -/
theorem extent_le_iff : s.extent ≤ s.alignedSize.toNat ↔ s.extent ≤ 2 ^ 32 - 4096 := by
  rw [alignedSize_eq]
  exact le_alignUp_iff (by decide) s.extent

end Arithmetic

/-! ## The accesses of a run -/

section Accesses

variable {load : Size → BitVec 32 → BitVec 32} {size : Size} {addr : BitVec 32}

theorem accesses_foldl_readStep (is : List (BitVec 32)) (r : Reading) :
    (is.foldl (readStep load size addr) r).accesses =
      r.accesses ++ is.map fun i => .load size (addr + i * BitVec.ofNat 32 size.bytes) := by
  induction is generalizing r with
  | nil => exact (List.append_nil _).symm
  | cons i is ih =>
    rw [List.foldl_cons, ih, List.map_cons, List.append_cons]
    rfl

/-- **The elements that are read**, one after another. -/
theorem accesses_readMem (count gPaddr : BitVec 32) :
    (readMem load addr count size gPaddr).accesses = (List.range count.toNat).map fun k =>
      .load size (addr + BitVec.ofNat 32 k * BitVec.ofNat 32 size.bytes) := by
  unfold readMem
  dsimp only
  rw [accesses_foldl_readStep, List.map_map]
  rfl

theorem gPaddr_foldl_readStep (is : List (BitVec 32)) (r : Reading) :
    (is.foldl (readStep load size addr) r).gPaddr =
      r.gPaddr + BitVec.ofNat 32 is.length * BitVec.ofNat 32 size.bytes := by
  induction is generalizing r with
  | nil =>
    rw [List.foldl_nil, List.length_nil, BitVec.zero_mul, BitVec.add_zero]
  | cons i is ih =>
    have hstep : (readStep load size addr r i).gPaddr = r.gPaddr + BitVec.ofNat 32 size.bytes := rfl
    rw [List.foldl_cons, ih, hstep, List.length_cons, Nat.add_comm, BitVec.ofNat_add,
      BitVec.add_mul, BitVec.one_mul, BitVec.add_assoc]

/-- **The address printed before an element** is the physical address behind it. -/
theorem gPaddr_before_element (s : Settings) (vaddr : BitVec 32) (k : ℕ) :
    (((List.range k).map (BitVec.ofNat 32)).foldl
        (readStep load s.size (vaddr + (s.gPaddr - s.alignedPaddr))) ⟨s.gPaddr, [], []⟩).gPaddr =
      s.alignedPaddr +
        (vaddr + (s.gPaddr - s.alignedPaddr) + BitVec.ofNat 32 k * s.gSize - vaddr) := by
  rw [gPaddr_foldl_readStep, List.length_map, List.length_range, BitVec.add_assoc vaddr,
    BitVec.add_comm vaddr, BitVec.add_sub_cancel, ← BitVec.add_assoc,
    BitVec.add_comm s.alignedPaddr, BitVec.sub_add_cancel]
  rfl

/-- **The accesses of a run**: each is for one of the elements, counted from the address in the
window. -/
theorem accesses_main {argv : List CString} {s : Settings} {host : Host} {a : Access}
    (hparse : parseCmdline argv = some s) (ha : a ∈ (main host argv).accesses) :
    ∃ vaddr, (main host argv).window = some ⟨vaddr, s.alignedSize⟩ ∧ a.size = s.size ∧
      ∃ k < s.count.toNat,
        a.addr = vaddr + (s.gPaddr - s.alignedPaddr) + BitVec.ofNat 32 k * s.gSize := by
  unfold main at ha ⊢
  rw [hparse] at ha ⊢
  dsimp only at ha ⊢
  split_ifs at ha ⊢ with hopen hmap
  · exact absurd ha List.not_mem_nil
  · exact absurd ha List.not_mem_nil
  unfold Settings.run at ha ⊢
  dsimp only at ha ⊢
  refine ⟨host.mmap s.alignedSize s.alignedPaddr, ?_, ?_⟩
  · split_ifs <;> rfl
  split_ifs at ha with hwrite
  · -- A write is for the first and only element.
    obtain rfl := List.mem_singleton.mp ha
    refine ⟨rfl, 0, ?_, ?_⟩
    · rw [s.single hwrite]
      decide
    · rw [BitVec.zero_mul, BitVec.add_zero]
      rfl
  · rw [accesses_readMem] at ha
    obtain ⟨k, hk, rfl⟩ := List.mem_map.mp ha
    exact ⟨rfl, k, List.mem_range.mp hk, rfl⟩

end Accesses

/-- An element lies in the window if the window is long enough. -/
theorem contains_of_extent_le {s : Settings} {vaddr : BitVec 32} {a : Access} {k : ℕ}
    (hextent : s.extent ≤ s.alignedSize.toNat) (hsize : a.size = s.size) (hk : k < s.count.toNat)
    (haddr : a.addr = vaddr + (s.gPaddr - s.alignedPaddr) + BitVec.ofNat 32 k * s.gSize) :
    Window.Contains ⟨vaddr, s.alignedSize⟩ a := by
  have hlt := s.alignedSize.isLt
  have hstep : (k + 1) * s.size.bytes ≤ s.count.toNat * s.size.bytes := Nat.mul_le_mul_right _ hk
  rw [Nat.succ_mul] at hstep
  have hdistance : a.addr - vaddr = BitVec.ofNat 32 (s.gPaddr.toNat % 4096 + k * s.size.bytes) := by
    rw [haddr, BitVec.add_assoc, BitVec.add_comm vaddr, BitVec.add_sub_cancel, offset_eq,
      BitVec.ofNat_add, BitVec.ofNat_mul]
    rfl
  unfold Settings.extent at hextent
  unfold Window.Contains
  rw [hdistance, hsize, BitVec.toNat_ofNat, Nat.mod_eq_of_lt (by omega)]
  dsimp only
  omega

/-- **When the mapping holds everything that is accessed**: if what is asked for, from the start of
the page on, ends before the last page of the address space. -/
theorem maps_iff {argv : List CString} {s : Settings} (hparse : parseCmdline argv = some s) :
    Maps argv s ↔
      s.paddr.toNat / s.size.bytes * s.size.bytes % 4096 + s.count.toNat * s.size.bytes ≤
        2 ^ 32 - 4096 := by
  have hcovers : s.gPaddr.toNat - s.alignedPaddr.toNat + s.count.toNat * s.size.bytes =
      s.extent := by
    rw [gPaddr_sub_alignedPaddr]
    rfl
  rw [← gPaddr_toNat]
  constructor
  · intro h
    have hextent := h.covers
    rw [hcovers] at hextent
    exact (extent_le_iff s).mp hextent
  · intro h
    have hextent : s.extent ≤ s.alignedSize.toNat := (extent_le_iff s).mpr h
    refine ⟨?_, hcovers ▸ hextent, fun host a ha => ?_⟩
    · rw [alignedSize_eq]
      exact dvd_toNat_alignUp 12 _
    · obtain ⟨vaddr, hwindow, hsize, k, hk, haddr⟩ := accesses_main hparse ha
      rw [hwindow]
      exact ⟨_, rfl, contains_of_extent_le hextent hsize hk haddr⟩

theorem maps_timer_registers :
    ∃ s, parseCmdline ["memtool".toList, "ffd08000".toList, "10".toList] = some s ∧
      Maps ["memtool".toList, "ffd08000".toList, "10".toList] s :=
  ⟨_, rfl, (maps_iff rfl).mpr (by decide)⟩

/-- A read of the whole address space but its first byte maps nothing. -/
theorem not_maps_from_one :
    ∃ s, parseCmdline ["memtool".toList, "-8".toList, "1".toList, "ffffffff".toList] = some s ∧
      s.gPaddr.toNat + s.count.toNat * s.size.bytes ≤ 2 ^ 32 ∧
      ¬ Maps ["memtool".toList, "-8".toList, "1".toList, "ffffffff".toList] s := by
  refine ⟨.read .size8 1 "ffffffff".toList, rfl, by decide, fun hmaps => ?_⟩
  have hcovers := hmaps.covers
  revert hcovers
  decide

end LinuxTest.Memtool
