import LinuxTest.Strtoul

/-!
# CAN frames and their text

The structure `can_frame`, and the line that `candump` prints for a frame. The line is put together
in a buffer by calls of `snprintf`; one that starts behind the end of the buffer, or a byte that is
read behind the data of the frame, has no result. A frame of the kernel has at most eight bytes.

## Main definitions

* `Frame`, `Frame.Valid`: a frame, and that it has at most eight bytes
* `Line.snprintf`: text is put behind what is in the buffer
* `Frame.line`, `dumpLine`: the line for a frame, and how it is put together
* `Frame.shown`: the parts of a frame that are printed

## Main results

* `dumpLine_of_valid`: the line is never cut off
* `isSome_dumpLine_iff`: only a valid frame has a line
* `line_eq_iff`: the line determines what is printed of a frame
-/

namespace LinuxTest.Can

open Foundations

/-! ## Frames -/

/-- The structure `can_frame`. -/
structure Frame where
  canId : BitVec 32
  canDlc : BitVec 8
  data : Fin 8 → BitVec 8
deriving DecidableEq

/-- The macro `CAN_SFF_MASK`. -/
def canSffMask : BitVec 32 := 0x7FF

/-- The macro `CAN_EFF_MASK`. -/
def canEffMask : BitVec 32 := 0x1FFFFFFF

/-- The macro `CAN_EFF_FLAG`. -/
def canEffFlag : BitVec 32 := 0x80000000

/-- The macro `CAN_RTR_FLAG`. -/
def canRtrFlag : BitVec 32 := 0x40000000

namespace Frame

variable (f : Frame)

/-- The frame has no more bytes than its data holds. -/
def Valid : Prop := f.canDlc.toNat ≤ 8

instance : Decidable f.Valid := inferInstanceAs (Decidable (f.canDlc.toNat ≤ 8))

/-- A byte of the data. -/
def byte? (i : ℕ) : Option (BitVec 8) := if h : i < 8 then some (f.data ⟨i, h⟩) else none

theorem data_pos : 0 < 8 := by decide

/-- The byte `data[0]`. -/
def first : BitVec 8 := f.data ⟨0, data_pos⟩

/-- The frame has an extended identifier. -/
def extended : Bool := f.canId &&& canEffFlag ≠ 0

/-- The identifier without the flags. -/
def identifier : BitVec 32 := f.canId &&& if f.extended then canEffMask else canSffMask

/-- The frame asks for data. -/
def remote : Bool := f.canId &&& canRtrFlag ≠ 0

/-- The bytes of the frame. -/
def bytes : List (BitVec 8) := (List.range f.canDlc.toNat).filterMap f.byte?

/-- What is printed of a frame. -/
def shown : Bool × BitVec 32 × List (BitVec 8) × Bool :=
  (f.extended, f.identifier, f.bytes, f.remote)

end Frame

/-! ## The line of a frame -/

/-- The macro `BUF_SIZ`. -/
def bufSiz : ℕ := 255

/-- The buffer up to its terminator, and the sum `n` of what `snprintf` returned. -/
structure Line where
  buf : CString
  n : ℕ

/-- The call `n += snprintf(buf + n, BUF_SIZ - n, ..)`. -/
def Line.snprintf (l : Line) (text : CString) : Option Line :=
  if bufSiz < l.n then none
  else some ⟨l.buf.take l.n ++ text.take (bufSiz - l.n - 1), l.n + text.length⟩

/-- The identifier is printed with eight digits or with three. -/
def identifierText (f : Frame) : CString :=
  if f.extended then "<0x".toList ++ lowerHex 8 (f.canId &&& canEffMask).toNat ++ "> ".toList
  else "<0x".toList ++ lowerHex 3 (f.canId &&& canSffMask).toNat ++ "> ".toList

/-- The text of a byte. -/
def byteText (b : BitVec 8) : CString := lowerHex 2 b.toNat ++ [' ']

/-- The text of the number of bytes. -/
def dlcText (f : Frame) : CString := "[".toList ++ decimal f.canDlc.toNat ++ "] ".toList

/-- The text behind the bytes. -/
def remoteText (f : Frame) : CString := if f.remote then "remote request".toList else []

/-- A byte is put behind what is in the buffer. -/
def Frame.printByte (f : Frame) (l : Line) (i : ℕ) : Option Line :=
  (f.byte? i).bind fun b => l.snprintf (byteText b)

/-- The end of the line. -/
def Frame.printRemote (f : Frame) (l : Line) : Option Line :=
  if f.remote then l.snprintf "remote request".toList else some l

/-- The text of a frame. -/
def Frame.line (f : Frame) : CString :=
  identifierText f ++ dlcText f ++ f.bytes.flatMap byteText ++ remoteText f

/-- The line that is printed for a frame. -/
def dumpLine (f : Frame) : Option CString := do
  let l ← Line.snprintf ⟨[], 0⟩ (identifierText f)
  let l ← l.snprintf (dlcText f)
  let l ← (List.range f.canDlc.toNat).foldlM f.printByte l
  let l ← f.printRemote l
  return l.buf

example : dumpLine ⟨0x123, 2, fun i => if i = 0 then 0x11 else 0xab⟩ =
    some "<0x123> [2] 11 ab ".toList := by decide

section Printing

variable {f g : Frame}

theorem snprintf_of_fits {s t : CString} (h : s.length + t.length < bufSiz) :
    Line.snprintf ⟨s, s.length⟩ t = some ⟨s ++ t, (s ++ t).length⟩ := by
  have hn : ¬ bufSiz < s.length := by omega
  have htext : t.take (bufSiz - s.length - 1) = t := List.take_of_length_le (by omega)
  rw [Line.snprintf, if_neg hn, List.take_length, htext, List.length_append]

theorem length_byteText (b : BitVec 8) : (byteText b).length = 3 := by
  rw [byteText, List.length_append, length_lowerHex (by decide) b.isLt]
  rfl

theorem identifierText_eq (f : Frame) :
    identifierText f = "<0x".toList ++ lowerHex (if f.extended then 8 else 3) f.identifier.toNat ++
      "> ".toList := by
  unfold identifierText Frame.identifier
  split_ifs <;> rfl

theorem toNat_and_lt (x : BitVec 32) {mask : BitVec 32} {n : ℕ} (h : mask.toNat < n) :
    (x &&& mask).toNat < n := by
  rw [BitVec.toNat_and]
  exact Nat.lt_of_le_of_lt Nat.and_le_right h

theorem length_identifierDigits (f : Frame) :
    (lowerHex (if f.extended then 8 else 3) f.identifier.toNat).length =
      if f.extended then 8 else 3 := by
  unfold Frame.identifier
  split_ifs
  · exact length_lowerHex (by decide) (toNat_and_lt f.canId (by decide))
  · exact length_lowerHex (by decide) (toNat_and_lt f.canId (by decide))

theorem Frame.byte?_of_lt {i : ℕ} (h : i < 8) : f.byte? i = some (f.data ⟨i, h⟩) := dif_pos h

theorem Frame.byte?_eight (f : Frame) : f.byte? 8 = none := rfl

/-- The bytes are put behind what is in the buffer. -/
theorem foldlM_byteText {is : List ℕ} (his : ∀ i ∈ is, i < 8) {s : CString}
    (h : s.length + 3 * is.length < bufSiz) :
    is.foldlM f.printByte ⟨s, s.length⟩ =
      some ⟨s ++ (is.filterMap f.byte?).flatMap byteText,
        (s ++ (is.filterMap f.byte?).flatMap byteText).length⟩ := by
  induction is generalizing s with
  | nil => simp
  | cons i is ih =>
    have hbyte := f.byte?_of_lt (his i List.mem_cons_self)
    have hlength := length_byteText (f.data ⟨i, his i List.mem_cons_self⟩)
    rw [List.length_cons] at h
    have hfits := snprintf_of_fits (s := s) (t := byteText (f.data ⟨i, his i List.mem_cons_self⟩))
      (by omega)
    have hrest := ih (s := s ++ byteText (f.data ⟨i, his i List.mem_cons_self⟩))
      (fun k hk => his k (List.mem_cons_of_mem i hk)) (by rw [List.length_append]; omega)
    rw [List.filterMap_cons_some hbyte, List.flatMap_cons, ← List.append_assoc]
    rw [List.foldlM_cons, Frame.printByte, hbyte, Option.bind_some, hfits]
    exact hrest

/-- A byte behind the data is not printed. -/
theorem foldlM_byteText_eq_none {is : List ℕ} (h : 8 ∈ is) (l : Line) :
    is.foldlM f.printByte l = none := by
  induction is generalizing l with
  | nil => exact absurd h List.not_mem_nil
  | cons i is ih =>
    rw [List.foldlM_cons]
    by_cases hi : i = 8
    · rw [hi, Frame.printByte, f.byte?_eight]
      rfl
    · cases hline : f.printByte l i with
      | none => rfl
      | some l' => exact ih ((List.mem_cons.mp h).resolve_left (Ne.symm hi)) l'

/-- The length of the text before the bytes. -/
theorem length_header_le (hf : f.Valid) : (identifierText f ++ dlcText f).length ≤ 17 := by
  have hdlc : (decimal f.canDlc.toNat).length ≤ 1 := by
    rw [decimal_natCast]
    exact (Nat.length_toDigits_le_iff (by decide) (by decide)).mpr
      (Nat.lt_of_le_of_lt hf (by decide))
  have hdigits := length_identifierDigits f
  have hwidth : (if f.extended = true then 8 else 3) ≤ 8 := by split_ifs <;> decide
  have hopen : "<0x".toList.length = 3 := rfl
  have hclose : "> ".toList.length = 2 := rfl
  have hbracket : "[".toList.length = 1 := rfl
  have hend : "] ".toList.length = 2 := rfl
  rw [identifierText_eq, dlcText]
  simp only [List.length_append, hdigits, hopen, hclose, hbracket, hend]
  omega

/-- **The line of a frame** is not cut off. -/
theorem dumpLine_of_valid (hf : f.Valid) :
    dumpLine f = some f.line := by
  have hheader := length_header_le hf
  rw [List.length_append] at hheader
  have hbytes : ∀ i ∈ List.range f.canDlc.toNat, i < 8 :=
    fun i hi => Nat.lt_of_lt_of_le (List.mem_range.mp hi) hf
  have hdlc : (List.range f.canDlc.toNat).length ≤ 8 := List.length_range.le.trans hf
  have hflat : (f.bytes.flatMap byteText).length ≤ 24 := by
    have hcount : f.bytes.length ≤ 8 := (List.length_filterMap_le f.byte? _).trans hdlc
    rw [List.length_flatMap, List.map_congr_left fun b _ => length_byteText b, List.map_const']
    simp only [List.sum_replicate_nat]
    omega
  have hsiz : bufSiz = 255 := rfl
  have hfirst : Line.snprintf ⟨[], 0⟩ (identifierText f) =
      some ⟨identifierText f, (identifierText f).length⟩ :=
    snprintf_of_fits (s := []) (by simp only [List.length_nil]; omega)
  have hsecond := snprintf_of_fits (s := identifierText f) (t := dlcText f) (by omega)
  have hthird := foldlM_byteText (f := f) hbytes (s := identifierText f ++ dlcText f)
    (by rw [List.length_append]; omega)
  have hlast : f.printRemote ⟨identifierText f ++ dlcText f ++ f.bytes.flatMap byteText,
        (identifierText f ++ dlcText f ++ f.bytes.flatMap byteText).length⟩ =
      some ⟨identifierText f ++ dlcText f ++ f.bytes.flatMap byteText ++ remoteText f,
        (identifierText f ++ dlcText f ++ f.bytes.flatMap byteText ++ remoteText f).length⟩ := by
    have hremote : "remote request".toList.length = 14 := rfl
    unfold remoteText Frame.printRemote
    split_ifs
    · exact snprintf_of_fits (by simp only [List.length_append, hremote]; omega)
    · rw [List.append_nil]
  rw [← Frame.bytes] at hthird
  simp only [dumpLine, hfirst, hsecond, hthird, hlast, Option.bind_eq_bind, Option.bind_some,
    Option.pure_def, Frame.line]

/-- **Only a valid frame has a line.** -/
theorem isSome_dumpLine_iff (f : Frame) : (dumpLine f).isSome = true ↔ f.Valid := by
  constructor
  · intro h
    by_contra hf
    have height : 8 ∈ List.range f.canDlc.toNat := List.mem_range.mpr (Nat.lt_of_not_le hf)
    have hnone : dumpLine f = none := by
      simp only [dumpLine, foldlM_byteText_eq_none height, Option.bind_eq_bind, Option.bind_none,
        Option.bind_fun_none]
    rw [hnone] at h
    exact Bool.false_ne_true h
  · intro hf
    rw [dumpLine_of_valid hf]
    rfl

theorem Frame.bytes_of_valid (hf : f.Valid) :
    f.bytes = (List.range f.canDlc.toNat).map fun i => f.data (Fin.ofNat 8 i) := by
  have hbyte : ∀ i ∈ List.range f.canDlc.toNat, f.byte? i = some (f.data (Fin.ofNat 8 i)) := by
    intro i hi
    have hlt : i < 8 := Nat.lt_of_lt_of_le (List.mem_range.mp hi) hf
    rw [f.byte?_of_lt hlt]
    exact congrArg (fun k => some (f.data k)) (Fin.ext (Nat.mod_eq_of_lt hlt).symm)
  rw [Frame.bytes, List.filterMap_congr hbyte]
  exact congrFun List.filterMap_eq_map' _

theorem length_bytes (hf : f.Valid) : f.bytes.length = f.canDlc.toNat := by
  rw [f.bytes_of_valid hf, List.length_map, List.length_range]

/-- The line with its delimiters. -/
theorem Frame.line_eq (f : Frame) :
    f.line =
      '<' :: '0' :: 'x' :: (lowerHex (if f.extended then 8 else 3) f.identifier.toNat ++
        '>' :: ' ' :: '[' :: (decimal f.canDlc.toNat ++
          ']' :: ' ' :: (f.bytes.flatMap byteText ++ remoteText f))) := by
  rw [Frame.line, identifierText_eq, dlcText]
  simp only [List.append_assoc]
  rfl

theorem remoteText_inj : remoteText f = remoteText g ↔ f.remote = g.remote := by
  unfold remoteText
  cases f.remote <;> cases g.remote <;> decide

theorem identifierDigits_inj
    (h : lowerHex (if f.extended then 8 else 3) f.identifier.toNat =
      lowerHex (if g.extended then 8 else 3) g.identifier.toNat) :
    f.extended = g.extended ∧ f.identifier = g.identifier := by
  -- The number of digits tells the two kinds of identifiers apart.
  have hlength := congrArg List.length h
  rw [length_identifierDigits, length_identifierDigits] at hlength
  have hextended : f.extended = g.extended := by
    revert hlength
    cases f.extended <;> cases g.extended <;> decide
  rw [hextended] at h
  exact ⟨hextended, BitVec.eq_of_toNat_eq (lowerHex_injective _ h)⟩

/-- **The line determines what is printed of a frame.** -/
theorem line_eq_iff (hf : f.Valid) (hg : g.Valid) : f.line = g.line ↔ f.shown = g.shown := by
  have hhex (width n : ℕ) : '>' ∉ lowerHex width n := notMem_lowerHex (by decide) width n
  have hdecimal (n : ℕ) : ']' ∉ decimal n := by
    rw [decimal_natCast]
    exact notMem_toDigits (by decide) n
  have hbyte (b : BitVec 8) : ' ' ∉ lowerHex 2 b.toNat := notMem_lowerHex (by decide) 2 b.toNat
  constructor
  · intro h
    rw [f.line_eq, g.line_eq, List.cons.injEq, List.cons.injEq, List.cons.injEq] at h
    obtain ⟨-, -, -, h⟩ := h
    obtain ⟨hdigits, h⟩ := (append_delimiter_inj (hhex _ _) (hhex _ _)).mp h
    rw [List.cons.injEq, List.cons.injEq] at h
    obtain ⟨-, -, h⟩ := h
    obtain ⟨hdlc, h⟩ := (append_delimiter_inj (hdecimal _) (hdecimal _)).mp h
    have hlength : f.bytes.length = g.bytes.length := by
      rw [length_bytes hf, length_bytes hg]
      exact Int.ofNat_inj.mp (decimal_injective hdlc)
    obtain ⟨hbytes, hremote⟩ :=
      (flatMap_delimiter_append_inj hbyte hlength).mp (List.cons.inj h).2
    have hinj : Function.Injective fun b : BitVec 8 => lowerHex 2 b.toNat :=
      (lowerHex_injective 2).comp fun a b => BitVec.eq_of_toNat_eq
    obtain ⟨hextended, hidentifier⟩ := identifierDigits_inj hdigits
    rw [Frame.shown, Frame.shown, hextended, hidentifier,
      List.map_injective_iff.mpr hinj hbytes, remoteText_inj.mp hremote]
  · intro h
    simp only [Frame.shown, Prod.mk.injEq] at h
    obtain ⟨hextended, hidentifier, hbytes, hremote⟩ := h
    have hdlc : f.canDlc.toNat = g.canDlc.toNat := by
      rw [← length_bytes hf, ← length_bytes hg, hbytes]
    rw [f.line_eq, g.line_eq, hextended, hidentifier, hbytes, hdlc, remoteText_inj.mpr hremote]

theorem newline_notMem_line (f : Frame) : '\n' ∉ f.line := by
  have hhex (width n : ℕ) : '\n' ∉ lowerHex width n := notMem_lowerHex (by decide) width n
  have hdecimal : '\n' ∉ decimal f.canDlc.toNat := by
    rw [decimal_natCast]
    exact notMem_toDigits (by decide) _
  have hbytes : '\n' ∉ f.bytes.flatMap byteText := by
    intro hmem
    obtain ⟨b, -, hb⟩ := List.mem_flatMap.mp hmem
    exact List.not_mem_append (hhex 2 b.toNat) (by decide) hb
  have hremote : '\n' ∉ remoteText f := by
    unfold remoteText
    split_ifs <;> decide
  rw [f.line_eq]
  simp [hhex, hdecimal, hbytes, hremote]

end Printing

end LinuxTest.Can
