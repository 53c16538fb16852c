import LinuxTest.Can.Frame
import Mathlib.Algebra.Group.Nat.Even

/-!
# Printing and sending CAN frames

`can_test/utilities/candump.c` prints each frame that it receives, and
`can_test/utilities/cansend.c` sends a frame that is given on the command line. The scripts
`can_tx.sh` and `can_rx.sh` run one at each end of a link. The results of the system calls are
inputs, and an input of `candump` that ends stands for a signal.

Of `candump` the option `--filter` and the loop are modelled, without an output that is a broken
pipe; of `cansend` the frame and the loop.

## Main definitions

* `parseFilter`: the argument of `--filter`
* `dumpLoop`: the loop of `candump`, for the results of `read`
* `Cansend.frame`, `Cansend.sendLoop`: the frame of `cansend`, and its loop

## Main results

* `ok_parseFilter_iff`: which filters are accepted
* `parseFilter_filterText`: a printed filter is read back
* `out_dumpLoop_eq_iff`: what a whole run prints determines what is shown of the frames
* `Cansend.dumpLoop_sendLoop`: from the command line of `cansend` to the output of `candump`
-/

namespace LinuxTest.Can

open Foundations

/-! ## The filter -/

/-- What follows the first colon of a text. -/
def afterColon : CString → Option CString
  | [] => none
  | c :: s => if c = ':' then some s else afterColon s

theorem length_afterColon_lt {s t : CString} (h : afterColon s = some t) :
    t.length < s.length := by
  induction s with
  | nil => exact absurd h nofun
  | cons c s ih =>
    rw [afterColon] at h
    split_ifs at h with hc
    · exact Option.some_inj.mp h ▸ Nat.lt_succ_self s.length
    · exact Nat.lt_succ_of_lt (ih h)

/-- The filters that were added, and whether the program goes on. -/
structure FilterOption where
  filters : List (BitVec 32 × BitVec 32)
  ok : Bool
deriving Repr, DecidableEq

/-- The argument of `--filter`. Without a colon behind an identifier the program ends. -/
def parseFilter (ptr : CString) : FilterOption :=
  let id := (strtoul ptr).value
  match hmask : afterColon ptr with
  | none => ⟨[], false⟩
  | some s =>
    let mask := (strtoul s).value
    match hnext : afterColon s with
    | none => ⟨[(id, mask)], true⟩
    | some t =>
      have : t.length < ptr.length :=
        (length_afterColon_lt hnext).trans (length_afterColon_lt hmask)
      ⟨(id, mask) :: (parseFilter t).filters, (parseFilter t).ok⟩
termination_by ptr.length

section Filter

variable {s t : CString}

theorem parseFilter_of_none (h : afterColon s = none) : parseFilter s = ⟨[], false⟩ := by
  rw [parseFilter]
  split
  · rfl
  · next h' => exact absurd (h.symm.trans h') nofun

theorem parseFilter_of_last (h : afterColon s = some t) (ht : afterColon t = none) :
    parseFilter s = ⟨[((strtoul s).value, (strtoul t).value)], true⟩ := by
  rw [parseFilter]
  split
  · next h' => exact absurd (h.symm.trans h') nofun
  · next t' h' =>
    obtain rfl := Option.some_inj.mp (h.symm.trans h')
    split
    · rfl
    · next h'' => exact absurd (ht.symm.trans h'') nofun

theorem parseFilter_of_some {u : CString} (h : afterColon s = some t)
    (ht : afterColon t = some u) :
    parseFilter s = ⟨((strtoul s).value, (strtoul t).value) :: (parseFilter u).filters,
      (parseFilter u).ok⟩ := by
  rw [parseFilter]
  split
  · next h' => exact absurd (h.symm.trans h') nofun
  · next t' h' =>
    obtain rfl := Option.some_inj.mp (h.symm.trans h')
    split
    · next h'' => exact absurd (ht.symm.trans h'') nofun
    · next u' h'' =>
      obtain rfl := Option.some_inj.mp (ht.symm.trans h'')
      rfl

theorem count_of_afterColon_eq_none (h : afterColon s = none) : s.count ':' = 0 := by
  induction s with
  | nil => rfl
  | cons c s ih =>
    rw [afterColon] at h
    split_ifs at h with hc
    rw [List.count_cons_of_ne hc, ih h]

theorem count_of_afterColon_eq_some (h : afterColon s = some t) :
    s.count ':' = t.count ':' + 1 := by
  induction s with
  | nil => exact absurd h nofun
  | cons c s ih =>
    rw [afterColon] at h
    split_ifs at h with hc
    · rw [hc, List.count_cons_self, Option.some_inj.mp h]
    · rw [List.count_cons_of_ne hc, ih h]

/-- **Which filters are accepted**: those with an odd number of colons. Each pair of an identifier
and a mask before the end was added all the same. -/
theorem ok_parseFilter_iff (s : CString) :
    ((parseFilter s).ok = true ↔ Odd (s.count ':')) ∧
      (parseFilter s).filters.length = (s.count ':' + 1) / 2 := by
  induction hlength : s.length using Nat.strong_induction_on generalizing s with
  | _ n ih =>
    cases hmask : afterColon s with
    | none =>
      rw [parseFilter_of_none hmask, count_of_afterColon_eq_none hmask]
      exact ⟨by decide, rfl⟩
    | some t =>
      have hs := count_of_afterColon_eq_some hmask
      cases hnext : afterColon t with
      | none =>
        rw [parseFilter_of_last hmask hnext, hs, count_of_afterColon_eq_none hnext]
        exact ⟨iff_of_true rfl odd_one, rfl⟩
      | some u =>
        have ht := count_of_afterColon_eq_some hnext
        have hlt := (length_afterColon_lt hnext).trans (length_afterColon_lt hmask)
        obtain ⟨hok, hcount⟩ := ih u.length (hlength ▸ hlt) u rfl
        rw [parseFilter_of_some hmask hnext, hs, ht]
        refine ⟨hok.trans ?_, ?_⟩
        · rw [Nat.odd_iff, Nat.odd_iff]
          omega
        · rw [List.length_cons, hcount]
          omega

theorem afterColon_append (h : ':' ∉ s) : afterColon (s ++ ':' :: t) = some t := by
  induction s with
  | nil => rfl
  | cons c s ih =>
    rw [List.cons_append, afterColon, if_neg (Ne.symm (List.ne_of_not_mem_cons h))]
    exact ih (List.not_mem_of_not_mem_cons h)

theorem afterColon_of_notMem (h : ':' ∉ s) : afterColon s = none := by
  induction s with
  | nil => rfl
  | cons c s ih =>
    rw [afterColon, if_neg (Ne.symm (List.ne_of_not_mem_cons h))]
    exact ih (List.not_mem_of_not_mem_cons h)

/-- An identifier or a mask, as `add_filter` prints it. -/
def filterNumber (x : BitVec 32) : CString := "0x".toList ++ lowerHex 8 x.toNat

/-- The argument for a list of filters. -/
def filterText : List (BitVec 32 × BitVec 32) → CString
  | [] => []
  | [p] => filterNumber p.1 ++ ':' :: filterNumber p.2
  | p :: ps => filterNumber p.1 ++ ':' :: (filterNumber p.2 ++ ':' :: filterText ps)

theorem colon_notMem_filterNumber (x : BitVec 32) : ':' ∉ filterNumber x :=
  List.not_mem_append (by decide) (notMem_lowerHex (by decide) 8 x.toNat)

theorem strtoul_filterNumber (x : BitVec 32) {rest : CString}
    (hrest : StopsAt (isDigitIn 16) rest) :
    (strtoul (filterNumber x ++ rest)).value = x := by
  rw [filterNumber, strtoul_lowerHex_append x.isLt hrest]
  exact (BitVec.ofNat_toNat 32 x).trans (BitVec.setWidth_eq x)

theorem strtoul_filterNumber_colon (x : BitVec 32) (s : CString) :
    (strtoul (filterNumber x ++ ':' :: s)).value = x :=
  strtoul_filterNumber x (stopsAt_cons (by decide) s)

theorem strtoul_filterNumber_nil (x : BitVec 32) : (strtoul (filterNumber x)).value = x := by
  have h : (strtoul (filterNumber x ++ [])).value = x := strtoul_filterNumber x (stopsAt_nil _)
  rwa [List.append_nil] at h

/-- **A printed filter is read back.** -/
theorem parseFilter_filterText (p : BitVec 32 × BitVec 32) (ps : List (BitVec 32 × BitVec 32)) :
    parseFilter (filterText (p :: ps)) = ⟨p :: ps, true⟩ := by
  induction ps generalizing p with
  | nil =>
    rw [filterText, parseFilter_of_last (afterColon_append (colon_notMem_filterNumber p.1))
      (afterColon_of_notMem (colon_notMem_filterNumber p.2)), strtoul_filterNumber_colon,
      strtoul_filterNumber_nil]
  | cons q ps ih =>
    rw [filterText, parseFilter_of_some (afterColon_append (colon_notMem_filterNumber p.1))
      (afterColon_append (colon_notMem_filterNumber p.2)), strtoul_filterNumber_colon,
      strtoul_filterNumber_colon, ih q]
    exact nofun

end Filter

/-! ## The output of `candump` -/

/-- The result of `read`: a frame, less than one, or an error; with the text of `errno`. -/
inductive DumpRead where
  | frame (f : Frame)
  | short (error : CString)
  | failed (error : CString)
deriving DecidableEq

/-- The count of the frames, and what was printed. -/
structure Dump where
  receiveCnt : BitVec 32
  out : CString
deriving Repr, DecidableEq

/-- The variables before the loop. -/
def Dump.start : Dump := ⟨0, []⟩

/-- The end of `candump`. -/
structure DumpExit where
  status : ℕ
  stderr : List CString
  dump : Dump
deriving Repr, DecidableEq

/-- The loop of `candump`, for the results of `read`. -/
def dumpLoop (silent : Bool) : Dump → List DumpRead → Option DumpExit
  | d, [] => some ⟨0, [], d⟩
  | d, .failed error :: _ => some ⟨1, [perror "read".toList error], d⟩
  | d, .short error :: _ => some ⟨2, [perror "read".toList error], d⟩
  | d, .frame f :: xs =>
    if silent then dumpLoop silent ⟨d.receiveCnt + 1, d.out⟩ xs
    else (dumpLine f).bind fun line =>
      dumpLoop silent ⟨d.receiveCnt + 1, d.out ++ (line ++ ['\n'])⟩ xs

section Output

variable {fs gs : List Frame}

/-- A run over valid frames prints a line for each of them. -/
theorem dumpLoop_of_valid (hfs : ∀ f ∈ fs, f.Valid) (d : Dump) :
    dumpLoop false d (fs.map .frame) =
      some ⟨0, [], ⟨d.receiveCnt + BitVec.ofNat 32 fs.length,
        d.out ++ fs.flatMap fun f => f.line ++ ['\n']⟩⟩ := by
  induction fs generalizing d with
  | nil => simp [dumpLoop]
  | cons f fs ih =>
    have hrest := ih (fun g hg => hfs g (List.mem_cons_of_mem f hg))
      ⟨d.receiveCnt + 1, d.out ++ (f.line ++ ['\n'])⟩
    have hcount : d.receiveCnt + BitVec.ofNat 32 (fs.length + 1) =
        d.receiveCnt + 1 + BitVec.ofNat 32 fs.length := by
      rw [Nat.add_comm, BitVec.ofNat_add, BitVec.add_assoc]
      rfl
    rw [List.map_cons, dumpLoop, if_neg Bool.false_ne_true,
      dumpLine_of_valid (hfs f List.mem_cons_self), Option.bind_some, hrest, List.length_cons,
      hcount, List.flatMap_cons, List.append_assoc]

theorem map_line_eq_iff (hfs : ∀ f ∈ fs, f.Valid) (hgs : ∀ g ∈ gs, g.Valid) :
    fs.map Frame.line = gs.map Frame.line ↔ fs.map Frame.shown = gs.map Frame.shown := by
  induction fs generalizing gs with
  | nil =>
    cases gs with
    | nil => exact iff_of_true rfl rfl
    | cons g gs => exact iff_of_false nofun nofun
  | cons f fs ih =>
    cases gs with
    | nil => exact iff_of_false nofun nofun
    | cons g gs =>
      rw [List.map_cons, List.map_cons, List.map_cons, List.map_cons, List.cons.injEq,
        List.cons.injEq, line_eq_iff (hfs f List.mem_cons_self) (hgs g List.mem_cons_self),
        ih (fun f' hf' => hfs f' (List.mem_cons_of_mem f hf'))
          (fun g' hg' => hgs g' (List.mem_cons_of_mem g hg'))]

/-- **What a whole run prints** determines what is shown of each frame, and their order. -/
theorem out_dumpLoop_eq_iff (hfs : ∀ f ∈ fs, f.Valid) (hgs : ∀ g ∈ gs, g.Valid) :
    (dumpLoop false .start (fs.map .frame)).map (·.dump.out) =
        (dumpLoop false .start (gs.map .frame)).map (·.dump.out) ↔
      fs.map Frame.shown = gs.map Frame.shown := by
  rw [dumpLoop_of_valid hfs, dumpLoop_of_valid hgs, Option.map_some, Option.map_some,
    Option.some_inj]
  exact (flatMap_delimiter_inj newline_notMem_line).trans (map_line_eq_iff hfs hgs)

/-- A standard frame of two bytes, an extended one of one byte, and a remote frame. -/
def threeKinds : List Frame :=
  [⟨0x123, 2, fun i => BitVec.ofNat 8 i.val⟩, ⟨0x80012345, 1, fun _ => 0xab⟩,
    ⟨0x40000456, 3, fun _ => 0⟩]

/-- The same frames with other bits where nothing is shown: in the identifier of a standard frame,
and behind the data. -/
def threeKindsHidden : List Frame :=
  [⟨0x923, 2, fun i => if i.val < 2 then BitVec.ofNat 8 i.val else 0xff⟩,
    ⟨0x80012345, 1, fun i => if i.val = 0 then 0xab else 0x55⟩,
    ⟨0x40000456, 3, fun i => if i.val < 3 then 0 else 7⟩]

/-- Bits that are not shown make no difference. -/
theorem out_dumpLoop_eq_iff_hidden :
    (dumpLoop false .start (threeKinds.map .frame)).map (·.dump.out) =
      (dumpLoop false .start (threeKindsHidden.map .frame)).map (·.dump.out) :=
  (out_dumpLoop_eq_iff (by decide) (by decide)).mpr (by decide)

end Output

/-! ## The frames of `cansend` -/

/-- The options of `cansend`, and the arguments behind the interface. -/
structure Cansend where
  identifier : BitVec 32
  extended : Bool
  rtr : Bool
  loopcount : BitVec 32
  args : List CString
deriving Repr, DecidableEq

namespace Cansend

/-- The loop over the arguments: the number of bytes, and the data. -/
def fillData : List CString → ℕ → (Fin 8 → BitVec 8) → ℕ × (Fin 8 → BitVec 8)
  | [], dlc, data => (dlc, data)
  | arg :: args, dlc, data =>
    let data := Function.update data (Fin.ofNat 8 dlc) ((strtoul arg).value.setWidth 8)
    if dlc + 1 = 8 then (dlc + 1, data) else fillData args (dlc + 1) data

/-- The frame that is sent. -/
def frame (o : Cansend) : Frame :=
  let filled := fillData o.args 0 fun _ => 0
  let canId := if o.extended then o.identifier &&& canEffMask ||| canEffFlag
    else o.identifier &&& canSffMask
  ⟨if o.rtr then canId ||| canRtrFlag else canId, BitVec.ofNat 8 filled.1, filled.2⟩

/-- The loop of `cansend`, for the results of `write`: the frames that were sent, and the message.
The program succeeds in any case. -/
def sendLoop (f : Frame) : ℕ → List (Option CString) → List Frame × List CString
  | 0, _ => ([], [])
  | _, [] => ([], [])
  | n + 1, none :: rs => (f :: (sendLoop f n rs).1, (sendLoop f n rs).2)
  | _ + 1, some error :: _ => ([], [perror "write".toList error])

section Frames

/-- The loop over the arguments puts up to eight bytes behind those that are there. -/
theorem fillData_spec {dlc : ℕ} (hdlc : dlc < 8) (args : List CString) (data : Fin 8 → BitVec 8) :
    (fillData args dlc data).1 ≤ 8 ∧
      (List.range (fillData args dlc data).1).map
          (fun i => (fillData args dlc data).2 (Fin.ofNat 8 i)) =
        (List.range dlc).map (fun i => data (Fin.ofNat 8 i)) ++
          (args.take (8 - dlc)).map fun arg => (strtoul arg).value.setWidth 8 := by
  induction args generalizing dlc data with
  | nil => exact ⟨hdlc.le, by simp [fillData]⟩
  | cons arg args ih =>
    let data' := Function.update data (Fin.ofNat 8 dlc) ((strtoul arg).value.setWidth 8)
    -- The byte is put behind the others, which stay as they are.
    have hstep : (List.range (dlc + 1)).map (fun i => data' (Fin.ofNat 8 i)) =
        (List.range dlc).map (fun i => data (Fin.ofNat 8 i)) ++
          [(strtoul arg).value.setWidth 8] := by
      rw [List.range_succ, List.map_append, List.map_singleton]
      refine congrArg₂ (· ++ ·) (List.map_congr_left fun i hi => ?_) ?_
      · have hlt := List.mem_range.mp hi
        have hne : Fin.ofNat 8 i ≠ Fin.ofNat 8 dlc := by
          intro heq
          have hval : i % 8 = dlc % 8 := congrArg Fin.val heq
          omega
        exact Function.update_of_ne hne _ data
      · exact congrArg (· :: []) (Function.update_self ..)
    have htake : (arg :: args).take (8 - dlc) = arg :: args.take (8 - (dlc + 1)) := by
      rw [show 8 - dlc = 8 - (dlc + 1) + 1 by omega, List.take_succ_cons]
    rw [htake, List.map_cons, List.append_cons, ← hstep]
    by_cases hlast : dlc + 1 = 8
    · have hfill : fillData (arg :: args) dlc data = (dlc + 1, data') := if_pos hlast
      rw [hfill, hlast, Nat.sub_self, List.take_zero, List.map_nil, List.append_nil]
      exact ⟨le_rfl, rfl⟩
    · have hfill : fillData (arg :: args) dlc data = fillData args (dlc + 1) data' := if_neg hlast
      rw [hfill]
      exact ih (by omega) data'

theorem canDlc_frame (o : Cansend) :
    o.frame.canDlc.toNat = (fillData o.args 0 fun _ => 0).1 := by
  have hle := (fillData_spec (Nat.zero_lt_succ 7) o.args fun _ => 0).1
  exact Nat.mod_eq_of_lt (Nat.lt_of_le_of_lt hle (by decide))

theorem valid_frame (o : Cansend) : o.frame.Valid := by
  rw [Frame.Valid, canDlc_frame]
  exact (fillData_spec (Nat.zero_lt_succ 7) o.args fun _ => 0).1

/-- **The bytes that are sent** are the first eight arguments. -/
theorem bytes_frame (o : Cansend) :
    o.frame.bytes = (o.args.take 8).map fun arg => (strtoul arg).value.setWidth 8 := by
  rw [Frame.bytes_of_valid o.valid_frame, canDlc_frame]
  exact (fillData_spec (Nat.zero_lt_succ 7) o.args fun _ => 0).2

theorem canId_frame (o : Cansend) :
    o.frame.canId = o.identifier &&& (if o.extended then canEffMask else canSffMask) |||
      (if o.extended then canEffFlag else 0) ||| if o.rtr then canRtrFlag else 0 := by
  unfold frame
  cases o.extended <;> cases o.rtr <;> simp

/-- A part of the identifier is the part of each of its pieces. -/
theorem canId_frame_and (o : Cansend) (part : BitVec 32) :
    o.frame.canId &&& part =
      o.identifier &&& ((if o.extended then canEffMask else canSffMask) &&& part) |||
        (if o.extended then canEffFlag else 0) &&& part |||
          (if o.rtr then canRtrFlag else 0) &&& part := by
  rw [canId_frame, BitVec.and_or_distrib_right, BitVec.and_or_distrib_right, BitVec.and_assoc]

theorem extended_frame (o : Cansend) : o.frame.extended = o.extended := by
  have hmask : (if o.extended then canEffMask else canSffMask) &&& canEffFlag = 0 := by
    cases o.extended <;> decide
  have hrtr : (if o.rtr then canRtrFlag else 0) &&& canEffFlag = 0 := by
    cases o.rtr <;> decide
  rw [Frame.extended, canId_frame_and, hmask, hrtr]
  cases o.extended <;> simp [canEffFlag]

theorem remote_frame (o : Cansend) : o.frame.remote = o.rtr := by
  have hmask : (if o.extended then canEffMask else canSffMask) &&& canRtrFlag = 0 := by
    cases o.extended <;> decide
  have hflag : (if o.extended then canEffFlag else 0) &&& canRtrFlag = 0 := by
    cases o.extended <;> decide
  rw [Frame.remote, canId_frame_and, hmask, hflag]
  cases o.rtr <;> simp [canRtrFlag]

theorem identifier_frame (o : Cansend) :
    o.frame.identifier = o.identifier &&& if o.extended then canEffMask else canSffMask := by
  have hflag : (if o.extended then canEffFlag else 0) &&&
      (if o.extended then canEffMask else canSffMask) = 0 := by
    cases o.extended <;> decide
  have hrtr : (if o.rtr then canRtrFlag else 0) &&&
      (if o.extended then canEffMask else canSffMask) = 0 := by
    cases o.extended <;> cases o.rtr <;> decide
  rw [Frame.identifier, extended_frame, canId_frame_and, hflag, hrtr, BitVec.and_self]
  simp

theorem sendLoop_eq (f : Frame) (n : ℕ) (rs : List (Option CString)) :
    (sendLoop f n rs).1 = List.replicate (min n (rs.takeWhile Option.isNone).length) f := by
  induction rs generalizing n with
  | nil => cases n <;> simp [sendLoop]
  | cons r rs ih =>
    cases n with
    | zero => simp [sendLoop]
    | succ n =>
      cases r with
      | none =>
        rw [sendLoop, ih n, List.takeWhile_cons_of_pos rfl, List.length_cons,
          Nat.succ_min_succ, List.replicate_succ]
      | some error => simp [sendLoop]

/-- A byte on the command line. -/
def byteArgument (b : BitVec 8) : CString := "0x".toList ++ lowerHex 2 b.toNat

theorem strtoul_byteArgument (b : BitVec 8) :
    (strtoul (byteArgument b)).value.setWidth 8 = b := by
  have hread : strtoul ("0x".toList ++ lowerHex 2 b.toNat ++ []) = ⟨_, [], false⟩ :=
    strtoul_lowerHex_append (b.isLt.trans (by decide)) nofun
  rw [List.append_nil] at hread
  rw [byteArgument, hread]
  exact BitVec.eq_of_toNat_eq (by simp)

/-- **From the command line of `cansend` to the output of `candump`**: for each call of `write` that
succeeded, one line with the options and up to eight of the bytes. -/
theorem dumpLoop_sendLoop (o : Cansend) (bytes : List (BitVec 8))
    (hargs : o.args = bytes.map byteArgument) (rs : List (Option CString)) :
    let mask := if o.extended then canEffMask else canSffMask
    let line := "<0x".toList ++
      lowerHex (if o.extended then 8 else 3) (o.identifier &&& mask).toNat ++ "> [".toList ++
      decimal (bytes.take 8).length ++ "] ".toList ++ (bytes.take 8).flatMap byteText ++
      if o.rtr then "remote request".toList else []
    let sent := min o.loopcount.toNat (rs.takeWhile Option.isNone).length
    dumpLoop false .start ((sendLoop o.frame o.loopcount.toNat rs).1.map .frame) =
      some ⟨0, [], ⟨BitVec.ofNat 32 sent, (List.replicate sent (line ++ ['\n'])).flatten⟩⟩ := by
  intro mask line sent
  have hbytes : o.frame.bytes = bytes.take 8 := by
    rw [bytes_frame, hargs, List.map_take, List.map_map]
    refine congrArg (List.take 8) (List.map_id'' ?_ bytes)
    exact strtoul_byteArgument
  have hline : o.frame.line = line := by
    rw [Frame.line_eq, extended_frame, identifier_frame, ← length_bytes o.valid_frame, hbytes,
      remoteText, remote_frame]
    simp only [line, mask, List.append_assoc]
    rfl
  have hsent : (sendLoop o.frame o.loopcount.toNat rs).1 = List.replicate sent o.frame :=
    sendLoop_eq o.frame o.loopcount.toNat rs
  have hvalid : ∀ f ∈ List.replicate sent o.frame, f.Valid :=
    fun f hf => List.eq_of_mem_replicate hf ▸ o.valid_frame
  rw [hsent, dumpLoop_of_valid hvalid, List.length_replicate, List.flatMap_replicate, hline]
  simp [Dump.start]

/-- The frame of `can_tx.sh`. -/
theorem dumpLoop_sendLoop_can_tx :
    let bytes : List (BitVec 8) := [0x11, 0x22, 0x33, 0x44, 0x55, 0x66, 0x77, 0x88]
    dumpLoop false .start
        ((sendLoop (frame ⟨0x123, false, false, 1, bytes.map byteArgument⟩) 1 [none]).1.map
          .frame) =
      some ⟨0, [], ⟨1, "<0x123> [8] 11 22 33 44 55 66 77 88 \n".toList⟩⟩ :=
  dumpLoop_sendLoop
    ⟨0x123, false, false, 1, [0x11, 0x22, 0x33, 0x44, 0x55, 0x66, 0x77, 0x88].map byteArgument⟩
    [0x11, 0x22, 0x33, 0x44, 0x55, 0x66, 0x77, 0x88] rfl [none]

end Frames

end Cansend

end LinuxTest.Can
