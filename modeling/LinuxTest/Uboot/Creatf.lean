import LinuxTest.Libc
import LinuxTest.Uboot.Myrand
import Mathlib.Data.List.Perm.Basic
import Mathlib.Data.List.Range

/-!
# The host generator of transfer images

`main` of `preloader-uboot/host-tools/creatf.c`, which writes an image for the transfer test of the
board: the size and the seed as little-endian words, then one byte per draw of the generator. The
file system is a parameter: whether the file opens, and how many bytes each `fwrite` takes.

## Main definitions

* `Host`: the file system
* `Message`, `Message.text`: what is printed
* `main`: the program
* `payload seed fsize`: the bytes of the loop when every write succeeds

## Main results

* `main_file`: what an undisturbed run writes
* `payload_eq_iff`, `payload_window_perm`: the payload repeats exactly every 256 bytes, and every
  256 consecutive bytes are all byte values
* `myrand_stream`: the structure of the stream at every width
-/

namespace LinuxTest.Uboot.Creatf

open Foundations

/-- The file system, as far as the program depends on it. -/
structure Host where
  /-- Whether the file opens for writing. -/
  fopen : CString → Bool
  /-- How many of the given bytes the `k`-th write takes. -/
  fwrite : ℕ → ℕ → ℕ
  /-- The descriptor of the file opened for reading. -/
  openRdonly : CString → ℤ
  /-- The size of an open file, unless `fstat` fails. -/
  fstat : ℤ → Option ℤ

/-- What the program prints. -/
inductive Message where
  | usage (program : Option CString)
  | cannotOpen
  | cannotWriteSize
  | cannotWriteSeed
  | cannotWriteFile
  | cannotStat
  | wrote (bytes : ℤ) (file : CString) (seed fsize : BitVec 32)
deriving Repr, DecidableEq

/-- The printed text. -/
def Message.text : Message → String
  | .usage program => "Usage: " ++ String.ofList (program.getD "(null)".toList) ++
      " seed size filename\n"
  | .cannotOpen => "cannot open file for writing!\n"
  | .cannotWriteSize => "cannot write size\n"
  | .cannotWriteSeed => "cannot write seed value\n"
  | .cannotWriteFile => "cannot write file!\n"
  | .cannotStat => "cannot open and stat file!\n"
  | .wrote bytes file seed fsize => "Wrote " ++ toString bytes ++ " bytes to file " ++
      String.ofList file ++ " using seed " ++ toString seed.toInt ++ ", fsize " ++
      toString fsize.toInt ++ "\n"

/-- The end of a run: the exit status, what was printed and what was written to the file. -/
structure Outcome where
  status : ℤ
  printed : List Message
  file : List (BitVec 8)
deriving Repr, DecidableEq

/-- The four bytes of a word in memory, least significant first. -/
def bytes (w : BitVec 32) : List (BitVec 8) :=
  [w.setWidth 8, (w >>> 8).setWidth 8, (w >>> 16).setWidth 8, (w >>> 24).setWidth 8]

/-- The payload loop, with `n` iterations to go and the next write numbered `k`: the bytes it gets
written, and whether no write failed. -/
def writePayload (host : Host) : ℕ → ℕ → BitVec 32 → List (BitVec 8) × Bool
  | 0, _, _ => ([], true)
  | n + 1, k, rseed =>
    let rnd := (myrand rseed).1.setWidth 8
    if host.fwrite k 1 ≠ 1 then ([rnd].take (host.fwrite k 1), false)
    else
      let rest := writePayload host n (k + 1) (myrand rseed).2
      (rnd :: rest.1, rest.2)

/-- The part of `main` after the file has been written. -/
def report (host : Host) (name : CString) (lseed fsize : BitVec 32) (file : List (BitVec 8)) :
    Outcome :=
  let fileno := host.openRdonly name
  if fileno < -1 then ⟨1, [.cannotStat], file⟩
  else
    match host.fstat fileno with
    | none => ⟨1, [.cannotStat], file⟩
    | some size => ⟨0, [.wrote size name lseed fsize], file⟩

/-- The program. -/
def main (host : Host) (argv : List CString) : Outcome :=
  match argv with
  | _ :: arg1 :: arg2 :: name :: _ =>
    let lseed := atoi arg1
    let rseed := smyrand lseed
    let fsize := atoi arg2
    if !host.fopen name then ⟨1, [.cannotOpen], []⟩
    else if host.fwrite 0 4 ≠ 4 then ⟨1, [.cannotWriteSize], (bytes fsize).take (host.fwrite 0 4)⟩
    else if host.fwrite 1 4 ≠ 4 then
      ⟨1, [.cannotWriteSeed], bytes fsize ++ (bytes lseed).take (host.fwrite 1 4)⟩
    else
      -- A negative size makes no iteration.
      let loop := writePayload host fsize.toInt.toNat 2 rseed
      let file := bytes fsize ++ bytes lseed ++ loop.1
      if !loop.2 then ⟨1, [.cannotWriteFile], file⟩ else report host name lseed fsize file
  | _ => ⟨1, [.usage argv.head?], []⟩

/-! ## What is written -/

/-- The bytes of the payload loop when every write succeeds. -/
def payload (seed fsize : BitVec 32) : List (BitVec 8) :=
  (List.range fsize.toInt.toNat).map fun i => (value seed i).setWidth 8

/-- Writes are never short. -/
def Host.Writes (host : Host) : Prop := ∀ k n, host.fwrite k n = n

theorem writePayload_eq {host : Host} (hwrites : host.Writes) (seed : BitVec 32) (n k m : ℕ) :
    writePayload host n k (rseedAfter seed m) =
      ((List.range n).map fun i => (value seed (m + i)).setWidth 8, true) := by
  induction n generalizing k m with
  | zero => rfl
  | succ n ih =>
    have hnext : (myrand (rseedAfter seed m)).2 = rseedAfter seed (m + 1) :=
      (rseedAfter_succ seed m).symm
    rw [writePayload, if_neg (not_not_intro (hwrites k 1)), hnext, ih, List.range_succ_eq_map,
      List.map_cons, List.map_map]
    simp only [Function.comp_def, Nat.succ_eq_add_one, Nat.add_right_comm, Nat.add_assoc]
    rfl

@[simp] theorem report_file (host : Host) (name : CString) (lseed fsize : BitVec 32)
    (file : List (BitVec 8)) : (report host name lseed fsize file).file = file := by
  simp only [report]
  split
  · rfl
  · cases host.fstat (host.openRdonly name) <;> rfl

/-- **What an undisturbed run writes**: the size, the seed and the payload. -/
theorem main_file {host : Host} (hwrites : host.Writes) {arg0 arg1 arg2 name : CString}
    (hopen : host.fopen name = true) (rest : List CString) :
    (main host (arg0 :: arg1 :: arg2 :: name :: rest)).file =
      bytes (atoi arg2) ++ bytes (atoi arg1) ++
        payload (atoi arg1) (atoi arg2) := by
  have hloop : writePayload host (atoi arg2).toInt.toNat 2 (smyrand (atoi arg1)) =
      (payload (atoi arg1) (atoi arg2), true) := by
    have hdraws := writePayload_eq hwrites (atoi arg1) (atoi arg2).toInt.toNat 2 0
    simp only [zero_add] at hdraws
    exact hdraws
  simp only [main, hopen, hwrites 0 4, hwrites 1 4, hloop]
  exact report_file ..

/-! ## The structure of the payload -/

theorem length_payload (seed fsize : BitVec 32) :
    (payload seed fsize).length = fsize.toInt.toNat := by
  rw [payload, List.length_map, List.length_range]

theorem getElem?_payload (seed fsize : BitVec 32) {i : ℕ} (hi : i < fsize.toInt.toNat) :
    (payload seed fsize)[i]? = some ((value seed i).setWidth 8) := by
  rw [payload, List.getElem?_map, List.getElem?_range hi, Option.map_some]

/-- **The payload repeats exactly every 256 bytes.** -/
theorem payload_eq_iff (seed fsize : BitVec 32) {i k : ℕ} (hi : i < fsize.toInt.toNat)
    (hk : k < fsize.toInt.toNat) :
    (payload seed fsize)[i]? = (payload seed fsize)[k]? ↔ i ≡ k [MOD 256] := by
  rw [getElem?_payload seed fsize hi, getElem?_payload seed fsize hk, Option.some_inj]
  exact exactPeriod_lowBits (by norm_num) seed i k

/-- All byte values. -/
def allBytes : List (BitVec 8) := (List.range 256).map (BitVec.ofNat 8)

theorem mem_allBytes (b : BitVec 8) : b ∈ allBytes :=
  List.mem_map.mpr ⟨b.toNat, List.mem_range.mpr b.isLt, by simp⟩

theorem nodup_allBytes : allBytes.Nodup := by
  apply List.Nodup.map_on _ List.nodup_range
  intro i hi k hk hik
  have hmod := congrArg BitVec.toNat hik
  rw [BitVec.toNat_ofNat, BitVec.toNat_ofNat, Nat.mod_eq_of_lt (List.mem_range.mp hi),
    Nat.mod_eq_of_lt (List.mem_range.mp hk)] at hmod
  exact hmod

/-- 256 consecutive draws, truncated to bytes, are all byte values in some order. -/
theorem window_perm (seed : BitVec 32) (n : ℕ) :
    ((List.range 256).map fun i => (value seed (n + i)).setWidth 8).Perm allBytes := by
  have hunique := existsUnique_lowBits (j := 8) (by norm_num) seed n
  have hnodup : ((List.range 256).map fun i => (value seed (n + i)).setWidth 8).Nodup := by
    apply List.Nodup.map_on _ List.nodup_range
    intro i hi k hk hik
    exact (hunique _).unique ⟨List.mem_range.mp hi, hik⟩ ⟨List.mem_range.mp hk, rfl⟩
  apply (List.perm_ext_iff_of_nodup hnodup nodup_allBytes).mpr
  intro b
  obtain ⟨i, hi, hb⟩ := (hunique b).exists
  exact iff_of_true (List.mem_map.mpr ⟨i, List.mem_range.mpr hi, hb⟩) (mem_allBytes b)

/-- **Every 256 consecutive bytes of the payload are all byte values**, in some order. -/
theorem payload_window_perm (seed fsize : BitVec 32) {n : ℕ} (hn : n + 256 ≤ fsize.toInt.toNat) :
    (((payload seed fsize).drop n).take 256).Perm allBytes := by
  -- The window lies inside the payload, so it consists of 256 consecutive draws.
  have hwindow : ((payload seed fsize).drop n).take 256 =
      (List.range 256).map fun i => (value seed (n + i)).setWidth 8 := by
    apply List.ext_getElem?
    intro i
    rcases Nat.lt_or_ge i 256 with hi | hi
    · rw [List.getElem?_take_of_lt hi, List.getElem?_drop,
        getElem?_payload seed fsize (by omega), List.getElem?_map, List.getElem?_range hi,
        Option.map_some]
    · rw [List.getElem?_eq_none (by simp; omega), List.getElem?_eq_none (by simpa using hi)]
  rw [hwindow]
  exact window_perm seed n

/-- The file after its two words. -/
theorem drop_main_file {host : Host} (hwrites : host.Writes) {arg0 arg1 arg2 name : CString}
    (hopen : host.fopen name = true) (rest : List CString) :
    (main host (arg0 :: arg1 :: arg2 :: name :: rest)).file.drop 8 =
      payload (atoi arg1) (atoi arg2) := by
  rw [main_file hwrites hopen]
  rfl

/-- **The structure of the stream.** From every seed and at every width `j` up to 31, the low `j`
bits of the values have the multiples of `2 ^ j` as their periods, and every window of `2 ^ j` values
takes each `j`-bit value once. So the generator has full period, and the payload of the file that an
undisturbed run writes repeats exactly every 256 bytes, each 256 of which are all byte values. -/
theorem myrand_stream (seed : BitVec 32) :
    (∀ j, 1 ≤ j → j ≤ 31 →
      (∀ T, (∀ n, (value seed (n + T)).setWidth j = (value seed n).setWidth j) ↔ 2 ^ j ∣ T) ∧
      ∀ n (v : BitVec j), ∃! i, i < 2 ^ j ∧ (value seed (n + i)).setWidth j = v) ∧
    (∀ T, (∀ n, value seed (n + T) = value seed n) ↔ 2 ^ 31 ∣ T) ∧
    (∀ n v, v < 2 ^ 31 → ∃! i, i < 2 ^ 31 ∧ (value seed (n + i)).toNat = v) ∧
    ∀ (host : Host) (arg0 arg1 arg2 name : CString) (rest : List CString), host.Writes →
      host.fopen name = true → atoi arg1 = seed →
      let written := (main host (arg0 :: arg1 :: arg2 :: name :: rest)).file.drop 8
      written.length = (atoi arg2).toInt.toNat ∧
      (∀ i k, i < written.length → k < written.length →
        (written[i]? = written[k]? ↔ i ≡ k [MOD 256])) ∧
      ∀ n, n + 256 ≤ written.length → ((written.drop n).take 256).Perm allBytes := by
  refine ⟨fun j _ hj => ⟨?_, ?_⟩, ?_, ?_, ?_⟩
  · exact (exactPeriod_lowBits hj seed).shift_iff
  · exact existsUnique_lowBits hj seed
  · intro T
    rw [← (exactPeriod_lowBits (le_refl 31) seed).shift_iff]
    exact forall_congr' fun n => value_eq_iff seed (n + T) n
  · intro n v hv
    have hunique := existsUnique_lowBits (le_refl 31) seed n (BitVec.ofNat 31 v)
    simpa only [← BitVec.toNat_inj, toNat_lowBits_31, BitVec.toNat_ofNat, Nat.mod_eq_of_lt hv]
      using hunique
  · intro host arg0 arg1 arg2 name rest hwrites hopen hseed
    dsimp only
    rw [drop_main_file hwrites hopen, hseed, length_payload]
    refine ⟨rfl, fun i k hi hk => ?_, fun n hn => ?_⟩
    · exact payload_eq_iff seed (atoi arg2) hi hk
    · exact payload_window_perm seed (atoi arg2) hn

/-- A host that takes every byte. -/
def testHost : Host := ⟨fun _ => true, fun _ n => n, fun _ => 3, fun _ => some 520⟩

/-- A negative seed, at the width of a byte: a zero byte comes once in the first 256, and the second
half of a file of 512 bytes has all byte values. -/
theorem myrand_stream_negative_seed :
    ((1 ≤ 8 ∧ 8 ≤ 31) ∧ ∃! i, i < 2 ^ 8 ∧ (value (-1#32) (0 + i)).setWidth 8 = 0#8) ∧
      ((((main testHost ["creatf".toList, "-1".toList, "512".toList, "image".toList]).file.drop
        8).drop 256).take 256).Perm allBytes := by
  obtain ⟨hbits, -, -, hfile⟩ := myrand_stream (-1#32)
  obtain ⟨hlength, -, hwindow⟩ := hfile testHost "creatf".toList "-1".toList "512".toList
    "image".toList [] (fun _ _ => rfl) rfl (by decide)
  refine ⟨⟨by decide, (hbits 8 (by decide) (by decide)).2 0 0#8⟩, hwindow 256 ?_⟩
  rw [hlength]
  decide

end LinuxTest.Uboot.Creatf
