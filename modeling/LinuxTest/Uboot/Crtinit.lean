import LinuxTest.Libc
import Mathlib.Data.Nat.Digits.Lemmas
import Mathlib.Tactic.IntervalCases

/-!
# The run-time support of the board applications

`hex2dec` of `preloader-uboot/uboot-api/crtinit.c`, which reads a hexadecimal number. Its `int`
accumulator wraps to 32 bits.

## Main definitions

* `digit`: the `switch` over a character
* `hex2dec`: the value and what is printed
* `isHexDigit`, `hexValue`: the characters `[0-9a-fA-F]`, and the base-sixteen value of a string

## Main results

* `hex2dec_eq`: a string of digits is read in base sixteen
* `hex2dec_error`: any other string is refused
* `hex2dec_spec`: when the result is `-1`, and what it is for a string of digits
-/

namespace LinuxTest.Uboot

/-- The digit a character stands for; none in the `default` branch. -/
def digit : Char → Option (BitVec 32)
  | '0' => some 0
  | '1' => some 1
  | '2' => some 2
  | '3' => some 3
  | '4' => some 4
  | '5' => some 5
  | '6' => some 6
  | '7' => some 7
  | '8' => some 8
  | '9' => some 9
  | 'a' | 'A' => some 10
  | 'b' | 'B' => some 11
  | 'c' | 'C' => some 12
  | 'd' | 'D' => some 13
  | 'e' | 'E' => some 14
  | 'f' | 'F' => some 15
  | _ => none

/-- The loop, with the accumulator `val`: the returned value, and what is printed. -/
def hex2decLoop (val : BitVec 32) : CString → BitVec 32 × List String
  | [] => (val, [])
  | c :: str =>
    match digit c with
    | some d => hex2decLoop (val * 16 + d) str
    | none => (-1, ["unexpected digit!\n"])

/-- Read a hexadecimal number. -/
def hex2dec (str : CString) : BitVec 32 × List String := hex2decLoop 0 str

/-- A string of digits adds its base-sixteen value to the shifted accumulator. -/
theorem hex2decLoop_eq (val : BitVec 32) {str : CString} {ds : List (BitVec 32)}
    (hds : str.map digit = ds.map some) :
    hex2decLoop val str = (ds.foldl (fun v d => v * 16 + d) val, []) := by
  induction str generalizing val ds with
  | nil =>
    obtain rfl : ds = [] := by simpa using hds.symm
    rfl
  | cons c str ih =>
    cases ds with
    | nil => exact absurd hds (by simp)
    | cons d ds =>
      obtain ⟨hc, hstr⟩ : digit c = some d ∧ str.map digit = ds.map some := by simpa using hds
      rw [hex2decLoop, hc]
      exact ih (val * 16 + d) hstr

/-- **A string of digits is read in base sixteen**, modulo `2 ^ 32`. -/
theorem hex2dec_eq {str : CString} {ds : List (BitVec 32)} (hds : str.map digit = ds.map some) :
    hex2dec str = (ds.foldl (fun v d => v * 16 + d) 0, []) :=
  hex2decLoop_eq 0 hds

/-- **Any other string is refused** with `-1` and a message. -/
theorem hex2dec_error {str : CString} (hstr : ∃ c ∈ str, digit c = none) :
    hex2dec str = (-1, ["unexpected digit!\n"]) := by
  suffices ∀ val, hex2decLoop val str = (-1, ["unexpected digit!\n"]) from this 0
  induction str with
  | nil => exact absurd hstr (by simp)
  | cons c str ih =>
    intro val
    rw [hex2decLoop]
    cases hc : digit c with
    | none => rfl
    | some d =>
      -- The character is a digit, so the offending one comes later.
      obtain ⟨c', hmem, hnone⟩ := hstr
      rcases List.mem_cons.mp hmem with rfl | hmem
      · exact absurd hnone (by rw [hc]; exact Option.some_ne_none d)
      · exact ih ⟨c', hmem, hnone⟩ (val * 16 + d)

/-! ## The base-sixteen value -/

/-- The characters `[0-9a-fA-F]`. -/
def isHexDigit (c : Char) : Bool :=
  ('0'.toNat ≤ c.toNat && c.toNat ≤ '9'.toNat) || ('A'.toNat ≤ c.toNat && c.toNat ≤ 'F'.toNat) ||
    ('a'.toNat ≤ c.toNat && c.toNat ≤ 'f'.toNat)

/-- The value of such a character, by its place in its range. -/
def hexDigitValue (c : Char) : ℕ :=
  if c.toNat ≤ '9'.toNat then c.toNat - '0'.toNat
  else if c.toNat ≤ 'F'.toNat then c.toNat - 'A'.toNat + 10
  else c.toNat - 'a'.toNat + 10

/-- The base-sixteen value of a string. -/
def hexValue (str : CString) : ℕ := Nat.ofDigits 16 (str.reverse.map hexDigitValue)

/-- The characters of the class, one by one. -/
theorem mem_of_isHexDigit {c : Char} (hc : isHexDigit c = true) :
    c ∈ "0123456789abcdefABCDEF".toList := by
  have hranges : (48 ≤ c.toNat ∧ c.toNat ≤ 57) ∨ (65 ≤ c.toNat ∧ c.toNat ≤ 70) ∨
      (97 ≤ c.toNat ∧ c.toNat ≤ 102) := by
    simp only [isHexDigit, Bool.or_eq_true, Bool.and_eq_true, decide_eq_true_eq] at hc
    exact or_assoc.mp hc
  rw [← Char.ofNat_toNat c]
  rcases hranges with ⟨hlo, hhi⟩ | ⟨hlo, hhi⟩ | ⟨hlo, hhi⟩ <;>
    interval_cases c.toNat <;> decide

theorem digit_of_mem :
    ∀ c ∈ "0123456789abcdefABCDEF".toList, digit c = some (BitVec.ofNat 32 (hexDigitValue c)) ∧
      hexDigitValue c < 16 ∧ (hexDigitValue c = 15 ↔ c = 'f' ∨ c = 'F') :=
  -- Decided along the list, not over all characters.
  List.forall_iff_forall_mem.mp (by decide)

/-- **The `switch` knows the characters of the class**, with their values. -/
theorem digit_eq {c : Char} (hc : isHexDigit c = true) :
    digit c = some (BitVec.ofNat 32 (hexDigitValue c)) :=
  (digit_of_mem c (mem_of_isHexDigit hc)).1

/-- **The `switch` knows no other character.** -/
theorem digit_eq_none {c : Char} (hc : isHexDigit c = false) : digit c = none := by
  unfold digit
  split <;> first | rfl | exact absurd hc (by decide)

section Value

variable {str : CString}

theorem digits_lt (hstr : ∀ c ∈ str, isHexDigit c = true) :
    ∀ d ∈ str.reverse.map hexDigitValue, d < 16 := by
  intro d hd
  obtain ⟨c, hc, rfl⟩ := List.mem_map.mp hd
  exact (digit_of_mem c (mem_of_isHexDigit (hstr c (List.mem_reverse.mp hc)))).2.1

theorem hexValue_lt (hstr : ∀ c ∈ str, isHexDigit c = true) : hexValue str < 16 ^ str.length := by
  have hlt := Nat.ofDigits_lt_base_pow_length (by decide) (digits_lt hstr)
  rwa [List.length_map, List.length_reverse] at hlt

theorem foldl_digits (str : CString) (v : ℕ) :
    (str.map fun c => BitVec.ofNat 32 (hexDigitValue c)).foldl (fun v d => v * 16 + d)
        (BitVec.ofNat 32 v) =
      BitVec.ofNat 32 (v * 16 ^ str.length + hexValue str) := by
  induction str generalizing v with
  | nil => simp [hexValue]
  | cons c str ih =>
    have hvalue : hexValue (c :: str) = hexValue str + 16 ^ str.length * hexDigitValue c := by
      unfold hexValue
      rw [List.reverse_cons, List.map_append, Nat.ofDigits_append, List.length_map,
        List.length_reverse, List.map_singleton, Nat.ofDigits_singleton]
    have hstep : BitVec.ofNat 32 v * 16 + BitVec.ofNat 32 (hexDigitValue c) =
        BitVec.ofNat 32 (v * 16 + hexDigitValue c) := by
      rw [BitVec.ofNat_add, BitVec.ofNat_mul]
      rfl
    rw [List.map_cons, List.foldl_cons, hstep, ih, hvalue, List.length_cons]
    congr 1
    ring

/-- The result for a string of digits is its value, modulo `2 ^ 32`. -/
theorem hex2dec_of_digits (hstr : ∀ c ∈ str, isHexDigit c = true) :
    (hex2dec str).1 = BitVec.ofNat 32 (hexValue str) := by
  have hds : str.map digit = (str.map fun c => BitVec.ofNat 32 (hexDigitValue c)).map some := by
    rw [List.map_map]
    exact List.map_congr_left fun c hc => digit_eq (hstr c hc)
  rw [hex2dec_eq hds]
  have hfold := foldl_digits str 0
  rw [Nat.zero_mul, Nat.zero_add] at hfold
  exact hfold

/-- The largest value of eight digits. -/
theorem hexValue_eq_max_iff (hstr : ∀ c ∈ str, isHexDigit c = true) (hlen : str.length ≤ 8) :
    hexValue str = 2 ^ 32 - 1 ↔ str.length = 8 ∧ ∀ c ∈ str, c = 'f' ∨ c = 'F' := by
  have hmax : 2 ^ 32 - 1 = Nat.ofDigits 16 (List.replicate 8 15) := by decide
  have hdigit : ∀ c ∈ str, (hexDigitValue c = 15 ↔ c = 'f' ∨ c = 'F') := fun c hc =>
    (digit_of_mem c (mem_of_isHexDigit (hstr c hc))).2.2
  constructor
  · intro h
    have hlen8 : str.length = 8 := by
      by_contra hne
      have hlt := hexValue_lt hstr
      have hpow : 16 ^ str.length ≤ 16 ^ 7 := Nat.pow_le_pow_right (by decide) (by omega)
      omega
    refine ⟨hlen8, fun c hc => (hdigit c hc).mp ?_⟩
    -- Eight digits are determined by their value.
    have heq : str.reverse.map hexDigitValue = List.replicate 8 15 :=
      Nat.ofDigits_inj_of_len_eq (by decide) (by simp [hlen8]) (digits_lt hstr) (by decide)
        (h.trans hmax)
    exact List.eq_of_mem_replicate
      (heq ▸ List.mem_map_of_mem (List.mem_reverse.mpr hc) : hexDigitValue c ∈ List.replicate 8 15)
  · rintro ⟨hlen8, hall⟩
    have heq : str.reverse.map hexDigitValue = List.replicate 8 15 := by
      refine List.eq_replicate_iff.mpr ⟨by simp [hlen8], fun d hd => ?_⟩
      obtain ⟨c, hc, rfl⟩ := List.mem_map.mp hd
      have hc := List.mem_reverse.mp hc
      exact (hdigit c hc).mpr (hall c hc)
    rw [hmax, hexValue, heq]

/-- **When the result is `-1`, and what it is for a string of digits.** The string of eight digits
`f` is read like an error. -/
theorem hex2dec_spec (hlen : str.length ≤ 8) :
    ((hex2dec str).1 = -1 ↔ (∃ c ∈ str, isHexDigit c = false) ∨
      str.length = 8 ∧ ∀ c ∈ str, c = 'f' ∨ c = 'F') ∧
    ((∀ c ∈ str, isHexDigit c = true) → (hex2dec str).1.toNat = hexValue str) := by
  have hvalue : (∀ c ∈ str, isHexDigit c = true) → (hex2dec str).1.toNat = hexValue str := by
    intro hstr
    have hlt := hexValue_lt hstr
    have hpow : 16 ^ str.length ≤ 16 ^ 8 := Nat.pow_le_pow_right (by decide) hlen
    rw [hex2dec_of_digits hstr, BitVec.toNat_ofNat, Nat.mod_eq_of_lt (by omega)]
  refine ⟨?_, hvalue⟩
  by_cases hstr : ∀ c ∈ str, isHexDigit c = true
  · have hnone : ¬ ∃ c ∈ str, isHexDigit c = false := by
      rintro ⟨c, hc, hfalse⟩
      exact absurd (hstr c hc) (by rw [hfalse]; decide)
    rw [← hexValue_eq_max_iff hstr hlen, ← hvalue hstr, ← BitVec.toNat_inj]
    exact ⟨.inr, fun h => h.resolve_left hnone⟩
  · push Not at hstr
    obtain ⟨c, hc, hfalse⟩ := hstr
    have hbad : ∃ c ∈ str, isHexDigit c = false := ⟨c, hc, Bool.eq_false_iff.mpr hfalse⟩
    refine iff_of_true ?_ (.inl hbad)
    rw [hex2dec_error ⟨c, hc, digit_eq_none (Bool.eq_false_iff.mpr hfalse)⟩]

end Value

theorem hex2dec_spec_loadaddr :
    ((hex2dec "2000Ab".toList).1 = -1 ↔ (∃ c ∈ "2000Ab".toList, isHexDigit c = false) ∨
      "2000Ab".toList.length = 8 ∧ ∀ c ∈ "2000Ab".toList, c = 'f' ∨ c = 'F') ∧
    ((∀ c ∈ "2000Ab".toList, isHexDigit c = true) →
      (hex2dec "2000Ab".toList).1.toNat = hexValue "2000Ab".toList) :=
  hex2dec_spec (by decide)

/-- The highest address has no character outside the class, and reads like an error. -/
theorem hex2dec_highest : ¬ ((hex2dec "ffffffff".toList).1 = -1 ↔
    ∃ c ∈ "ffffffff".toList, isHexDigit c = false) := by
  intro h
  obtain ⟨c, hc, hfalse⟩ := h.mp (by decide)
  have hlist : "ffffffff".toList = List.replicate 8 'f' := rfl
  rw [hlist] at hc
  rw [List.eq_of_mem_replicate hc] at hfalse
  cases hfalse

end LinuxTest.Uboot
