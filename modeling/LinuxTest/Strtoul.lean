import LinuxTest.Foundations.TextFields
import LinuxTest.Libc
import Mathlib.Tactic.IntervalCases

/-!
# Numbers in any base

The function `strtoul` with the base zero, as the C library has it: white space and a sign are
skipped, `0x` is for hexadecimal and `0` for octal numbers, and a number that does not fit a word is
the largest one, with `ERANGE` in `errno`.

## Main definitions

* `strtoul`: the number at the start of a string, and what follows it

## Main results

* `strtoul_decimal_append`, `strtoul_lowerHex_append`: a printed number is read back, up to the text
  that follows it
* `lowerHex_injective`: a hexadecimal number determines the number
-/

namespace LinuxTest

open Foundations

/-- The value of a digit, in a base of up to 36. -/
def digitValue (c : Char) : Option ℕ :=
  if 48 ≤ c.toNat ∧ c.toNat ≤ 57 then some (c.toNat - 48)
  else if 97 ≤ c.toNat ∧ c.toNat ≤ 122 then some (c.toNat - 87)
  else if 65 ≤ c.toNat ∧ c.toNat ≤ 90 then some (c.toNat - 55)
  else none

/-- The character is a digit in a base. -/
def isDigitIn (base : ℕ) (c : Char) : Bool := (digitValue c).any (· < base)

/-- The number with the given digits. -/
def numberIn (base : ℕ) (s : CString) : ℕ :=
  s.foldl (fun v c => base * v + (digitValue c).getD 0) 0

/-- What `strtoul` returns, where it stops, and whether it sets `errno` to `ERANGE`. -/
structure Strtoul where
  value : BitVec 32
  rest : CString
  erange : Bool
deriving Repr, DecidableEq

/-- The digits of a number in a base. -/
def strtoulIn (base : ℕ) (negative : Bool) (s : CString) : Strtoul :=
  let v := numberIn base (s.takeWhile (isDigitIn base))
  { value :=
      if 2 ^ 32 ≤ v then -1 else if negative then -BitVec.ofNat 32 v else BitVec.ofNat 32 v
    rest := s.dropWhile (isDigitIn base)
    erange := decide (2 ^ 32 ≤ v) }

/-- The function `strtoul` with the base zero. Without a digit nothing is read, and of `0x` without
a digit only the zero. -/
def strtoul (s : CString) : Strtoul :=
  let t := s.dropWhile isspace
  let negative := t.head? = some '-'
  let t := if negative ∨ t.head? = some '+' then t.tail else t
  match t with
  | [] => ⟨0, s, false⟩
  | c :: t =>
    if c = '0' ∧ (t.head? = some 'x' ∨ t.head? = some 'X') then
      if t.tail.head?.any (isDigitIn 16) then strtoulIn 16 negative t.tail else ⟨0, t, false⟩
    else if c = '0' then strtoulIn 8 negative (c :: t)
    else if isDigitIn 10 c then strtoulIn 10 negative (c :: t)
    else ⟨0, s, false⟩

example : strtoul " -0x10K".toList = ⟨-16, "K".toList, false⟩ := by decide
example : strtoul "0779".toList = ⟨63, "9".toList, false⟩ := by decide
example : strtoul "4294967296".toList = ⟨-1, [], true⟩ := by decide

/-! ## Printed numbers -/

/-- The digits at the start of a text, up to a character that is none. -/
theorem strtoulIn_append {base : ℕ} {s rest : CString} (hall : ∀ c ∈ s, isDigitIn base c = true)
    (hrest : StopsAt (isDigitIn base) rest) (hlt : numberIn base s < 2 ^ 32) :
    strtoulIn base false (s ++ rest) = ⟨BitVec.ofNat 32 (numberIn base s), rest, false⟩ := by
  have hfits : ¬ 2 ^ 32 ≤ numberIn base s := Nat.not_le.mpr hlt
  rw [strtoulIn, takeWhile_append_of_stopsAt hall hrest, dropWhile_append_of_stopsAt hall hrest]
  simp only [hfits, if_false, decide_false, Bool.false_eq_true]

theorem isDigit_iff (c : Char) : c.isDigit = true ↔ 48 ≤ c.toNat ∧ c.toNat ≤ 57 := by
  simp only [Char.isDigit, Bool.and_eq_true, decide_eq_true_eq]
  exact Iff.rfl

theorem isDigitIn_ten (c : Char) : isDigitIn 10 c = c.isDigit := by
  rw [Bool.eq_iff_iff, isDigit_iff]
  unfold isDigitIn digitValue
  split_ifs with h0 ha hA
  · simp only [Option.any_some, decide_eq_true_eq]
    omega
  · simp only [Option.any_some, decide_eq_true_eq]
    omega
  · simp only [Option.any_some, decide_eq_true_eq]
    omega
  · exact iff_of_false Bool.false_ne_true h0

theorem numberIn_ten {s : CString} (hs : ∀ c ∈ s, c.isDigit = true) :
    numberIn 10 s = Nat.ofDigitChars 10 s 0 := by
  rw [numberIn, Nat.ofDigitChars_eq_foldl]
  refine List.foldl_ext _ _ _ fun v c hc => ?_
  rw [digitValue, if_pos ((isDigit_iff c).mp (hs c hc))]
  rfl

/-- A printed number that is not zero does not begin with a zero. -/
theorem head_toDigits_ne {n : ℕ} (hn : 0 < n) {c : Char} {s : CString}
    (h : Nat.toDigits 10 n = c :: s) : c ≠ '0' := by
  induction n using Nat.strong_induction_on generalizing s with
  | _ n ih =>
    rw [Nat.toDigits_eq_if (by decide)] at h
    split_ifs at h with hlt
    · obtain ⟨rfl, -⟩ := List.cons.inj h
      interval_cases n <;> decide
    · cases hdigits : Nat.toDigits 10 (n / 10) with
      | nil => exact absurd hdigits Nat.toDigits_ne_nil
      | cons d ds =>
        rw [hdigits, List.cons_append] at h
        obtain ⟨rfl, -⟩ := List.cons.inj h
        exact ih (n / 10) (Nat.div_lt_self hn (by decide)) (by omega) hdigits

/-- **A printed number is read back**, up to the text that follows it. -/
theorem strtoul_decimal_append {n : ℕ} (hn : 0 < n) (hlt : n < 2 ^ 32) {rest : CString}
    (hrest : StopsAt Char.isDigit rest) :
    strtoul (decimal n ++ rest) = ⟨BitVec.ofNat 32 n, rest, false⟩ := by
  have hall : ∀ c ∈ Nat.toDigits 10 n, c.isDigit = true :=
    fun c hc => Nat.isDigit_of_mem_toDigits (by decide) (by decide) hc
  have hnumber : numberIn 10 (Nat.toDigits 10 n) = n := by
    rw [numberIn_ten hall, Nat.ofDigitChars_ten_toDigits]
  have hin : strtoulIn 10 false (Nat.toDigits 10 n ++ rest) = _ :=
    strtoulIn_append (fun c hc => isDigitIn_ten c ▸ hall c hc)
      (fun c hc => isDigitIn_ten c ▸ hrest c hc) (hnumber.symm ▸ hlt)
  rw [hnumber] at hin
  rw [decimal_natCast]
  cases hdigits : Nat.toDigits 10 n with
  | nil => exact absurd hdigits Nat.toDigits_ne_nil
  | cons c s =>
    have hc : c.isDigit = true := hall c (hdigits ▸ List.mem_cons_self)
    -- The first character is neither white space nor a sign, and it is not a zero.
    have hspace : isspace c = false := isspace_of_isDigit hc
    have hminus : c ≠ '-' := by
      rintro rfl
      exact absurd hc (by decide)
    have hplus : c ≠ '+' := by
      rintro rfl
      exact absurd hc (by decide)
    have hzero : c ≠ '0' := head_toDigits_ne hn hdigits
    have hc10 : isDigitIn 10 c = true := isDigitIn_ten c ▸ hc
    rw [hdigits, List.cons_append] at hin
    simp [strtoul, hspace, hminus, hplus, hzero, hc10, hin]

/-! ## Hexadecimal numbers -/

theorem digitValue_digitChar {d : ℕ} (hd : d < 16) : digitValue (Nat.digitChar d) = some d := by
  interval_cases d <;> decide

theorem isDigitIn_digitChar {d : ℕ} (hd : d < 16) : isDigitIn 16 (Nat.digitChar d) = true := by
  rw [isDigitIn, digitValue_digitChar hd]
  exact decide_eq_true hd

theorem isDigitIn_of_mem_toDigits {n : ℕ} {c : Char} (hc : c ∈ Nat.toDigits 16 n) :
    isDigitIn 16 c = true := by
  induction n using Nat.strong_induction_on with
  | _ n ih =>
    rw [Nat.toDigits_eq_if (by decide)] at hc
    split_ifs at hc with hlt
    · exact List.mem_singleton.mp hc ▸ isDigitIn_digitChar hlt
    · rcases List.mem_append.mp hc with hinit | hlast
      · exact ih (n / 16) (Nat.div_lt_self (by omega) (by decide)) hinit
      · exact List.mem_singleton.mp hlast ▸ isDigitIn_digitChar (Nat.mod_lt n (by decide))

theorem numberIn_toDigits (n : ℕ) : numberIn 16 (Nat.toDigits 16 n) = n := by
  induction n using Nat.strong_induction_on with
  | _ n ih =>
    rw [Nat.toDigits_eq_if (by decide)]
    split_ifs with hlt
    · rw [numberIn, List.foldl_cons, digitValue_digitChar hlt, List.foldl_nil]
      exact Nat.zero_add n
    · have hinit := ih (n / 16) (Nat.div_lt_self (by omega) (by decide))
      rw [numberIn] at hinit ⊢
      rw [List.foldl_append, hinit, List.foldl_cons,
        digitValue_digitChar (Nat.mod_lt n (by decide)), List.foldl_nil]
      exact Nat.div_add_mod n 16

theorem numberIn_lowerHex (width n : ℕ) : numberIn 16 (lowerHex width n) = n := by
  have hzeros : ∀ k, (List.replicate k '0').foldl
      (fun v c => 16 * v + (digitValue c).getD 0) 0 = 0 := by
    intro k
    induction k with
    | zero => rfl
    | succ k ih => exact ih
  rw [numberIn, lowerHex, List.foldl_append, hzeros]
  exact numberIn_toDigits n

/-- **A hexadecimal number determines the number.** -/
theorem lowerHex_injective (width : ℕ) : Function.Injective (lowerHex width) :=
  Function.LeftInverse.injective (numberIn_lowerHex width)

theorem isDigitIn_of_mem_lowerHex {width n : ℕ} {c : Char} (hc : c ∈ lowerHex width n) :
    isDigitIn 16 c = true := by
  rcases List.mem_append.mp hc with hzero | hdigit
  · exact List.eq_of_mem_replicate hzero ▸ rfl
  · exact isDigitIn_of_mem_toDigits hdigit

theorem notMem_lowerHex {c : Char} (hc : isDigitIn 16 c = false) (width n : ℕ) :
    c ∉ lowerHex width n :=
  fun hmem => Bool.false_ne_true (hc.symm.trans (isDigitIn_of_mem_lowerHex hmem))

theorem length_lowerHex {width n : ℕ} (hwidth : 0 < width) (hn : n < 16 ^ width) :
    (lowerHex width n).length = width := by
  rw [lowerHex, List.length_append, List.length_replicate]
  exact Nat.sub_add_cancel ((Nat.length_toDigits_le_iff (by decide) hwidth).mpr hn)

/-- **A hexadecimal number is read back**, up to the text that follows it. -/
theorem strtoul_lowerHex_append {width n : ℕ} (hlt : n < 2 ^ 32) {rest : CString}
    (hrest : StopsAt (isDigitIn 16) rest) :
    strtoul ("0x".toList ++ lowerHex width n ++ rest) = ⟨BitVec.ofNat 32 n, rest, false⟩ := by
  have hall : ∀ c ∈ lowerHex width n, isDigitIn 16 c = true := fun c => isDigitIn_of_mem_lowerHex
  have hin := strtoulIn_append hall hrest ((numberIn_lowerHex width n).symm ▸ hlt)
  rw [numberIn_lowerHex] at hin
  have hhead : (lowerHex width n ++ rest).head?.any (isDigitIn 16) = true := by
    cases hdigits : lowerHex width n with
    | nil => exact absurd (List.append_eq_nil_iff.mp hdigits).2 Nat.toDigits_ne_nil
    | cons c s => exact hall c (hdigits ▸ List.mem_cons_self)
  have hspace : isspace '0' = false := by decide
  rw [List.append_assoc]
  generalize lowerHex width n ++ rest = t at hin hhead
  have htext : "0x".toList ++ t = '0' :: 'x' :: t := rfl
  rw [htext]
  simp [strtoul, hspace, hhead, hin]

end LinuxTest
