import LinuxTest.Foundations.TextFields
import Mathlib.Data.BitVec
import Mathlib.Data.List.TakeWhile

/-!
# C strings and numbers

The parts of the C library that the modelled programs share: strings up to their terminator, the
bytes of a file, and `atoi`, which is `(int) strtol`. The number is limited to the range of a `long`,
and then cut to the 32 bits of an `int`. A `long` has 64 bits, as on the hosts and on the newer
boards; one of 32 bits gives other results only for numbers that an `int` does not hold.

## Main definitions

* `CString`, `Data`: a string without its terminator, and the bytes of a file
* `Spells`: the number that a string begins with
* `strtol`, `atoi`: the number at the start of a string, as a `long` and as an `int`
* `decimal`, `upperHex`, `lowerHex`: a number printed with `%d`, and with `%X` or `%x` and a width
* `perror`, `Exit`: the message of a failed call, and the end of a process

## Main results

* `decimal_injective`: a printed number determines the number
* `spells_iff`: the number that a string begins with is the one that is read
* `atoi_decimal_append`: a printed number is read back, up to the text that follows it
-/

namespace LinuxTest

open Foundations

/-- A C string, without its terminator. -/
abbrev CString := List Char

/-- The bytes of a file. -/
abbrev Data := List (BitVec 8)

/-- White space, as `isspace` has it. -/
def isspace (c : Char) : Bool := c = ' ' || (9 ≤ c.toNat && c.toNat ≤ 13)

/-- The value of the digits at the start of a string. -/
def digitsValue (s : CString) : ℕ :=
  (s.takeWhile Char.isDigit).foldl (fun v c => 10 * v + (c.toNat - '0'.toNat)) 0

/-- The bits of a `long`. -/
def longBits : ℕ := 64

/-- A number limited to the range of a `long`. -/
def toLong (n : ℤ) : ℤ := max (-2 ^ (longBits - 1)) (min n (2 ^ (longBits - 1) - 1))

/-- The number at the start of a string, after white space and a sign; zero if there is none. -/
def number (s : CString) : ℤ :=
  match s.dropWhile isspace with
  | '-' :: s => -(digitsValue s : ℤ)
  | '+' :: s => digitsValue s
  | s => digitsValue s

/-- The function `strtol`, with the base ten. -/
def strtol (s : CString) : ℤ := toLong (number s)

/-- The function `atoi`. -/
def atoi (s : CString) : BitVec 32 := BitVec.ofInt 32 (strtol s)

example : atoi " -12x3".toList = -12 := by decide
example : atoi "4294967295".toList = -1 := by decide
example : atoi "9223372036854775829".toList = -1 := by decide

/-- A number printed with `%d`. -/
def decimal (n : ℤ) : CString := (toString n).toList

theorem decimal_natCast (n : ℕ) : decimal n = Nat.toDigits 10 n := Nat.toList_repr

theorem decimal_negSucc (n : ℕ) : decimal (Int.negSucc n) = '-' :: Nat.toDigits 10 (n + 1) := by
  change ("-" ++ (n + 1).repr).toList = _
  rw [String.toList_append, Nat.toList_repr]
  rfl

theorem toDigits_injective : Function.Injective (Nat.toDigits 10) := by
  intro a b h
  have hvalue := congrArg (fun ds => Nat.ofDigitChars 10 ds 0) h
  simpa only [Nat.ofDigitChars_ten_toDigits] using hvalue

theorem notMem_toDigits {c : Char} (hc : ¬ c.isDigit = true) (n : ℕ) : c ∉ Nat.toDigits 10 n :=
  fun hmem => hc (Nat.isDigit_of_mem_toDigits (by decide) (by decide) hmem)

theorem comma_notMem_decimal (n : ℤ) : ',' ∉ decimal n := by
  cases n with
  | ofNat n =>
    have hdecimal : decimal (Int.ofNat n) = Nat.toDigits 10 n := decimal_natCast n
    rw [hdecimal]
    exact notMem_toDigits (by decide) n
  | negSucc n =>
    rw [decimal_negSucc]
    exact List.not_mem_cons_of_ne_of_not_mem (by decide) (notMem_toDigits (by decide) (n + 1))

/-- **A printed number determines the number.** -/
theorem decimal_injective : Function.Injective decimal := by
  intro a b h
  cases a with
  | ofNat a =>
    cases b with
    | ofNat b =>
      have hdigits : Nat.toDigits 10 a = Nat.toDigits 10 b := by
        rw [← decimal_natCast, ← decimal_natCast]
        exact h
      rw [toDigits_injective hdigits]
    | negSucc b =>
      -- Only a negative number has a sign.
      rw [decimal_negSucc] at h
      have hsign : '-' ∈ decimal (a : ℤ) := h ▸ List.mem_cons_self
      exact absurd (decimal_natCast a ▸ hsign) (notMem_toDigits (by decide) a)
  | negSucc a =>
    cases b with
    | ofNat b =>
      rw [decimal_negSucc] at h
      have hsign : '-' ∈ decimal (b : ℤ) := h ▸ List.mem_cons_self
      exact absurd (decimal_natCast b ▸ hsign) (notMem_toDigits (by decide) b)
    | negSucc b =>
      rw [decimal_negSucc, decimal_negSucc, List.cons_inj_right] at h
      have hsucc := toDigits_injective h
      rw [Nat.succ_injective hsucc]

/-! ## The number that a string begins with -/

/-- The sign of a number. -/
def isSign (c : Char) : Bool := c = '-' || c = '+'

/-- A string begins with a number: white space, a sign or none, and digits or none, up to a
character that cannot belong to it. -/
inductive Spells : CString → ℤ → Prop
  | blank {c : Char} {s : CString} {n : ℤ} (hc : isspace c = true) (h : Spells s n) :
      Spells (c :: s) n
  | minus {digits rest : CString} (hdigits : ∀ c ∈ digits, c.isDigit = true)
      (hrest : StopsAt Char.isDigit rest) :
      Spells ('-' :: (digits ++ rest)) (-(Nat.ofDigitChars 10 digits 0 : ℤ))
  | plus {digits rest : CString} (hdigits : ∀ c ∈ digits, c.isDigit = true)
      (hrest : StopsAt Char.isDigit rest) :
      Spells ('+' :: (digits ++ rest)) (Nat.ofDigitChars 10 digits 0)
  | plain {digits rest : CString} (hdigits : ∀ c ∈ digits, c.isDigit = true)
      (hrest : StopsAt Char.isDigit rest) (hspace : StopsAt isspace (digits ++ rest))
      (hsign : StopsAt isSign (digits ++ rest)) :
      Spells (digits ++ rest) (Nat.ofDigitChars 10 digits 0)

section Numbers

variable {c : Char} {s digits rest : CString}

theorem digitsValue_append (hdigits : ∀ c ∈ digits, c.isDigit = true)
    (hrest : StopsAt Char.isDigit rest) :
    digitsValue (digits ++ rest) = Nat.ofDigitChars 10 digits 0 := by
  rw [digitsValue, takeWhile_append_of_stopsAt hdigits hrest]
  rfl

theorem number_cons_of_isspace (hc : isspace c = true) (s : CString) :
    number (c :: s) = number s := by
  unfold number
  rw [List.dropWhile_cons_of_pos hc]

theorem number_minus (s : CString) : number ('-' :: s) = -(digitsValue s : ℤ) := by
  unfold number
  rw [List.dropWhile_cons_of_neg (by decide)]
  rfl

theorem number_plus (s : CString) : number ('+' :: s) = digitsValue s := by
  unfold number
  rw [List.dropWhile_cons_of_neg (by decide)]
  rfl

theorem number_of_stopsAt (hspace : StopsAt isspace s) (hsign : StopsAt isSign s) :
    number s = digitsValue s := by
  cases s with
  | nil => rfl
  | cons c s =>
    unfold number
    rw [List.dropWhile_cons_of_neg (by simp [hspace c rfl])]
    split
    · next hminus =>
      cases hminus
      exact absurd (hsign '-' rfl) (by decide)
    · next hplus =>
      cases hplus
      exact absurd (hsign '+' rfl) (by decide)
    · rfl

theorem stopsAt_dropWhile (p : Char → Bool) (s : CString) : StopsAt p (s.dropWhile p) := by
  intro c hc
  have hnot := List.head?_dropWhile_not p s
  rw [hc] at hnot
  simpa using hnot

/-- The number that is read is one that the string begins with. -/
theorem spells_number (s : CString) : Spells s (number s) := by
  have hdigits (s : CString) : ∀ c ∈ s.takeWhile Char.isDigit, c.isDigit = true :=
    fun c hc => List.mem_takeWhile_imp hc
  have hstops (s : CString) := stopsAt_dropWhile Char.isDigit s
  have hvalue (s : CString) :
      digitsValue s = Nat.ofDigitChars 10 (s.takeWhile Char.isDigit) 0 := rfl
  have hscan (s : CString) : s.takeWhile Char.isDigit ++ s.dropWhile Char.isDigit = s :=
    List.takeWhile_append_dropWhile
  induction s with
  | nil =>
    have hnone : ∀ c ∈ ([] : CString), c.isDigit = true := fun c hc => absurd hc List.not_mem_nil
    exact Spells.plain hnone (stopsAt_nil _) (stopsAt_nil _) (stopsAt_nil _)
  | cons c s ih =>
    by_cases hspace : isspace c = true
    · rw [number_cons_of_isspace hspace]
      exact .blank hspace ih
    · by_cases hminus : c = '-'
      · have h := Spells.minus (hdigits s) (hstops s)
        rw [hscan] at h
        rw [hminus, number_minus, hvalue]
        exact h
      · by_cases hplus : c = '+'
        · have h := Spells.plus (hdigits s) (hstops s)
          rw [hscan] at h
          rw [hplus, number_plus, hvalue]
          exact h
        · -- Neither white space nor a sign comes first.
          have hblank : StopsAt isspace (c :: s) := stopsAt_cons (by simpa using hspace) s
          have hsign : StopsAt isSign (c :: s) := stopsAt_cons (by simp [isSign, hminus, hplus]) s
          have h := Spells.plain (hdigits (c :: s)) (hstops (c :: s))
          rw [hscan] at h
          rw [number_of_stopsAt hblank hsign, hvalue]
          exact h hblank hsign

/-- **The number that a string begins with** is the one that is read. -/
theorem spells_iff {n : ℤ} : Spells s n ↔ number s = n := by
  constructor
  · intro h
    induction h with
    | blank hc h ih => rw [number_cons_of_isspace hc, ih]
    | minus hdigits hrest => rw [number_minus, digitsValue_append hdigits hrest]
    | plus hdigits hrest => rw [number_plus, digitsValue_append hdigits hrest]
    | plain hdigits hrest hspace hsign =>
      rw [number_of_stopsAt hspace hsign, digitsValue_append hdigits hrest]
  · rintro rfl
    exact spells_number s

end Numbers

/-! ## Printed numbers -/

theorem isspace_of_isDigit {c : Char} (hc : c.isDigit = true) : isspace c = false := by
  simp only [Char.isDigit, isspace, Bool.and_eq_true, decide_eq_true_eq] at hc ⊢
  have h0 : 48 ≤ c.toNat := hc.1
  have hne : c ≠ ' ' := by
    rintro rfl
    exact absurd h0 (by decide)
  simp only [hne, decide_false, Bool.false_or, Bool.and_eq_false_iff, decide_eq_false_iff_not]
  omega

theorem isSign_of_isDigit {c : Char} (hc : c.isDigit = true) : isSign c = false := by
  have hminus : c ≠ '-' := by
    rintro rfl
    exact absurd hc (by decide)
  have hplus : c ≠ '+' := by
    rintro rfl
    exact absurd hc (by decide)
  simp [isSign, hminus, hplus]

theorem isDigit_of_mem_decimal {n : ℕ} {c : Char} (hc : c ∈ decimal n) : c.isDigit = true := by
  rw [decimal_natCast] at hc
  exact Nat.isDigit_of_mem_toDigits (by decide) (by decide) hc

theorem exists_decimal_eq_cons (n : ℕ) : ∃ c s, decimal n = c :: s ∧ c.isDigit = true := by
  cases hdigits : decimal n with
  | nil => exact absurd ((decimal_natCast n).symm.trans hdigits) Nat.toDigits_ne_nil
  | cons c s => exact ⟨c, s, rfl, isDigit_of_mem_decimal (hdigits ▸ List.mem_cons_self)⟩

theorem number_decimal_append (n : ℕ) {rest : CString} (hrest : StopsAt Char.isDigit rest) :
    number (decimal n ++ rest) = n := by
  have hvalue : digitsValue (decimal n ++ rest) = n := by
    rw [digitsValue_append (fun _ => isDigit_of_mem_decimal) hrest, decimal_natCast]
    exact Nat.ofDigitChars_ten_toDigits
  -- The first character is a digit, so it is neither white space nor a sign.
  obtain ⟨c, s, hdecimal, hc⟩ := exists_decimal_eq_cons n
  rw [hdecimal, List.cons_append] at hvalue ⊢
  rw [number_of_stopsAt (stopsAt_cons (isspace_of_isDigit hc) _)
    (stopsAt_cons (isSign_of_isDigit hc) _), hvalue]

theorem toLong_natCast {n : ℕ} (hn : n < 2 ^ 63) : toLong n = n := by
  unfold toLong longBits
  omega

/-- **A printed number is read back**, up to the text that follows it and modulo the words of `int`,
if a `long` holds it. -/
theorem atoi_decimal_append {n : ℕ} (hn : n < 2 ^ 63) {rest : CString}
    (hrest : StopsAt Char.isDigit rest) : atoi (decimal n ++ rest) = BitVec.ofNat 32 n := by
  rw [atoi, strtol, number_decimal_append n hrest, toLong_natCast hn, BitVec.ofInt_natCast]

theorem atoi_decimal {n : ℕ} (hn : n < 2 ^ 63) : atoi (decimal n) = BitVec.ofNat 32 n := by
  have h := atoi_decimal_append hn (stopsAt_nil _)
  rwa [List.append_nil] at h

/-! ## Other texts -/

/-- A number printed with `%X`, and with zeros in front up to a width. -/
def upperHex (width n : ℕ) : CString :=
  let digits := (Nat.toDigits 16 n).map Char.toUpper
  List.replicate (width - digits.length) '0' ++ digits

example : upperHex 4 0xab = "00AB".toList := by decide

/-- A number printed with `%x`, and with zeros in front up to a width. -/
def lowerHex (width n : ℕ) : CString :=
  List.replicate (width - (Nat.toDigits 16 n).length) '0' ++ Nat.toDigits 16 n

example : lowerHex 8 0xab = "000000ab".toList := by decide

/-- What `perror` prints, with the text of `errno`. -/
def perror (text error : CString) : CString := text ++ ": ".toList ++ error ++ "\n".toList

/-- The end of a process: the status of `exit`, and the message before it. -/
structure Exit where
  status : ℤ
  message : CString
deriving Repr, DecidableEq

end LinuxTest
