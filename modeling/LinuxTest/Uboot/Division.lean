import LinuxTest.Foundations.Arm
import LinuxTest.Foundations.WhileLoop

/-!
# The division helpers of the bare-metal tests

The compiler calls `__aeabi_uidiv` and `__aeabi_uidivmod` for the unsigned divisions of the
bare-metal tests. `preloader-uboot/uboot-api/crtinit.c` has its own `__aeabi_uidiv`, a loop over
the multiples of the divisor, and `preloader-uboot/uboot-lib/startup.S` a wrapper in assembly that
calls it and computes the remainder from its result.

The loop counts no quotient: it returns the multiple itself at which it stops, the first one that
is not below the dividend. The addition wraps around at `2 ^ 32`, so that close to the top of the
range the loop can step over the dividend, and it never stops when no multiple hits the gap.

## Main definitions

* `aeabiUidiv`: the loop
* `uidivmodCode`, `aeabiUidivmod`: the wrapper

## Main results

* `aeabiUidiv_eq_some_iff`: the result is the first multiple modulo `2 ^ 32` not below the dividend
* `aeabiUidiv_terminates_iff`: when the loop terminates
* `aeabiUidivmod_spec`: what the wrapper leaves in the registers
* `division_contract_iff`: when the helpers divide
-/

namespace LinuxTest.Uboot

open Foundations Foundations.Arm

/-- `__aeabi_uidiv`: the loop, within `fuel` iterations. -/
def aeabiUidiv (fuel : ℕ) (num den : BitVec 32) : Option (BitVec 32) :=
  whileLoop (fun x => x < num) (fun x => x + den) fuel den

/-- The procedures that the wrapper calls. -/
inductive Label where
  | aeabiUidiv
deriving Repr, DecidableEq

/-- The instructions of `__aeabi_uidivmod`. -/
def uidivmodCode : List (Instr Label) :=
  [.stmfd .sp [.r0, .r1, .ip, .lr],
   .bl .aeabiUidiv,
   .ldmfd .sp [.r1, .r2, .ip, .lr],
   .mul .r3 .r0 .r2,
   .sub .r1 .r1 .r3,
   .mov .pc .lr]

/-- The compiled `__aeabi_uidiv`; `junk` is what it leaves where it is free to. -/
def procedure (junk : Machine) (fuel : ℕ) : Label → Machine → Option Machine
  | .aeabiUidiv => call (aeabiUidiv fuel) junk

/-- `__aeabi_uidivmod`: the machine when it returns. -/
def aeabiUidivmod (junk : Machine) (fuel : ℕ) (m : Machine) : Option Machine :=
  runCode (procedure junk fuel) uidivmodCode m

/-! ## The loop -/

section Loop

variable {num den : BitVec 32}

/-- The iterates of the loop are the multiples of the divisor, modulo `2 ^ 32`. -/
theorem toNat_iterate_add (den : BitVec 32) (k : ℕ) :
    ((fun x => x + den)^[k] den).toNat = (k + 1) * den.toNat % 2 ^ 32 := by
  induction k with
  | zero =>
    rw [Function.iterate_zero_apply, Nat.zero_add, Nat.one_mul, Nat.mod_eq_of_lt den.isLt]
  | succ k ih =>
    rw [Function.iterate_succ_apply', BitVec.toNat_add, ih, Nat.mod_add_mod, ← Nat.succ_mul]

/-- **The result of the loop** is the first multiple of the divisor, modulo `2 ^ 32`, that is not
below the dividend. -/
theorem aeabiUidiv_eq_some_iff {x : BitVec 32} :
    (∃ fuel, aeabiUidiv fuel num den = some x) ↔
      ∃ k, x.toNat = (k + 1) * den.toNat % 2 ^ 32 ∧ num.toNat ≤ x.toNat ∧
        ∀ j < k, (j + 1) * den.toNat % 2 ^ 32 < num.toNat := by
  unfold aeabiUidiv
  rw [exists_whileLoop_iff]
  refine exists_congr fun k => and_congr ?_ (and_congr ?_ ?_)
  · rw [← toNat_iterate_add, BitVec.toNat_inj]
  · rw [BitVec.lt_def, not_lt]
  · simp only [BitVec.lt_def, toNat_iterate_add]

theorem exists_aeabiUidiv_iff :
    (∃ fuel x, aeabiUidiv fuel num den = some x) ↔
      ∃ k, num.toNat ≤ (k + 1) * den.toNat % 2 ^ 32 := by
  unfold aeabiUidiv
  rw [exists_whileLoop_isSome_iff]
  simp only [BitVec.lt_def, toNat_iterate_add, not_lt]

/-- **When the loop terminates**: exactly when the dividend is at most `2 ^ 32` less the greatest
common divisor of the divisor and `2 ^ 32`. -/
theorem aeabiUidiv_terminates_iff (num den : BitVec 32) :
    (∃ fuel x, aeabiUidiv fuel num den = some x) ↔
      num.toNat ≤ 2 ^ 32 - Nat.gcd den.toNat (2 ^ 32) := by
  rw [exists_aeabiUidiv_iff, exists_le_mul_mod_iff (by norm_num)]

/-- The even numbers never reach the largest dividend. -/
theorem aeabiUidiv_max_two_diverges :
    ¬ ∃ fuel x, aeabiUidiv fuel (BitVec.ofNat 32 (2 ^ 32 - 1)) 2 = some x := by
  rw [exists_aeabiUidiv_iff]
  rintro ⟨k, hk⟩
  have hnum : (BitVec.ofNat 32 (2 ^ 32 - 1)).toNat = 2 ^ 32 - 1 := by decide
  have hden : (2 : BitVec 32).toNat = 2 := rfl
  rw [hnum, hden] at hk
  omega

/-- The result is not below the dividend; for the dividend zero it is the divisor. -/
theorem le_of_aeabiUidiv {fuel : ℕ} {x : BitVec 32} (h : aeabiUidiv fuel num den = some x) :
    num.toNat ≤ x.toNat ∧ (num.toNat = 0 → x.toNat = den.toNat) := by
  obtain ⟨k, hx, hle, hall⟩ := aeabiUidiv_eq_some_iff.mp ⟨fuel, h⟩
  refine ⟨hle, fun h0 => ?_⟩
  cases k with
  | zero => rw [hx, Nat.zero_add, Nat.one_mul, Nat.mod_eq_of_lt den.isLt]
  | succ k =>
    have := hall 0 (Nat.succ_pos k)
    omega

/-- Divided by one, a number that is not zero is found after as many steps. -/
theorem exists_aeabiUidiv_one (hnum : 1 ≤ num.toNat) :
    ∃ fuel, aeabiUidiv fuel num 1 = some num := by
  have hlt := num.isLt
  have hone : (1 : BitVec 32).toNat = 1 := rfl
  refine aeabiUidiv_eq_some_iff.mpr ⟨num.toNat - 1, ?_, le_rfl, fun j hj => ?_⟩
  · rw [hone, Nat.mul_one, Nat.sub_add_cancel hnum, Nat.mod_eq_of_lt hlt]
  · rw [hone, Nat.mul_one, Nat.mod_eq_of_lt (by omega)]
    omega

end Loop

/-! ## The wrapper -/

section Wrapper

variable {junk m : Machine} {fuel : ℕ}

/-- **What the wrapper leaves in the registers** when the loop returns `q`: the result, the dividend
less its product with the divisor, and the stack pointer and `ip` as they were; it returns to its
caller. -/
theorem aeabiUidivmod_spec (junk : Machine) {q : BitVec 32}
    (hq : aeabiUidiv fuel (m.reg .r0) (m.reg .r1) = some q)
    (hstack : 16 ≤ (m.reg .sp).toNat) :
    ∃ m', aeabiUidivmod junk fuel m = some m' ∧ m'.reg .r0 = q ∧
      m'.reg .r1 = m.reg .r0 - q * m.reg .r1 ∧ m'.reg .pc = m.reg .lr ∧
      m'.reg .sp = m.reg .sp ∧ m'.reg .ip = m.reg .ip := by
  have hproc : procedure junk fuel .aeabiUidiv = call (aeabiUidiv fuel) junk := rfl
  obtain ⟨m₃, hrun, hsp, hr0, hsaved⟩ := runCode_saved_call hproc hq [.r0, .r1, .ip, .lr]
    [.r1, .r2, .ip, .lr] rfl hstack (by decide) (by decide) (by decide)
  have hr1 : m₃.reg .r1 = m.reg .r0 := hsaved 0 (by decide)
  have hr2 : m₃.reg .r2 = m.reg .r1 := hsaved 1 (by decide)
  have hip : m₃.reg .ip = m.reg .ip := hsaved 2 (by decide)
  have hlr : m₃.reg .lr = m.reg .lr := hsaved 3 (by decide)
  refine ⟨_, (runCode_append hrun [.mul .r3 .r0 .r2, .sub .r1 .r1 .r3, .mov .pc .lr]).trans rfl,
    hr0, ?_, hlr, hsp, hip⟩
  change m₃.reg .r1 - m₃.reg .r0 * m₃.reg .r2 = _
  rw [hr0, hr1, hr2]

/-- The wrapper returns only if the loop does. -/
theorem exists_of_aeabiUidivmod {m' : Machine} (hstack : 16 ≤ (m.reg .sp).toNat)
    (h : aeabiUidivmod junk fuel m = some m') :
    ∃ q, aeabiUidiv fuel (m.reg .r0) (m.reg .r1) = some q ∧ m'.reg .r0 = q := by
  cases hq : aeabiUidiv fuel (m.reg .r0) (m.reg .r1) with
  | none =>
    have hcall : call (aeabiUidiv fuel) junk (stmfd m .sp [.r0, .r1, .ip, .lr]) = none := by
      rw [call, stmfd_reg_of_ne m .sp _ (by decide : Reg.r0 ≠ .sp),
        stmfd_reg_of_ne m .sp _ (by decide : Reg.r1 ≠ .sp), hq, Option.map_none]
    rw [aeabiUidivmod, runCode, uidivmodCode, run_cons, exec, Option.bind_some, run_cons, exec,
      procedure, hcall] at h
    exact absurd h (by simp)
  | some q =>
    obtain ⟨m₁, h₁, hr0, -⟩ := aeabiUidivmod_spec junk hq hstack
    obtain rfl : m₁ = m' := Option.some_inj.mp (h₁.symm.trans h)
    exact ⟨q, rfl, hr0⟩

end Wrapper

/-! ## The contract of the run-time library -/

section Contract

variable {num den : BitVec 32}

/-- The loop returns the quotient only for the divisor one. -/
theorem aeabiUidiv_quotient_iff (hden : 1 ≤ den.toNat) :
    (∃ fuel q, aeabiUidiv fuel num den = some q ∧ q.toNat = num.toNat / den.toNat) ↔
      den.toNat = 1 ∧ 1 ≤ num.toNat := by
  constructor
  · rintro ⟨fuel, q, hq, hdiv⟩
    obtain ⟨hle, hzero⟩ := le_of_aeabiUidiv hq
    have hnum : 1 ≤ num.toNat := by
      by_contra h0
      have := hzero (by omega)
      rw [show num.toNat = 0 by omega, Nat.zero_div] at hdiv
      omega
    refine ⟨?_, hnum⟩
    by_contra hne
    have := Nat.div_lt_self (by omega : 0 < num.toNat) (by omega : 1 < den.toNat)
    omega
  · rintro ⟨hone, hnum⟩
    obtain rfl : den = 1 := BitVec.eq_of_toNat_eq hone
    obtain ⟨fuel, h⟩ := exists_aeabiUidiv_one hnum
    exact ⟨fuel, num, h, by rw [hone, Nat.div_one]⟩

theorem quotient_unique {n q d r : ℕ} (h : n = q * d + r) (hr : r < d) : q = n / d := by
  rw [h, Nat.mul_comm, Nat.mul_add_div (by omega), Nat.div_eq_of_lt hr, Nat.add_zero]

/-- The wrapper leaves quotient and remainder only for the divisor one. -/
theorem aeabiUidivmod_quotient_iff (junk m : Machine) (hr0 : m.reg .r0 = num)
    (hr1 : m.reg .r1 = den) (hden : 1 ≤ den.toNat) (hstack : 16 ≤ (m.reg .sp).toNat) :
    (∃ fuel m', aeabiUidivmod junk fuel m = some m' ∧
      num.toNat = (m'.reg .r0).toNat * den.toNat + (m'.reg .r1).toNat ∧
      (m'.reg .r1).toNat < den.toNat) ↔ den.toNat = 1 ∧ 1 ≤ num.toNat := by
  constructor
  · rintro ⟨fuel, m', hm', hsum, hrem⟩
    obtain ⟨q, hq, hq'⟩ := exists_of_aeabiUidivmod hstack hm'
    rw [hr0, hr1] at hq
    exact (aeabiUidiv_quotient_iff hden).mp
      ⟨fuel, q, hq, hq' ▸ quotient_unique hsum hrem⟩
  · rintro ⟨hone, hnum⟩
    obtain rfl : den = 1 := BitVec.eq_of_toNat_eq hone
    obtain ⟨fuel, hq⟩ := exists_aeabiUidiv_one hnum
    rw [← hr0, ← hr1] at hq
    obtain ⟨m', hm', h0, h1, -⟩ := aeabiUidivmod_spec junk hq hstack
    rw [hr0] at h0
    rw [hr0, hr1, mul_one, sub_self] at h1
    refine ⟨fuel, m', hm', ?_, ?_⟩
    · rw [h0, h1, hone]
      simp
    · rw [h1, hone]
      decide

/-- **When the helpers satisfy the contract of the run-time library**: `__aeabi_uidiv` returns the
quotient and `__aeabi_uidivmod` leaves quotient and remainder, exactly for the divisor one and a
dividend that is not zero. -/
theorem division_contract_iff (junk m : Machine) (hr0 : m.reg .r0 = num) (hr1 : m.reg .r1 = den)
    (hden : 1 ≤ den.toNat) (hstack : 16 ≤ (m.reg .sp).toNat) :
    ((∃ fuel q, aeabiUidiv fuel num den = some q ∧ q.toNat = num.toNat / den.toNat) ∧
      ∃ fuel m', aeabiUidivmod junk fuel m = some m' ∧
        num.toNat = (m'.reg .r0).toNat * den.toNat + (m'.reg .r1).toNat ∧
        (m'.reg .r1).toNat < den.toNat) ↔
      den.toNat = 1 ∧ 1 ≤ num.toNat := by
  rw [aeabiUidiv_quotient_iff hden, aeabiUidivmod_quotient_iff junk m hr0 hr1 hden hstack, and_self]

/-- Seven divided by one, with the stack at the end of a page. -/
theorem division_contract_seven_one :
    (∃ fuel q, aeabiUidiv fuel 7 1 = some q ∧
      q.toNat = (7 : BitVec 32).toNat / (1 : BitVec 32).toNat) ∧
    ∃ fuel m', aeabiUidivmod ⟨fun _ => 0, fun _ => 0⟩ fuel
        ⟨fun r => if r = .r0 then 7 else if r = .r1 then 1 else 4096, fun _ => 0⟩ = some m' ∧
      (7 : BitVec 32).toNat = (m'.reg .r0).toNat * (1 : BitVec 32).toNat + (m'.reg .r1).toNat ∧
      (m'.reg .r1).toNat < (1 : BitVec 32).toNat := by
  have h7 : (if Reg.r0 = .r0 then (7 : BitVec 32) else if Reg.r0 = .r1 then 1 else 4096) = 7 := rfl
  have h1 : (if Reg.r1 = .r0 then (7 : BitVec 32) else if Reg.r1 = .r1 then 1 else 4096) = 1 := rfl
  exact (division_contract_iff _ ⟨fun r => if r = .r0 then 7 else if r = .r1 then 1 else 4096, _⟩
    h7 h1 (by decide) (by decide)).mpr (by decide)

/-- A hundred divided by ten is not ten: the loop returns the dividend. -/
theorem aeabiUidiv_hundred_ten :
    ¬ ∃ fuel q, aeabiUidiv fuel 100 10 = some q ∧ q.toNat = (100 : BitVec 32).toNat /
      (10 : BitVec 32).toNat := by
  rintro ⟨fuel, q, hq, hdiv⟩
  have hle : (100 : BitVec 32).toNat ≤ q.toNat := (le_of_aeabiUidiv hq).1
  rw [hdiv] at hle
  exact absurd hle (by decide)

end Contract

end LinuxTest.Uboot
