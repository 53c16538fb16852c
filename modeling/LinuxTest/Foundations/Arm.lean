import LinuxTest.Foundations.PartialRun
import Mathlib.Data.BitVec

/-!
# Straight-line ARM code with procedure calls

The registers and the word-addressed memory of an ARM core, the instructions that a hand-written
wrapper around a procedure consists of, and the call of a procedure under the procedure call
standard: the arguments and the result are in `r0` and `r1`, the registers `r4` to `r11` and the
stack pointer are preserved, and everything else, and the memory below the stack pointer, may hold
anything afterwards.

## Main definitions

* `Arm.Reg`, `Arm.Machine`: the state
* `Arm.Instr`, `Arm.exec`, `Arm.runCode`: the instructions, and code without branches
* `Arm.call f junk`: a procedure that computes `f` and leaves `junk` where it is free to

## Main results

* `Arm.runCode_saved_call`: registers saved before a call are restored after it, in the registers
  the load names, and the result is in `r0`
-/

namespace Foundations.Arm

/-- The registers. -/
inductive Reg where
  | r0 | r1 | r2 | r3 | r4 | r5 | r6 | r7 | r8 | r9 | r10 | r11 | ip | sp | lr | pc
deriving Repr, DecidableEq

/-- The registers, and the memory as a function from word addresses. -/
structure Machine where
  reg : Reg → BitVec 32
  mem : BitVec 32 → BitVec 32

/-- A machine with another value in one register. -/
def Machine.set (m : Machine) (r : Reg) (v : BitVec 32) : Machine :=
  { m with reg := Function.update m.reg r v }

/-- The memory after the registers `rs` are stored at consecutive words from `a` on. -/
def stm (m : Machine) (rs : List Reg) (a : BitVec 32) : BitVec 32 → BitVec 32 := fun b =>
  if (b - a).toNat % 4 = 0 then (rs[(b - a).toNat / 4]?.map m.reg).getD (m.mem b) else m.mem b

/-- The registers after `rs` are loaded from consecutive words from `a` on. -/
def ldm (m : Machine) (rs : List Reg) (a : BitVec 32) : Reg → BitVec 32 := fun r =>
  if r ∈ rs then m.mem (a + BitVec.ofNat 32 (4 * rs.idxOf r)) else m.reg r

/-- The registers `rs` are stored below the address in `rn`, which is moved down to them. -/
def stmfd (m : Machine) (rn : Reg) (rs : List Reg) : Machine :=
  let a := m.reg rn - BitVec.ofNat 32 (4 * rs.length)
  { reg := Function.update m.reg rn a, mem := stm m rs a }

/-- The registers `rs` are loaded from the address in `rn` on, which is moved up past them. -/
def ldmfd (m : Machine) (rn : Reg) (rs : List Reg) : Machine :=
  let a := m.reg rn
  { m with reg := Function.update (ldm m rs a) rn (a + BitVec.ofNat 32 (4 * rs.length)) }

/-- The instructions; `bl` calls one of the procedures named by `L`. -/
inductive Instr (L : Type) where
  | stmfd (rn : Reg) (rs : List Reg)
  | ldmfd (rn : Reg) (rs : List Reg)
  | mul (rd rm rs : Reg)
  | sub (rd rn rm : Reg)
  | mov (rd rm : Reg)
  | bl (label : L)
deriving Repr

variable {L : Type}

/-- One instruction. -/
def exec (procedure : L → Machine → Option Machine) (m : Machine) : Instr L → Option Machine
  | .stmfd rn rs => some (stmfd m rn rs)
  | .ldmfd rn rs => some (ldmfd m rn rs)
  | .mul rd rm rs => some (m.set rd (m.reg rm * m.reg rs))
  | .sub rd rn rm => some (m.set rd (m.reg rn - m.reg rm))
  | .mov rd rm => some (m.set rd (m.reg rm))
  | .bl label => procedure label m

/-- Code without branches, to its end. -/
def runCode (procedure : L → Machine → Option Machine) (code : List (Instr L)) (m : Machine) :
    Option Machine :=
  run (exec procedure) m code

theorem runCode_append {procedure : L → Machine → Option Machine} {m m' : Machine}
    {code : List (Instr L)} (h : runCode procedure code m = some m') (code' : List (Instr L)) :
    runCode procedure (code ++ code') m = runCode procedure code' m' := by
  unfold runCode at h ⊢
  rw [run_append, h, Option.bind_some]

section Registers

variable (m : Machine) (rn : Reg) (rs : List Reg) {r : Reg}

@[simp] theorem stmfd_reg_self :
    (stmfd m rn rs).reg rn = m.reg rn - BitVec.ofNat 32 (4 * rs.length) :=
  Function.update_self ..

theorem stmfd_reg_of_ne (h : r ≠ rn) : (stmfd m rn rs).reg r = m.reg r :=
  Function.update_of_ne h _ _

@[simp] theorem ldmfd_reg_self :
    (ldmfd m rn rs).reg rn = m.reg rn + BitVec.ofNat 32 (4 * rs.length) :=
  Function.update_self ..

theorem ldmfd_reg_of_ne (h : r ≠ rn) : (ldmfd m rn rs).reg r = ldm m rs (m.reg rn) r :=
  Function.update_of_ne h _ _

end Registers

/-! ## Procedure calls -/

/-- The registers that a procedure preserves. -/
def calleeSaved : Reg → Bool
  | .r4 | .r5 | .r6 | .r7 | .r8 | .r9 | .r10 | .r11 | .sp => true
  | _ => false

/-- A call of a procedure that computes `f` from its two arguments, if it returns; `junk` is what
it leaves in the other registers and in the memory below the stack pointer. -/
def call (f : BitVec 32 → BitVec 32 → Option (BitVec 32)) (junk m : Machine) : Option Machine :=
  (f (m.reg .r0) (m.reg .r1)).map fun result =>
    { reg := fun r =>
        if r = .r0 then result else if calleeSaved r then m.reg r else junk.reg r
      mem := fun a => if m.reg .sp ≤ a then m.mem a else junk.mem a }

/-- A call that returns leaves its result in `r0`, and keeps the stack pointer and the words at and
above it. -/
theorem exists_call {f : BitVec 32 → BitVec 32 → Option (BitVec 32)} {m : Machine}
    {result : BitVec 32} (hresult : f (m.reg .r0) (m.reg .r1) = some result) (junk : Machine) :
    ∃ m', call f junk m = some m' ∧ m'.reg .r0 = result ∧ m'.reg .sp = m.reg .sp ∧
      ∀ a, m.reg .sp ≤ a → m'.mem a = m.mem a := by
  have hcall : call f junk m = some
      { reg := fun r =>
          if r = .r0 then result else if calleeSaved r then m.reg r else junk.reg r
        mem := fun a => if m.reg .sp ≤ a then m.mem a else junk.mem a } := by
    rw [call, hresult, Option.map_some]
  exact ⟨_, hcall, rfl, rfl, fun a ha => if_pos ha⟩

/-! ## Saved words -/

/-- A stored word is read back. -/
theorem stm_apply (m : Machine) {rs : List Reg} (a : BitVec 32) {i : ℕ} (hi : i < rs.length)
    (hlen : rs.length ≤ 2 ^ 30) :
    stm m rs a (a + BitVec.ofNat 32 (4 * i)) = m.reg (rs.get ⟨i, hi⟩) := by
  have hoff : (a + BitVec.ofNat 32 (4 * i) - a).toNat = 4 * i := by
    rw [add_sub_cancel_left, BitVec.toNat_ofNat]
    exact Nat.mod_eq_of_lt (by omega)
  rw [stm, hoff, if_pos (Nat.mul_mod_right 4 i), Nat.mul_div_cancel_left i (by decide),
    List.getElem?_eq_getElem hi]
  rfl

/-- The words of a frame of `n` words below `s` lie at and above its end. -/
theorem frame_le {s : BitVec 32} {n i : ℕ} (hs : 4 * n ≤ s.toNat) (hi : i < n) :
    s - BitVec.ofNat 32 (4 * n) ≤ s - BitVec.ofNat 32 (4 * n) + BitVec.ofNat 32 (4 * i) := by
  have := s.isLt
  have hend : (s - BitVec.ofNat 32 (4 * n)).toNat = s.toNat - 4 * n := by
    rw [BitVec.toNat_sub_of_le]
    · rw [BitVec.toNat_ofNat, Nat.mod_eq_of_lt (by omega)]
    · rw [BitVec.le_def, BitVec.toNat_ofNat, Nat.mod_eq_of_lt (by omega)]
      exact hs
  rw [BitVec.le_def, BitVec.toNat_add, hend, BitVec.toNat_ofNat, Nat.mod_eq_of_lt (a := 4 * i)
    (by omega), Nat.mod_eq_of_lt (by omega)]
  omega

/-- **Save, call, restore**: the saved registers come back in those the load names, the stack
pointer is the old one, and the result of the procedure is in `r0`. -/
theorem runCode_saved_call {procedure : L → Machine → Option Machine} {label : L}
    {f : BitVec 32 → BitVec 32 → Option (BitVec 32)} {junk m : Machine}
    (hproc : procedure label = call f junk) {result : BitVec 32}
    (hresult : f (m.reg .r0) (m.reg .r1) = some result) (rs rs' : List Reg)
    (hlen : rs'.length = rs.length) (hstack : 4 * rs.length ≤ (m.reg .sp).toNat)
    (hnodup : rs'.Nodup) (hsp : .sp ∉ rs') (hr0 : .r0 ∉ rs') :
    ∃ m', runCode procedure [.stmfd .sp rs, .bl label, .ldmfd .sp rs'] m = some m' ∧
      m'.reg .sp = m.reg .sp ∧ m'.reg .r0 = result ∧
      ∀ i (hi : i < rs.length), m'.reg (rs'.get ⟨i, hlen ▸ hi⟩) = m.reg (rs.get ⟨i, hi⟩) := by
  have hlt := (m.reg .sp).isLt
  have hargs : f ((stmfd m .sp rs).reg .r0) ((stmfd m .sp rs).reg .r1) = some result := by
    rw [stmfd_reg_of_ne _ _ _ (by decide), stmfd_reg_of_ne _ _ _ (by decide), hresult]
  obtain ⟨m₂, hcall, hres, hsp₂, hmem⟩ := exists_call hargs junk
  rw [stmfd_reg_self] at hsp₂ hmem
  refine ⟨ldmfd m₂ .sp rs', ?_, ?_, ?_, fun i hi => ?_⟩
  · rw [runCode, run_cons, exec, Option.bind_some, run_cons, exec, hproc, hcall, Option.bind_some,
      run_cons, exec, Option.bind_some, run_nil]
  · rw [ldmfd_reg_self, hsp₂, hlen, sub_add_cancel]
  · rw [ldmfd_reg_of_ne _ _ _ (by decide), ldm, if_neg hr0, hres]
  · have hmem' : rs'.get ⟨i, hlen ▸ hi⟩ ∈ rs' := List.get_mem rs' ⟨i, hlen ▸ hi⟩
    have hne : rs'.get ⟨i, hlen ▸ hi⟩ ≠ .sp := fun heq => hsp (heq ▸ hmem')
    have hidx : rs'.idxOf (rs'.get ⟨i, hlen ▸ hi⟩) = i := hnodup.idxOf_getElem i (hlen ▸ hi)
    -- The callee keeps the frame, so the word is the one that was saved.
    rw [ldmfd_reg_of_ne _ _ _ hne, ldm, if_pos hmem', hsp₂,
      hidx, hmem _ (frame_le hstack hi)]
    exact stm_apply m _ hi (by omega)

end Foundations.Arm
