import LinuxTest.Foundations.OnesComplement
import Mathlib.Data.BitVec

/-!
# The checksum of an echo request

The function `in_cksum` of `ethernet_test/ping/ping.c`, and the packet that `pinger` puts together.
Words are read with the low byte first, as on the machines the test is built for, and the 32 bits of
`sum` hold the sum of any packet that fits an IP datagram.

## Main definitions

* `inCksum`: the checksum of a packet
* `echoRequest`: the packet of `pinger`, before and after its checksum is filled in

## Main results

* `toNat_inCksum`: the checksum is the complement of the sum modulo `2 ^ 16 - 1`
* `inCksum_pingerPacket`: a packet of `pinger` passes the check
* `inCksum_damaged_iff`: what the check does not see of a damaged word
-/

namespace LinuxTest.Ping

open Foundations

/-! ## The function `in_cksum` -/

/-- The word of two bytes. -/
def word (lo hi : BitVec 8) : BitVec 16 := hi ++ lo

/-- The loop that adds the words, and the odd byte. -/
def sumWords : List (BitVec 8) → BitVec 32 → BitVec 32
  | lo :: hi :: w, sum => sumWords w (sum + (word lo hi).setWidth 32)
  | [b], sum => sum + b.setWidth 32
  | [], sum => sum

/-- The checksum of a packet. -/
def inCksum (addr : List (BitVec 8)) : BitVec 16 :=
  let sum := sumWords addr 0
  let sum := sum.sshiftRight 16 + (sum &&& 0xffff)
  let sum := sum + sum.sshiftRight 16
  (~~~sum).setWidth 16

example : inCksum [0x08, 0x00, 0x00, 0x00, 0x34, 0x12, 0x01] = 0xedc2 := by decide

/-- The sum of the words of a packet, without a bound. -/
def wordSum : List (BitVec 8) → ℕ
  | lo :: hi :: w => (word lo hi).toNat + wordSum w
  | [b] => b.toNat
  | [] => 0

section Sum

variable {p : List (BitVec 8)}

theorem wordSum_le (p : List (BitVec 8)) : wordSum p ≤ 65535 * ((p.length + 1) / 2) := by
  induction p using wordSum.induct with
  | case1 lo hi w ih =>
    have hword := (word lo hi).isLt
    rw [wordSum, List.length_cons, List.length_cons]
    omega
  | case2 b =>
    have hbyte := b.isLt
    rw [wordSum, List.length_singleton]
    omega
  | case3 => exact Nat.zero_le _

/-- The sum of a packet that fits an IP datagram is not negative as an `int`. -/
theorem wordSum_lt (hp : p.length ≤ 65536) : wordSum p < 2 ^ 31 := by
  have hle := wordSum_le p
  omega

theorem toNat_sumWords (p : List (BitVec 8)) (sum : BitVec 32)
    (h : sum.toNat + wordSum p < 2 ^ 32) : (sumWords p sum).toNat = sum.toNat + wordSum p := by
  induction p, sum using sumWords.induct with
  | case1 lo hi w sum ih =>
    rw [wordSum] at h
    have hword : ((word lo hi).setWidth 32).toNat = (word lo hi).toNat :=
      BitVec.toNat_setWidth_of_le (by decide)
    have hadd : (sum + (word lo hi).setWidth 32).toNat = sum.toNat + (word lo hi).toNat := by
      rw [BitVec.toNat_add, hword]
      exact Nat.mod_eq_of_lt (by omega)
    rw [sumWords, ih (by omega), wordSum, hadd, Nat.add_assoc]
  | case2 b sum =>
    rw [wordSum] at h
    have hbyte : (b.setWidth 32).toNat = b.toNat := BitVec.toNat_setWidth_of_le (by decide)
    rw [sumWords, wordSum, BitVec.toNat_add, hbyte]
    exact Nat.mod_eq_of_lt h
  | case3 sum => rfl

theorem toNat_sshiftRight_of_lt {x : BitVec 32} (h : x.toNat < 2 ^ 31) :
    (x.sshiftRight 16).toNat = x.toNat / 2 ^ 16 := by
  have hmsb : x.msb = false := by
    rw [BitVec.msb_eq_false_iff_two_mul_lt]
    omega
  rw [BitVec.sshiftRight_eq_of_msb_false hmsb, BitVec.toNat_ushiftRight, Nat.shiftRight_eq_div_pow]

/-- **The checksum is the complement of the sum** modulo `2 ^ 16 - 1`. -/
theorem toNat_inCksum (hp : p.length ≤ 65536) :
    (inCksum p).toNat = 65535 - onesFold 65535 (wordSum p) := by
  have hlt := wordSum_lt hp
  have hsum : (sumWords p 0).toNat = wordSum p := by
    have hzero : (0 : BitVec 32).toNat = 0 := rfl
    rw [toNat_sumWords p 0 (by omega), hzero, Nat.zero_add]
  have hlow : (sumWords p 0 &&& 0xffff).toNat = wordSum p % 2 ^ 16 := by
    rw [BitVec.toNat_and, hsum]
    exact Nat.and_two_pow_sub_one_eq_mod (wordSum p) 16
  have hfirst : ((sumWords p 0).sshiftRight 16 + (sumWords p 0 &&& 0xffff)).toNat =
      wordSum p / 2 ^ 16 + wordSum p % 2 ^ 16 := by
    rw [BitVec.toNat_add, toNat_sshiftRight_of_lt (hsum.symm ▸ hlt), hlow, hsum]
    exact Nat.mod_eq_of_lt (by omega)
  have hsecond : ((sumWords p 0).sshiftRight 16 + (sumWords p 0 &&& 0xffff) +
      ((sumWords p 0).sshiftRight 16 + (sumWords p 0 &&& 0xffff)).sshiftRight 16).toNat =
      foldCarry (2 ^ 16) (wordSum p) := by
    rw [BitVec.toNat_add, toNat_sshiftRight_of_lt (by rw [hfirst]; omega), hfirst]
    exact Nat.mod_eq_of_lt (by omega)
  have hfold := foldCarry_mod (b := 2 ^ 16) (n := wordSum p) (by omega)
  have hle : onesFold 65535 (wordSum p) ≤ 65535 := onesFold_le (by decide)
  simp only [inCksum]
  rw [BitVec.toNat_setWidth, BitVec.toNat_not, hsecond]
  have hcarry : foldCarry (2 ^ 16) (wordSum p) < 2 ^ 32 := by
    rw [← hsecond]
    exact BitVec.isLt _
  have hfold' : foldCarry (2 ^ 16) (wordSum p) % 2 ^ 16 = onesFold 65535 (wordSum p) := hfold
  omega

/-- **When the check passes.** -/
theorem inCksum_eq_zero_iff (hp : p.length ≤ 65536) :
    inCksum p = 0 ↔ wordSum p ≠ 0 ∧ 65535 ∣ wordSum p := by
  have hle : onesFold 65535 (wordSum p) ≤ 65535 := onesFold_le (by decide)
  have hzero : (0 : BitVec 16).toNat = 0 := rfl
  rw [← onesFold_eq_self_iff (by decide : 0 < 65535), ← BitVec.toNat_inj, toNat_inCksum hp, hzero]
  omega

theorem wordSum_append {a : List (BitVec 8)} (ha : Even a.length) (b : List (BitVec 8)) :
    wordSum (a ++ b) = wordSum a + wordSum b := by
  induction a using wordSum.induct with
  | case1 lo hi w ih =>
    have heven : Even w.length := by
      rw [Nat.even_iff] at ha ⊢
      rw [List.length_cons, List.length_cons] at ha
      omega
    rw [List.cons_append, List.cons_append, wordSum, wordSum, ih heven, Nat.add_assoc]
  | case2 b => exact absurd ha Nat.not_even_one
  | case3 => exact (Nat.zero_add _).symm

end Sum

/-! ## The packets of `pinger` -/

/-- An echo request: the type, the code, the checksum, the identifier and the sequence number, with
the low byte of each field first, and the data. -/
def echoRequest (cksum ident seq : BitVec 16) (data : List (BitVec 8)) : List (BitVec 8) :=
  [8, 0, cksum.extractLsb' 0 8, cksum.extractLsb' 8 8, ident.extractLsb' 0 8,
    ident.extractLsb' 8 8, seq.extractLsb' 0 8, seq.extractLsb' 8 8] ++ data

/-- The packet that `pinger` sends: its checksum is that of the packet with none. -/
def pingerPacket (ident seq : BitVec 16) (data : List (BitVec 8)) : List (BitVec 8) :=
  echoRequest (inCksum (echoRequest 0 ident seq data)) ident seq data

section Packets

variable {ident seq : BitVec 16} {data : List (BitVec 8)}

theorem word_extract (x : BitVec 16) : word (x.extractLsb' 0 8) (x.extractLsb' 8 8) = x := by
  rw [word, BitVec.extractLsb'_append_extractLsb'_eq_extractLsb' (by decide)]
  exact BitVec.extractLsb'_eq_self

theorem wordSum_echoRequest (cksum ident seq : BitVec 16) (data : List (BitVec 8)) :
    wordSum (echoRequest cksum ident seq data) =
      8 + cksum.toNat + ident.toNat + seq.toNat + wordSum data := by
  have htype : (word 8 0).toNat = 8 := by decide
  simp only [echoRequest, List.cons_append, List.nil_append, wordSum, word_extract]
  rw [htype]
  omega

theorem length_echoRequest (cksum ident seq : BitVec 16) (data : List (BitVec 8)) :
    (echoRequest cksum ident seq data).length = data.length + 8 := rfl

/-- A packet of `pinger` passes the check. -/
theorem inCksum_pingerPacket (hdata : data.length ≤ 65528) :
    inCksum (pingerPacket ident seq data) = 0 := by
  have hlength (cksum : BitVec 16) : (echoRequest cksum ident seq data).length ≤ 65536 := by
    rw [length_echoRequest]
    omega
  have hsum := wordSum_echoRequest 0 ident seq data
  have hpacket := wordSum_echoRequest (inCksum (echoRequest 0 ident seq data)) ident seq data
  rw [toNat_inCksum (hlength 0)] at hpacket
  have hzero : (0 : BitVec 16).toNat = 0 := rfl
  have htotal : wordSum (pingerPacket ident seq data) =
      wordSum (echoRequest 0 ident seq data) +
        (65535 - onesFold 65535 (wordSum (echoRequest 0 ident seq data))) := by
    rw [pingerPacket, hpacket]
    omega
  rw [inCksum_eq_zero_iff (p := pingerPacket ident seq data) (hlength _),
    ← onesFold_eq_self_iff (by decide), htotal]
  exact onesFold_add_complement (by decide) _

/-- Two words are the same modulo `2 ^ 16 - 1` only if they are the two zeros. -/
theorem word_modEq_iff (w w' : BitVec 16) :
    w.toNat ≡ w'.toNat [MOD 65535] ↔ w' = w ∨ w = 0 ∧ w' = 0xffff ∨ w = 0xffff ∧ w' = 0 := by
  have hw := w.isLt
  have hw' := w'.isLt
  have hzero : (0 : BitVec 16).toNat = 0 := rfl
  have hones : (0xffff : BitVec 16).toNat = 65535 := rfl
  rw [← BitVec.toNat_inj, ← BitVec.toNat_inj, ← BitVec.toNat_inj, ← BitVec.toNat_inj,
    ← BitVec.toNat_inj, hzero, hones, Nat.ModEq]
  omega

/-- The first word of a packet is the type. -/
theorem first_word_of_pingerPacket {a b : List (BitVec 8)} {lo hi : BitVec 8}
    (hpacket : pingerPacket ident seq data = a ++ lo :: hi :: b) (ha : Even a.length) :
    (a = [] ∧ (word lo hi).toNat = 8) ∨ 0 < wordSum a := by
  rw [pingerPacket, echoRequest, List.cons_append, List.cons_append] at hpacket
  match a with
  | [] =>
    obtain ⟨rfl, hrest⟩ := List.cons.inj hpacket
    obtain ⟨rfl, -⟩ := List.cons.inj hrest
    exact Or.inl ⟨rfl, rfl⟩
  | [x] => exact absurd ha Nat.not_even_one
  | x :: y :: a =>
    obtain ⟨rfl, hrest⟩ := List.cons.inj hpacket
    obtain ⟨rfl, -⟩ := List.cons.inj hrest
    have htype : (word 8 0).toNat = 8 := rfl
    refine Or.inr ?_
    rw [wordSum]
    omega

/-- **What the check does not see** of a word of a packet of `pinger` that is damaged on the way:
that one of the two zeros has become the other. -/
theorem inCksum_damaged_iff (hdata : data.length ≤ 65528) {a b : List (BitVec 8)}
    {lo hi lo' hi' : BitVec 8} (ha : Even a.length)
    (hpacket : pingerPacket ident seq data = a ++ lo :: hi :: b) :
    inCksum (a ++ lo' :: hi' :: b) = 0 ↔
      word lo' hi' = word lo hi ∨ word lo hi = 0 ∧ word lo' hi' = 0xffff ∨
        word lo hi = 0xffff ∧ word lo' hi' = 0 := by
  have hlength : (a ++ lo :: hi :: b).length ≤ 65536 := by
    rw [← hpacket, pingerPacket, length_echoRequest]
    omega
  have hvalid : inCksum (pingerPacket ident seq data) = 0 := inCksum_pingerPacket hdata
  rw [hpacket, inCksum_eq_zero_iff hlength, wordSum_append ha, wordSum] at hvalid
  have hlength' : (a ++ lo' :: hi' :: b).length ≤ 65536 := by
    simpa using hlength
  rw [inCksum_eq_zero_iff hlength', wordSum_append ha, wordSum, ← word_modEq_iff]
  obtain ⟨hne, hdvd⟩ := hvalid
  constructor
  · rintro ⟨-, hdvd'⟩
    have hmod := (Nat.modEq_zero_iff_dvd.mpr hdvd).trans (Nat.modEq_zero_iff_dvd.mpr hdvd').symm
    exact Nat.ModEq.add_right_cancel' _ (Nat.ModEq.add_left_cancel' _ hmod)
  · intro hmod
    have hmod' := (hmod.add_right (wordSum b)).add_left (wordSum a)
    refine ⟨fun hzero => ?_, (Nat.modEq_zero_iff_dvd.mp
      (hmod'.symm.trans (Nat.modEq_zero_iff_dvd.mpr hdvd)))⟩
    -- The first word of the packet is not zero, so it would have to be the one that is damaged.
    have hfirst := first_word_of_pingerPacket hpacket ha
    rcases hfirst with ⟨-, hword⟩ | hpos
    · rw [hword] at hmod
      have hsmall : (8 : ℕ) ≡ 0 [MOD 65535] := by
        rwa [show (word lo' hi').toNat = 0 by omega] at hmod
      exact absurd hsmall (by decide)
    · omega

/-- The word of the identifier turns from one zero into the other. -/
theorem inCksum_damaged_iff_ident :
    inCksum ([8, 0, 0xf7, 0xff] ++ 0xff :: 0xff :: [0, 0]) = 0 ↔
      word 0xff 0xff = word 0 0 ∨ word 0 0 = 0 ∧ word 0xff 0xff = 0xffff ∨
        word 0 0 = 0xffff ∧ word 0xff 0xff = 0 :=
  inCksum_damaged_iff (show ([] : List (BitVec 8)).length ≤ 65528 by decide) (by decide)
    (show pingerPacket 0 0 [] = _ by decide)

end Packets

end LinuxTest.Ping
