import LinuxTest.Foundations.EarlyExit
import LinuxTest.Libc
import Mathlib.Algebra.Order.Field.Rat
import Mathlib.Logic.Function.Basic
import Mathlib.Tactic.NormNum

/-!
# Reading the LTC2422 converter

`spi_adc/spi-adc-test.c` and `spi_adc/LTC2422.c`: the converter has two channels and says with each
code which one it is from. Three transfers are made; the first is thrown away, and the codes of the
other two are kept in an array of two entries. `getopt_long` is left out: the options are the
sequence of its results. What the kernel answers to a transfer is a parameter, and the delays are
left out. A variable that was never assigned is `none`, and voltages are exact.

A failed transfer leaves the variables as they were. After it the previous code is stored again, and
only the result of the third transfer becomes the result of the function.

## Main definitions

* `Transfer`: what `open` and `ioctl` answer, and the bytes received
* `ltc2422Read`, `ltc2422Voltage`, `spiReadAdc`: the functions of the program
* `ReportsReal`: a reading is reported as good only if both entries are fresh
* `poll`, `main`: the rounds with `-c`, and the program

## Main results

* `spiReadAdc_of_latest`: the array after the three transfers
* `spiReadAdc_ne_outOfBounds`: the channel is always an index of the array
* `reportsReal_iff`: when good readings are real
* `main_eq`: what the program does, by its options
* `poll_of_alternating`: every round is good on a converter whose channels take turns
* `abs_ltc2422Voltage_lt`: the range of the voltages
-/

namespace LinuxTest.SpiAdc

open Foundations

/-! ## One transfer -/

/-- One transfer with the converter: the results of `open` and of `ioctl`, and the two bytes that
are received. -/
structure Transfer where
  fd : BitVec 32
  ret : BitVec 32
  buffer0 : BitVec 8
  buffer1 : BitVec 8
deriving Repr, DecidableEq

namespace Transfer

/-- The device can be opened and the transfer is made. -/
def Succeeds (t : Transfer) : Prop := 0 ≤ t.fd.toInt ∧ 1 ≤ t.ret.toInt

instance (t : Transfer) : Decidable t.Succeeds :=
  inferInstanceAs (Decidable (0 ≤ t.fd.toInt ∧ 1 ≤ t.ret.toInt))

/-- The code: the second byte is the upper one, and the low eight bits are not transferred. -/
def value (t : Transfer) : BitVec 32 :=
  t.buffer1.setWidth 32 <<< 16 ||| t.buffer0.setWidth 32 <<< 8

end Transfer

/-- `SPI_DATA_CHANNEL_OFFSET`. -/
def spiDataChannelOffset : ℕ := 22

/-- `SPI_DATA_CHANNEL_MASK`. -/
def spiDataChannelMask : BitVec 32 := 1 <<< spiDataChannelOffset

/-- The channel of a code. -/
def Transfer.channel (t : Transfer) : BitVec 8 :=
  if t.value &&& spiDataChannelMask ≠ 0 then 1 else 0

/-- The variables of `spi_read_adc`; `none` until they are assigned. -/
structure Locals where
  adcChannel : Option (BitVec 8)
  adcCode : Option (BitVec 32)
  adcCodeArray : Fin 2 → Option (BitVec 32)

/-- The variables before the first transfer. -/
def Locals.init : Locals := ⟨none, none, fun _ => none⟩

/-- `LTC2422_read`: its status, and the variables with the output arguments. -/
def ltc2422Read (t : Transfer) (l : Locals) : BitVec 8 × Locals :=
  if t.fd.toInt < 0 then (1, l)
  else if t.ret.toInt < 1 then (1, l)
  else (0, { l with adcChannel := some t.channel, adcCode := some t.value })

/-- `LTC2422_voltage`, with the exact product. -/
def ltc2422Voltage (adcCode : BitVec 32) (lsb : ℚ) : ℚ :=
  if adcCode &&& 0x200000 ≠ 0 then ((adcCode &&& 0xFFFFF).toNat : ℚ) * lsb
  else -1 * ((adcCode &&& 0xFFFFF).toNat : ℚ) * lsb

/-- `LTC2422_lsb`: the least significant bit in volts. -/
def ltc2422Lsb : ℚ := 47683761 / 10 ^ 13

/-! ## The reading -/

/-- What has no defined behaviour. -/
inductive Undefined where
  | unassignedChannel
  | outOfBounds
deriving Repr, DecidableEq

/-- `adc_code_array[adc_channel] = adc_code`. -/
def Locals.store (l : Locals) : Except Undefined Locals :=
  match l.adcChannel with
  | none => .error .unassignedChannel
  | some channel =>
    if h : channel.toNat < 2 then
      .ok { l with adcCodeArray := Function.update l.adcCodeArray ⟨channel.toNat, h⟩ l.adcCode }
    else .error .outOfBounds

/-- A line of the report: the text around a number, and the number. It is `none` if it comes from an
entry that was never assigned. -/
inductive Line where
  | raw (before : CString) (code : Option (BitVec 32))
  | volts (before : CString) (voltage : Option ℚ)
deriving Repr, DecidableEq

/-- The result of `spi_read_adc`: the value it returns, the array and what is printed. -/
structure Reading where
  returnCode : BitVec 32
  adcCodeArray : Fin 2 → Option (BitVec 32)
  output : List Line

/-- What is printed of the array. The board connects VOUTA to channel 1 and VOUTB to channel 0, but
the raw codes are printed in the order of the channels. -/
def report (returnCode : BitVec 8) (array : Fin 2 → Option (BitVec 32)) : Reading where
  returnCode := returnCode.signExtend 32
  adcCodeArray := array
  output :=
    [.raw "     ADC A (raw)): 0x".toList (array 0),
      .raw "     ADC B (raw)): 0x".toList (array 1),
      .volts "     ADC A : ".toList ((array 1).map (ltc2422Voltage · ltc2422Lsb)),
      .volts "     ADC B : ".toList ((array 0).map (ltc2422Voltage · ltc2422Lsb))]

/-- `spi_read_adc`, over its three transfers. -/
def spiReadAdc (t₁ t₂ t₃ : Transfer) : Except Undefined Reading := do
  -- The statuses of the first two transfers are not looked at.
  let l := (ltc2422Read t₁ Locals.init).2
  let l ← (ltc2422Read t₂ l).2.store
  let returnCode := (ltc2422Read t₃ l).1
  let l ← (ltc2422Read t₃ l).2.store
  return report returnCode l.adcCodeArray

/-! ## The program -/

/-- The results of `getopt_long`: `-c`, and `-h` or anything that is not known. -/
inductive Opt where
  | continuous
  | usage
deriving Repr, DecidableEq

/-- `print_usage`. -/
def printUsage (prog : CString) : Exit where
  status := 1
  message := "Usage: ".toList ++ prog ++ " [-ch]\n".toList ++
    "  -c --continuous   Continuously sample ADC\n".toList ++
    "  -h --help         Print this Usage\n\n".toList

/-- One round of the loop of `parse_opts`, with the value of `continuous_poll`. -/
def parseOpt (prog : CString) (_continuousPoll : Bool) : Opt → Except Exit Bool
  | .continuous => .ok true
  | .usage => .error (printUsage prog)

/-- `parse_opts`: the value of `continuous_poll`. -/
def parseOpts (prog : CString) (opts : List Opt) : Except Exit Bool :=
  opts.foldlM (parseOpt prog) false

/-- The first `n` rounds with `-c`, on the transfers of the device in turn. -/
def poll (device : ℕ → Transfer) : ℕ → Except Undefined (List Reading)
  | 0 => .ok []
  | n + 1 => do
    let readings ← poll device n
    let reading ← spiReadAdc (device (3 * n)) (device (3 * n + 1)) (device (3 * n + 2))
    return readings ++ [reading]

/-- What the program does: print its usage, read once, or read until it is stopped. -/
inductive Behaviour where
  | usage (exit : Exit)
  | once (reading : Except Undefined Reading)
  | forever (rounds : ℕ → Except Undefined (List Reading))

/-- `main`. -/
def main (prog : CString) (opts : List Opt) (device : ℕ → Transfer) : Behaviour :=
  match parseOpts prog opts with
  | .error exit => .usage exit
  | .ok false => .once (spiReadAdc (device 0) (device 1) (device 2))
  | .ok true => .forever (poll device)

/-! ## Readings that are real -/

/-- The entry of a channel was written from one of two transfers, which succeeded and was of that
channel. -/
def RealEntry (t₂ t₃ : Transfer) (array : Fin 2 → Option (BitVec 32)) (channel : Fin 2) : Prop :=
  ∃ t ∈ [t₂, t₃], t.Succeeds ∧ t.channel.toNat = channel ∧ array channel = some t.value

/-- **Readings are reported only when real.** The channel is always assigned before it is an index,
and zero is returned only if both entries are from the second or third transfer. -/
def ReportsReal (t₁ t₂ t₃ : Transfer) : Prop :=
  spiReadAdc t₁ t₂ t₃ ≠ .error .unassignedChannel ∧
    ∀ reading, spiReadAdc t₁ t₂ t₃ = .ok reading → reading.returnCode = 0 →
      ∀ channel, RealEntry t₂ t₃ reading.adcCodeArray channel

/-! ## The channel of a transfer -/

/-- The bit of the second byte that tells the channel. -/
def Transfer.channelBit (t : Transfer) : Bool := t.buffer1.getLsbD 6

/-- The channel as an index of the array. -/
def Transfer.index (t : Transfer) : Fin 2 := if t.channelBit then 1 else 0

theorem value_and_mask (t : Transfer) :
    t.value &&& spiDataChannelMask ≠ 0 ↔ t.channelBit = true := by
  have hmask : spiDataChannelMask = BitVec.twoPow 32 spiDataChannelOffset := by decide
  have hbit : t.value.getLsbD spiDataChannelOffset = t.channelBit := by
    simp [Transfer.value, Transfer.channelBit, spiDataChannelOffset]
  rw [hmask, BitVec.and_twoPow, hbit]
  cases t.channelBit <;> decide

theorem channel_toNat (t : Transfer) : t.channel.toNat = t.index := by
  unfold Transfer.channel Transfer.index
  by_cases hbit : t.channelBit = true
  · rw [if_pos ((value_and_mask t).mpr hbit), if_pos hbit]
    rfl
  · rw [if_neg (mt (value_and_mask t).mp hbit), if_neg hbit]
    rfl

theorem index_eq_iff (t u : Transfer) : t.index = u.index ↔ t.channelBit = u.channelBit := by
  unfold Transfer.index
  cases t.channelBit <;> cases u.channelBit <;> decide

/-! ## Where the variables come from -/

/-- The variables hold the channel and the code of a transfer, or nothing yet. -/
def Locals.Holds (l : Locals) (o : Option Transfer) : Prop :=
  l.adcChannel = o.map Transfer.channel ∧ l.adcCode = o.map Transfer.value

/-- The latest transfer that succeeded. -/
def latest (t : Transfer) (o : Option Transfer) : Option Transfer :=
  if t.Succeeds then some t else o

theorem latest_of_succeeds {t : Transfer} (h : t.Succeeds) (o : Option Transfer) :
    latest t o = some t := if_pos h

theorem latest_of_not_succeeds {t : Transfer} (h : ¬ t.Succeeds) (o : Option Transfer) :
    latest t o = o := if_neg h

theorem ltc2422Read_of_succeeds {t : Transfer} (h : t.Succeeds) (l : Locals) :
    ltc2422Read t l = (0, { l with adcChannel := some t.channel, adcCode := some t.value }) := by
  rw [ltc2422Read, if_neg (not_lt.mpr h.1), if_neg (not_lt.mpr h.2)]

theorem ltc2422Read_of_not_succeeds {t : Transfer} (h : ¬ t.Succeeds) (l : Locals) :
    ltc2422Read t l = (1, l) := by
  unfold ltc2422Read
  split_ifs with hfd hret
  · rfl
  · rfl
  · exact absurd ⟨not_lt.mp hfd, not_lt.mp hret⟩ h

/-- **A transfer keeps the two variables together**: after it they come from the latest transfer
that succeeded. -/
theorem Locals.Holds.read {l : Locals} {o : Option Transfer} (h : l.Holds o) (t : Transfer) :
    (ltc2422Read t l).2.Holds (latest t o) := by
  by_cases ht : t.Succeeds
  · rw [ltc2422Read_of_succeeds ht, latest_of_succeeds ht]
    exact ⟨rfl, rfl⟩
  · rw [ltc2422Read_of_not_succeeds ht, latest_of_not_succeeds ht]
    exact h

theorem adcCodeArray_read (t : Transfer) (l : Locals) :
    (ltc2422Read t l).2.adcCodeArray = l.adcCodeArray := by
  by_cases ht : t.Succeeds
  · rw [ltc2422Read_of_succeeds ht]
  · rw [ltc2422Read_of_not_succeeds ht]

theorem store_of_holds_none {l : Locals} (h : l.Holds none) :
    l.store = .error .unassignedChannel := by
  have hchannel : l.adcChannel = none := h.1
  rw [Locals.store, hchannel]

/-- **The entry of the channel is written**, whatever transfer the variables come from. -/
theorem store_of_holds_some {l : Locals} {t : Transfer} (h : l.Holds (some t)) :
    ∃ l', l.store = .ok l' ∧ l'.Holds (some t) ∧
      l'.adcCodeArray = Function.update l.adcCodeArray t.index (some t.value) := by
  have hchannel : l.adcChannel = some t.channel := h.1
  have hcode : l.adcCode = some t.value := h.2
  have hlt : t.channel.toNat < 2 := channel_toNat t ▸ t.index.isLt
  have hindex : (⟨t.channel.toNat, hlt⟩ : Fin 2) = t.index := Fin.ext (channel_toNat t)
  refine ⟨{ l with adcCodeArray := Function.update l.adcCodeArray t.index (some t.value) },
    ?_, h, rfl⟩
  rw [Locals.store, hchannel, ← hindex, ← hcode]
  exact dif_pos hlt

/-! ## The whole reading -/

/-- The array after the codes of two transfers. -/
def arrayOf (t u : Transfer) : Fin 2 → Option (BitVec 32) :=
  Function.update (Function.update (fun _ => none) t.index (some t.value)) u.index (some u.value)

/-- The status of a transfer. -/
def status (t : Transfer) : BitVec 8 := if t.Succeeds then 0 else 1

theorem ltc2422Read_fst (t : Transfer) (l : Locals) : (ltc2422Read t l).1 = status t := by
  unfold status
  by_cases ht : t.Succeeds
  · rw [ltc2422Read_of_succeeds ht, if_pos ht]
  · rw [ltc2422Read_of_not_succeeds ht, if_neg ht]

section Reading

variable {t₁ t₂ t₃ u v : Transfer}

theorem holds_init : Locals.init.Holds none := ⟨rfl, rfl⟩

/-- Nothing was assigned when the first array access is made. -/
theorem spiReadAdc_of_unassigned (h₂ : latest t₂ (latest t₁ none) = none) :
    spiReadAdc t₁ t₂ t₃ = .error .unassignedChannel := by
  have hheld := (holds_init.read t₁).read t₂
  rw [h₂] at hheld
  rw [spiReadAdc, bind_of_error (store_of_holds_none hheld)]

/-- **The array after the three transfers**: an entry from the latest successful transfer after the
second, and one from the latest after the third. -/
theorem spiReadAdc_of_latest (h₂ : latest t₂ (latest t₁ none) = some u)
    (h₃ : latest t₃ (some u) = some v) :
    spiReadAdc t₁ t₂ t₃ = .ok (report (status t₃) (arrayOf u v)) := by
  have hheld₂ := (holds_init.read t₁).read t₂
  rw [h₂] at hheld₂
  obtain ⟨l₂, hstore₂, hl₂, harray₂⟩ := store_of_holds_some hheld₂
  have hheld₃ := hl₂.read t₃
  rw [h₃] at hheld₃
  obtain ⟨l₃, hstore₃, -, harray₃⟩ := store_of_holds_some hheld₃
  rw [spiReadAdc, bind_of_ok hstore₂, bind_of_ok hstore₃, ltc2422Read_fst, harray₃,
    adcCodeArray_read, harray₂, adcCodeArray_read, adcCodeArray_read]
  rfl

/-- What the three transfers lead to: the first array access needs one successful transfer. -/
theorem spiReadAdc_decides (t₁ t₂ t₃ : Transfer) :
    Decides (t₁.Succeeds ∨ t₂.Succeeds) (spiReadAdc t₁ t₂ t₃) (· = .unassignedChannel)
      fun reading => ∃ u v, latest t₂ (latest t₁ none) = some u ∧ latest t₃ (some u) = some v ∧
        reading = report (status t₃) (arrayOf u v) := by
  cases h₂ : latest t₂ (latest t₁ none) with
  | none =>
    rw [spiReadAdc_of_unassigned h₂]
    refine Decides.error ?_ rfl
    rintro (h | h)
    · by_cases ht₂ : t₂.Succeeds
      · rw [latest_of_succeeds ht₂] at h₂
        cases h₂
      · rw [latest_of_not_succeeds ht₂, latest_of_succeeds h] at h₂
        cases h₂
    · rw [latest_of_succeeds h] at h₂
      cases h₂
  | some u =>
    obtain ⟨v, h₃⟩ : ∃ v, latest t₃ (some u) = some v := by
      by_cases ht₃ : t₃.Succeeds
      · exact ⟨t₃, latest_of_succeeds ht₃ _⟩
      · exact ⟨u, latest_of_not_succeeds ht₃ _⟩
    rw [spiReadAdc_of_latest h₂ h₃]
    refine Decides.ok ?_ ⟨u, v, rfl, h₃, rfl⟩
    by_contra hnone
    rw [not_or] at hnone
    rw [latest_of_not_succeeds hnone.2, latest_of_not_succeeds hnone.1] at h₂
    cases h₂

/-- **The channel is always an index of the array**, for all bytes received. -/
theorem spiReadAdc_ne_outOfBounds (t₁ t₂ t₃ : Transfer) :
    spiReadAdc t₁ t₂ t₃ ≠ .error .outOfBounds := by
  rcases spiReadAdc_decides t₁ t₂ t₃ with ⟨-, e, he, rfl⟩ | ⟨-, reading, hok, -⟩
  · rw [he]
    exact nofun
  · rw [hok]
    exact nofun

theorem returnCode_report_eq_zero (array : Fin 2 → Option (BitVec 32)) :
    (report (status t₃) array).returnCode = 0 ↔ t₃.Succeeds := by
  change (status t₃).signExtend 32 = 0 ↔ _
  unfold status
  by_cases h₃ : t₃.Succeeds
  · rw [if_pos h₃]
    exact iff_of_true (by decide) h₃
  · rw [if_neg h₃]
    exact iff_of_false (by decide) h₃

theorem arrayOf_snd (u v : Transfer) : arrayOf u v v.index = some v.value :=
  Function.update_self ..

theorem arrayOf_fst (h : u.index ≠ v.index) : arrayOf u v u.index = some u.value := by
  rw [arrayOf, Function.update_of_ne h, Function.update_self]

/-- Each channel needs a successful transfer of its own. -/
theorem exists_of_realEntry {array : Fin 2 → Option (BitVec 32)}
    (h : ∀ channel, RealEntry t₂ t₃ array channel) : t₂.Succeeds ∧ t₂.index ≠ t₃.index := by
  obtain ⟨t, hmem, hsucc, hchannel, -⟩ := h (t₃.index + 1)
  have hindex : t.index = t₃.index + 1 := Fin.ext (by rw [← channel_toNat, hchannel])
  have hother : ∀ i : Fin 2, i + 1 ≠ i := by decide
  have hne : t.index ≠ t₃.index := hindex ▸ hother t₃.index
  rcases List.mem_pair.mp hmem with rfl | rfl
  · exact ⟨hsucc, hne⟩
  · exact absurd rfl hne

theorem realEntry_arrayOf (h₂ : t₂.Succeeds) (h₃ : t₃.Succeeds) (hne : t₂.index ≠ t₃.index)
    (channel : Fin 2) : RealEntry t₂ t₃ (arrayOf t₂ t₃) channel := by
  have hcover : ∀ i j k : Fin 2, i ≠ j → k = i ∨ k = j := by decide
  rcases hcover t₂.index t₃.index channel hne with rfl | rfl
  · exact ⟨t₂, List.mem_cons_self, h₂, channel_toNat t₂, arrayOf_fst hne⟩
  · exact ⟨t₃, List.mem_pair.mpr (Or.inr rfl), h₃, channel_toNat t₃, arrayOf_snd t₂ t₃⟩

end Reading

/-! ## When good readings are real -/

/-- **Good readings are real** exactly if one of the first two transfers succeeds, and a successful
third transfer comes after a successful second one of the other channel. -/
theorem reportsReal_iff (t₁ t₂ t₃ : Transfer) : ReportsReal t₁ t₂ t₃ ↔
    (t₁.Succeeds ∨ t₂.Succeeds) ∧
      (t₃.Succeeds → t₂.Succeeds ∧ t₂.buffer1.getLsbD 6 ≠ t₃.buffer1.getLsbD 6) := by
  have hbit : t₂.index ≠ t₃.index ↔ t₂.buffer1.getLsbD 6 ≠ t₃.buffer1.getLsbD 6 :=
    not_congr (index_eq_iff t₂ t₃)
  rw [ReportsReal, ← hbit]
  rcases spiReadAdc_decides t₁ t₂ t₃ with
    ⟨hnone, e, he, rfl⟩ | ⟨hsome, reading, hok, u, v, hu, hv, rfl⟩
  · exact iff_of_false (fun h => h.1 he) fun h => hnone h.1
  · rw [hok]
    constructor
    · rintro ⟨-, hreal⟩
      refine ⟨hsome, fun h₃ => exists_of_realEntry (hreal _ rfl ?_)⟩
      exact (returnCode_report_eq_zero _).mpr h₃
    · rintro ⟨-, hfresh⟩
      refine ⟨nofun, fun reading hreading hzero => ?_⟩
      cases hreading
      have h₃ := (returnCode_report_eq_zero _).mp hzero
      obtain ⟨h₂, hne⟩ := hfresh h₃
      -- Both transfers are the latest of their time, so the array has their codes.
      rw [latest_of_succeeds h₂] at hu
      rw [latest_of_succeeds h₃] at hv
      cases hu
      cases hv
      exact realEntry_arrayOf h₂ h₃ hne

/-- The second transfer cannot open the device, and the code of the first is stored in its place:
zero is returned with the stale code of channel 0. -/
theorem not_reportsReal_stale :
    spiReadAdc ⟨3, 1, 0x34, 0x2A⟩ ⟨-1, 0, 0, 0⟩ ⟨3, 1, 0x78, 0x6A⟩ =
        .ok (report 0 (arrayOf ⟨3, 1, 0x34, 0x2A⟩ ⟨3, 1, 0x78, 0x6A⟩)) ∧
      ¬ ReportsReal ⟨3, 1, 0x34, 0x2A⟩ ⟨-1, 0, 0, 0⟩ ⟨3, 1, 0x78, 0x6A⟩ := by
  have hread : spiReadAdc ⟨3, 1, 0x34, 0x2A⟩ ⟨-1, 0, 0, 0⟩ ⟨3, 1, 0x78, 0x6A⟩ =
      .ok (report 0 (arrayOf ⟨3, 1, 0x34, 0x2A⟩ ⟨3, 1, 0x78, 0x6A⟩)) :=
    spiReadAdc_of_latest (by decide) (by decide)
  refine ⟨hread, fun hreal => ?_⟩
  exact absurd (exists_of_realEntry (hreal.2 _ hread rfl)).1 (by decide)

/-! ## Polling -/

section Polling

variable {device : ℕ → Transfer}

theorem spiReadAdc_of_succeeds {t₁ t₂ t₃ : Transfer} (h₂ : t₂.Succeeds) (h₃ : t₃.Succeeds) :
    spiReadAdc t₁ t₂ t₃ = .ok (report 0 (arrayOf t₂ t₃)) := by
  have hstatus : status t₃ = 0 := if_pos h₃
  rw [spiReadAdc_of_latest (latest_of_succeeds h₂ _) (latest_of_succeeds h₃ _), hstatus]

theorem poll_of_succeeds (h : ∀ k, (device k).Succeeds) (n : ℕ) : poll device n =
    .ok ((List.range n).map fun k =>
      report 0 (arrayOf (device (3 * k + 1)) (device (3 * k + 2)))) := by
  induction n with
  | zero => rfl
  | succ n ih =>
    rw [poll, bind_of_ok ih, bind_of_ok (spiReadAdc_of_succeeds (h _) (h _)), List.range_succ,
      List.map_append]
    rfl

/-- **Every round is good on a converter whose channels take turns**: with `-c` the program reads
both channels in each round, for ever. -/
theorem poll_of_alternating (h : ∀ k, (device k).Succeeds)
    (hturn : ∀ k, (device (k + 1)).channelBit ≠ (device k).channelBit) (n : ℕ) :
    ∃ readings, poll device n = .ok readings ∧ readings.length = n ∧
      ∀ k (hk : k < readings.length), (readings.get ⟨k, hk⟩).returnCode = 0 ∧
        ∀ channel, RealEntry (device (3 * k + 1)) (device (3 * k + 2))
          (readings.get ⟨k, hk⟩).adcCodeArray channel := by
  refine ⟨_, poll_of_succeeds h n, by rw [List.length_map, List.length_range], fun k hk => ?_⟩
  rw [List.get_eq_getElem, List.getElem_map, List.getElem_range]
  refine ⟨rfl, realEntry_arrayOf (h _) (h _) ?_⟩
  exact mt (index_eq_iff _ _).mp (hturn (3 * k + 1)).symm

theorem parseOpts_decides (prog : CString) (opts : List Opt) :
    Decides (∀ opt ∈ opts, opt ≠ .usage) (parseOpts prog opts) (· = printUsage prog)
      fun continuousPoll => continuousPoll = true ↔ .continuous ∈ opts := by
  -- The flag is set already, or by an option that is still to come.
  have hloop : Decides (∀ opt ∈ opts, opt ≠ .usage) (parseOpts prog opts) (· = printUsage prog)
      fun poll => (poll = true ∨ .continuous ∈ ([] : List Opt)) ↔ .continuous ∈ opts := by
    refine Decides.foldlM
      (I := fun rest poll => (poll = true ∨ Opt.continuous ∈ rest) ↔ .continuous ∈ opts) ?_
      ⟨fun h => h.resolve_left Bool.false_ne_true, Or.inr⟩
    intro opt rest poll hpoll
    cases opt with
    | continuous => exact .ok Opt.noConfusion (by simpa using hpoll)
    | usage => exact .error (fun h => h rfl) rfl
  exact hloop.imp fun poll hpoll => by simpa using hpoll

/-- **What the program does** depends on which options there are, not on their order. -/
theorem main_eq (prog : CString) (opts : List Opt) (device : ℕ → Transfer) :
    main prog opts device =
      if .usage ∈ opts then .usage (printUsage prog)
      else if .continuous ∈ opts then .forever (poll device)
      else .once (spiReadAdc (device 0) (device 1) (device 2)) := by
  unfold main
  rcases parseOpts_decides prog opts with
    ⟨husage, exit, hexit, rfl⟩ | ⟨husage, flag, hflag, hcontinuous⟩
  · have hmem : Opt.usage ∈ opts := by
      by_contra hmem
      exact husage fun opt hopt heq => hmem (heq ▸ hopt)
    rw [hexit, if_pos hmem]
  · rw [hflag, if_neg fun hmem => husage _ hmem rfl]
    cases flag with
    | false => rw [if_neg fun hmem => Bool.false_ne_true (hcontinuous.mpr hmem)]
    | true => rw [if_pos (hcontinuous.mp rfl)]

end Polling

/-! ## Voltages -/

theorem ltc2422Lsb_nonneg : 0 ≤ ltc2422Lsb := by
  unfold ltc2422Lsb
  norm_num

/-- **The range of the voltages**: less than five volts on either side, for every code. -/
theorem abs_ltc2422Voltage_lt (code : BitVec 32) : |ltc2422Voltage code ltc2422Lsb| < 5 := by
  have hcode : (code &&& 0xFFFFF).toNat ≤ 0xFFFFF := by
    rw [BitVec.toNat_and]
    exact Nat.and_le_right
  have hcast : ((code &&& 0xFFFFF).toNat : ℚ) ≤ 0xFFFFF := by exact_mod_cast hcode
  have hnonneg : (0 : ℚ) ≤ (code &&& 0xFFFFF).toNat := Nat.cast_nonneg _
  have habs : |ltc2422Voltage code ltc2422Lsb| = (code &&& 0xFFFFF).toNat * ltc2422Lsb := by
    unfold ltc2422Voltage
    split_ifs
    · exact abs_of_nonneg (mul_nonneg hnonneg ltc2422Lsb_nonneg)
    · rw [neg_one_mul, neg_mul, abs_neg]
      exact abs_of_nonneg (mul_nonneg hnonneg ltc2422Lsb_nonneg)
  calc |ltc2422Voltage code ltc2422Lsb| = (code &&& 0xFFFFF).toNat * ltc2422Lsb := habs
    _ ≤ 0xFFFFF * ltc2422Lsb := mul_le_mul_of_nonneg_right hcast ltc2422Lsb_nonneg
    _ < 5 := by
      unfold ltc2422Lsb
      norm_num

end LinuxTest.SpiAdc
