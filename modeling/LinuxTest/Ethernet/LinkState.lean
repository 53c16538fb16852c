import LinuxTest.Foundations.Patterns
import LinuxTest.Libc

/-!
# Reporting the state of a link

The tools `linkspd` and `linkduplex` of `ethernet_test/test-suite` print the speed and the duplex
mode of an interface, and the procedures `gethostSpeed`, `gethostDuplex`, `gettrgtSpeed` and
`gettrgtDuplex` of `testlib.exp` read them back from the terminal with lists of unanchored patterns.
The output of a tool follows other text on the terminal, and both arrive in any chunks.

## Main definitions

* `Ioctls`: what the kernel delivers
* `linkstatus`, `linkspeed`, `duplex`: the methods of `ethxinfo`
* `linkspdOutput`, `linkduplexOutput`: what the two programs print
* `getSpeed`, `getDuplex`: the procedures on the host and on the target
* `Link`, `Link.trueSpeed`, `Link.trueDuplex`: a delivered state, and what it says

## Main results

* `getSpeed_eq`: the speed is read back, from every state
* `getDuplex_eq`: an unknown duplex mode is read as full duplex
* `linkState_iff`: the pair read is the true one exactly for a link that is up in a known mode
-/

namespace LinuxTest.Ethernet.LinkState

open Foundations

/-! ## The tools -/

/-- What the kernel delivers: the flags of the interface and the speed and duplex mode, unless the
call fails. -/
structure Ioctls where
  flags : Option (BitVec 16)
  ethcmd : Option (BitVec 16 × BitVec 8)
deriving Repr, DecidableEq

/-- The flag of an interface that is administratively up. -/
def iffUp : BitVec 16 := 0x1

/-- The flag of an interface with resources allocated. -/
def iffRunning : BitVec 16 := 0x40

/-- The method `linkstatus`. -/
def linkstatus (ioctls : Ioctls) : ℤ :=
  match ioctls.flags with
  | none => -1
  | some flags => if flags &&& iffUp ≠ 0 ∧ flags &&& iffRunning ≠ 0 then 1 else 0

/-- The method `linkspeed`. -/
def linkspeed (ioctls : Ioctls) : ℤ :=
  match ioctls.ethcmd with
  | none => -1
  | some (speed, _) =>
    if speed = 10 then 10
    else if speed = 100 then 100
    else if speed = 1000 then 1000
    else if speed = 2500 then 2500
    else if speed = 10000 then 10000
    else -1

/-- The method `duplex`. -/
def duplex (ioctls : Ioctls) : ℤ :=
  match ioctls.ethcmd with
  | none => -1
  | some (_, duplex) => if duplex = 1 then 1 else if duplex = 0 then 0 else -1

/-- What a tool finds: the value if the link status is not zero, and `-1` otherwise. -/
def report (ioctls : Ioctls) (value : ℤ) : ℤ := if linkstatus ioctls ≠ 0 then value else -1

/-- What `linkspd` prints. -/
def linkspdOutput (ioctls : Ioctls) : CString :=
  decimal (report ioctls (linkspeed ioctls)) ++ "Mbps\n".toList

/-- What `linkduplex` prints. -/
def linkduplexOutput (ioctls : Ioctls) : CString :=
  decimal (report ioctls (duplex ioctls)) ++ "d\n".toList

/-! ## The procedures -/

/-- The patterns for a speed, in the order they are tried. -/
def speedPatterns : List (CString × ℤ) :=
  [("10Mbps".toList, 10), ("100Mbps".toList, 100), ("1000Mbps".toList, 1000), ("/-1\n".toList, -1)]

/-- The patterns for a duplex mode, in the order they are tried. -/
def duplexPatterns : List (CString × ℤ) :=
  [("1d".toList, 1), ("0d".toList, 0), ("/-1\n".toList, -1)]

/-- The value of the pattern found in the text that arrives, and `-1` after a timeout. -/
def expectValue (patterns : List (CString × ℤ)) (chunks : List CString) : ℤ :=
  (expect patterns [] chunks).getD (-1)

/-- The procedure on the host for the speed, on the text of the spawned program. -/
def gethostSpeed (chunks : List CString) : ℤ := expectValue speedPatterns chunks

/-- The procedure on the host for the duplex mode. -/
def gethostDuplex (chunks : List CString) : ℤ := expectValue duplexPatterns chunks

/-- The procedure on the target for the speed, on the text of its console. -/
def gettrgtSpeed (chunks : List CString) : ℤ := expectValue speedPatterns chunks

/-- The procedure on the target for the duplex mode. -/
def gettrgtDuplex (chunks : List CString) : ℤ := expectValue duplexPatterns chunks

/-- The two ends of the cable. -/
inductive Side where
  | host
  | trgt
deriving Repr, DecidableEq

/-- The procedure of a side for the speed. -/
def getSpeed : Side → List CString → ℤ
  | .host => gethostSpeed
  | .trgt => gettrgtSpeed

/-- The procedure of a side for the duplex mode. -/
def getDuplex : Side → List CString → ℤ
  | .host => gethostDuplex
  | .trgt => gettrgtDuplex

theorem getSpeed_eq_expectValue (side : Side) (chunks : List CString) :
    getSpeed side chunks = expectValue speedPatterns chunks := by
  cases side <;> rfl

theorem getDuplex_eq_expectValue (side : Side) (chunks : List CString) :
    getDuplex side chunks = expectValue duplexPatterns chunks := by
  cases side <;> rfl

/-! ## Reading an output behind other text -/

/-- None of the patterns occurs in a text. -/
def Clear (patterns : List (CString × ℤ)) (text : CString) : Prop :=
  ∀ p ∈ patterns, ¬ p.1 <:+: text

instance (patterns : List (CString × ℤ)) (text : CString) : Decidable (Clear patterns text) :=
  inferInstanceAs (Decidable (∀ p ∈ patterns, ¬ p.1 <:+: text))

/-- Which value an output is read as: that of the only pattern that occurs in it, or `-1`, with no
pattern across its beginning. -/
def ReadAs (patterns : List (CString × ℤ)) (out : CString) (v : ℤ) : Prop :=
  (∀ p ∈ patterns, Separate p.1 out) ∧
    (((∃ p ∈ patterns, p.1 <:+: out) ∧ ∀ p ∈ patterns, p.1 <:+: out → p.2 = v) ∨
      (Clear patterns out ∧ v = -1))

instance (patterns : List (CString × ℤ)) (out : CString) (v : ℤ) :
    Decidable (ReadAs patterns out v) :=
  inferInstanceAs (Decidable ((∀ p ∈ patterns, Separate p.1 out) ∧
    (((∃ p ∈ patterns, p.1 <:+: out) ∧ ∀ p ∈ patterns, p.1 <:+: out → p.2 = v) ∨
      (Clear patterns out ∧ v = -1))))

/-- **An output is read as its value** behind every clear text, for every chunking. -/
theorem expectValue_eq {patterns : List (CString × ℤ)} {before out : CString} {v : ℤ}
    {chunks : List CString} (hread : ReadAs patterns out v) (hclear : Clear patterns before)
    (hchunks : chunks.flatten = before ++ out) : expectValue patterns chunks = v := by
  obtain ⟨hseparate, hvalue⟩ := hread
  -- An occurrence in the whole text is one in the output.
  have hiff : ∀ p ∈ patterns, (p.1 <:+: [] ++ chunks.flatten ↔ p.1 <:+: out) := by
    intro p hp
    rw [List.nil_append, hchunks, infix_append_iff_of_separate (hseparate p hp),
      or_iff_right (hclear p hp)]
  rcases hvalue with ⟨⟨p, hp, hinfix⟩, hunique⟩ | ⟨hnone, rfl⟩
  · have hfound : expect patterns [] chunks = some v :=
      expect_eq_some_of_unique ⟨p, hp, (hiff p hp).mpr hinfix⟩
        fun q hq h => hunique q hq ((hiff q hq).mp h)
    rw [expectValue, hfound, Option.getD_some]
  · have htimeout : expect patterns [] chunks = none :=
      expect_eq_none_iff.mpr fun q hq h => hnone q hq ((hiff q hq).mp h)
    rw [expectValue, htimeout, Option.getD_none]

/-! ## What is read from a delivered state -/

/-- A state that the kernel delivers. -/
structure Link where
  flags : BitVec 16
  speed : BitVec 16
  duplex : BitVec 8
deriving Repr, DecidableEq

namespace Link

/-- The calls that deliver a state. -/
def ioctls (link : Link) : Ioctls := ⟨some link.flags, some (link.speed, link.duplex)⟩

/-- The link is up. -/
def Up (link : Link) : Prop := link.flags &&& iffUp ≠ 0 ∧ link.flags &&& iffRunning ≠ 0

instance (link : Link) : Decidable link.Up := inferInstanceAs (Decidable (_ ∧ _))

/-- The true speed: that of a link that is up at one of the three speeds, and `-1` otherwise. -/
def trueSpeed (link : Link) : ℤ :=
  if link.Up ∧ (link.speed = 10 ∨ link.speed = 100 ∨ link.speed = 1000) then link.speed.toNat
  else -1

/-- The true duplex mode: one for full and zero for half duplex, and `-1` otherwise. -/
def trueDuplex (link : Link) : ℤ :=
  if link.Up ∧ link.duplex = 1 then 1 else if link.Up ∧ link.duplex = 0 then 0 else -1

theorem linkstatus_ne_zero_iff (link : Link) : linkstatus link.ioctls ≠ 0 ↔ link.Up := by
  change (if link.Up then (1 : ℤ) else 0) ≠ 0 ↔ link.Up
  by_cases h : link.Up <;> simp [h]

theorem report_of_up {link : Link} (h : link.Up) (value : ℤ) : report link.ioctls value = value :=
  if_pos (link.linkstatus_ne_zero_iff.mpr h)

theorem report_of_down {link : Link} (h : ¬ link.Up) (value : ℤ) : report link.ioctls value = -1 :=
  if_neg (mt link.linkstatus_ne_zero_iff.mp h)

end Link

/-- The outputs of `linkspd`: the three speeds are read back, and nothing is found in the others. -/
theorem readAs_speed :
    ReadAs speedPatterns (decimal 10 ++ "Mbps\n".toList) 10 ∧
      ReadAs speedPatterns (decimal 100 ++ "Mbps\n".toList) 100 ∧
      ReadAs speedPatterns (decimal 1000 ++ "Mbps\n".toList) 1000 ∧
      ReadAs speedPatterns (decimal 2500 ++ "Mbps\n".toList) (-1) ∧
      ReadAs speedPatterns (decimal 10000 ++ "Mbps\n".toList) (-1) ∧
      ReadAs speedPatterns (decimal (-1) ++ "Mbps\n".toList) (-1) := by
  decide +kernel

/-- The outputs of `linkduplex`: the pattern `1d` occurs in `-1d` too. -/
theorem readAs_duplex :
    ReadAs duplexPatterns (decimal 1 ++ "d\n".toList) 1 ∧
      ReadAs duplexPatterns (decimal 0 ++ "d\n".toList) 0 ∧
      ReadAs duplexPatterns (decimal (-1) ++ "d\n".toList) 1 := by
  decide +kernel

/-- The switch over the speed: one of the three that are read back, or one of the others. -/
theorem linkspeed_cases (link : Link) :
    ((link.speed = 10 ∨ link.speed = 100 ∨ link.speed = 1000) ∧
      linkspeed link.ioctls = link.speed.toNat) ∨
    (¬ (link.speed = 10 ∨ link.speed = 100 ∨ link.speed = 1000) ∧
      (linkspeed link.ioctls = 2500 ∨ linkspeed link.ioctls = 10000 ∨
        linkspeed link.ioctls = -1)) := by
  by_cases hknown : link.speed = 10 ∨ link.speed = 100 ∨ link.speed = 1000
  · refine Or.inl ⟨hknown, ?_⟩
    rcases hknown with h | h | h <;> simp [linkspeed, Link.ioctls, h]
  · refine Or.inr ⟨hknown, ?_⟩
    rw [not_or, not_or] at hknown
    obtain ⟨h10, h100, h1000⟩ := hknown
    simp only [linkspeed, Link.ioctls, h10, h100, h1000, if_false]
    split_ifs <;> simp

/-- **Every output of `linkspd` is read as the true speed.** -/
theorem readAs_linkspdOutput (link : Link) :
    ReadAs speedPatterns (linkspdOutput link.ioctls) link.trueSpeed := by
  -- There are six possible outputs, and each has been checked against the patterns.
  obtain ⟨h10, h100, h1000, h2500, h10000, hnone⟩ := readAs_speed
  rw [linkspdOutput, Link.trueSpeed]
  by_cases hup : link.Up
  · rw [Link.report_of_up hup]
    rcases linkspeed_cases link with ⟨hknown, hspeed⟩ | ⟨hother, hspeed⟩
    · rw [if_pos ⟨hup, hknown⟩, hspeed]
      rcases hknown with h | h | h <;> rw [h]
      · exact h10
      · exact h100
      · exact h1000
    · rw [if_neg fun h => hother h.2]
      rcases hspeed with h | h | h <;> rw [h]
      · exact h2500
      · exact h10000
      · exact hnone
  · rw [Link.report_of_down hup, if_neg fun h => hup h.1]
    exact hnone

/-- **Every output of `linkduplex` is read as a known mode**: half duplex as zero, and everything else
as one. -/
theorem readAs_linkduplexOutput (link : Link) :
    ReadAs duplexPatterns (linkduplexOutput link.ioctls)
      (if link.Up ∧ link.duplex = 0 then 0 else 1) := by
  obtain ⟨hfull, hhalf, hnone⟩ := readAs_duplex
  rw [linkduplexOutput]
  by_cases hup : link.Up
  · rw [Link.report_of_up hup]
    simp only [duplex, Link.ioctls, hup, true_and]
    by_cases h0 : link.duplex = 0
    · rw [h0]
      exact hhalf
    · rw [if_neg h0, if_neg h0]
      by_cases h1 : link.duplex = 1
      · rw [if_pos h1]
        exact hfull
      · -- An unknown mode is printed as `-1`.
        rw [if_neg h1]
        exact hnone
  · rw [Link.report_of_down hup, if_neg fun h => hup h.1]
    exact hnone

section Read

variable {link : Link} {before : CString} {chunks : List CString}

/-- **The speed is read back**, from every state. -/
theorem getSpeed_eq (side : Side) (hclear : Clear speedPatterns before)
    (hchunks : chunks.flatten = before ++ linkspdOutput link.ioctls) :
    getSpeed side chunks = link.trueSpeed := by
  rw [getSpeed_eq_expectValue]
  exact expectValue_eq (readAs_linkspdOutput link) hclear hchunks

/-- **An unknown duplex mode is read as full duplex.** -/
theorem getDuplex_eq (side : Side) (hclear : Clear duplexPatterns before)
    (hchunks : chunks.flatten = before ++ linkduplexOutput link.ioctls) :
    getDuplex side chunks = if link.Up ∧ link.duplex = 0 then 0 else 1 := by
  rw [getDuplex_eq_expectValue]
  exact expectValue_eq (readAs_linkduplexOutput link) hclear hchunks

end Read

/-- The mode that is read is the true one exactly for a link that is up in a known mode. -/
theorem duplex_read_iff (link : Link) :
    (if link.Up ∧ link.duplex = 0 then (0 : ℤ) else 1) = link.trueDuplex ↔
      link.Up ∧ (link.duplex = 0 ∨ link.duplex = 1) := by
  unfold Link.trueDuplex
  by_cases hup : link.Up
  · simp only [hup, true_and]
    by_cases h0 : link.duplex = 0
    · rw [h0]
      decide
    · by_cases h1 : link.duplex = 1
      · rw [h1]
        decide
      · rw [if_neg h0, if_neg h1, if_neg h0]
        exact iff_of_false (by decide) (not_or.mpr ⟨h0, h1⟩)
  · simp [hup]

/-- **When the state of a link survives printing and reading.** Behind all texts without a pattern,
and for every chunking, the speed and the duplex mode that are read are the true ones if and only if
the link is up and in full or half duplex. -/
theorem linkState_iff (side : Side) (link : Link) (before before' : CString)
    (chunks chunks' : List CString) (hclear : Clear speedPatterns before)
    (hclear' : Clear duplexPatterns before')
    (hchunks : chunks.flatten = before ++ linkspdOutput link.ioctls)
    (hchunks' : chunks'.flatten = before' ++ linkduplexOutput link.ioctls) :
    (getSpeed side chunks, getDuplex side chunks') = (link.trueSpeed, link.trueDuplex) ↔
      link.Up ∧ (link.duplex = 0 ∨ link.duplex = 1) := by
  rw [getSpeed_eq side hclear hchunks, getDuplex_eq side hclear' hchunks', Prod.mk.injEq,
    and_iff_right rfl, duplex_read_iff]

/-- A link that is up at 100 in full duplex, read on the target behind the echo of the command. -/
theorem linkState_iff_up :
    (getSpeed .trgt ["linkspd eth0\r\n".toList, "100".toList, "Mbps\n".toList],
        getDuplex .trgt ["linkduplex eth0\r\n1d\n".toList]) =
      (Link.trueSpeed ⟨0x41, 100, 1⟩, Link.trueDuplex ⟨0x41, 100, 1⟩) ↔
    Link.Up ⟨0x41, 100, 1⟩ ∧
      ((⟨0x41, 100, 1⟩ : Link).duplex = 0 ∨ (⟨0x41, 100, 1⟩ : Link).duplex = 1) :=
  linkState_iff .trgt ⟨0x41, 100, 1⟩ "linkspd eth0\r\n".toList "linkduplex eth0\r\n".toList _ _
    (by decide +kernel) (by decide +kernel) (by decide +kernel) (by decide +kernel)

/-- A link that is down is read as full duplex. -/
theorem getDuplex_down :
    linkduplexOutput (Link.ioctls ⟨0, 0, 0⟩) = "-1d\n".toList ∧
      getDuplex .host ["-1d\n".toList] = 1 ∧ Link.trueDuplex ⟨0, 0, 0⟩ = -1 := by
  decide +kernel

end LinuxTest.Ethernet.LinkState
