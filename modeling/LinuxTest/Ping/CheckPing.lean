import LinuxTest.Ethernet.LinkState
import LinuxTest.Ping.Statistics

/-!
# The ping check of the link tests

The procedure `checkHostPingv4` of `ethernet_test/test-suite/testlib.exp` sends five packets from
the target to the host with the program of `ping.c`, and reads its report from the terminal with a
list of patterns. The tests of the link go on if it returns one.

The pattern ` 0%` is for a run without loss and ` 100%` for one without a reply. The pattern
` 0 received` is for the report of another program and is never found. After any other loss nothing
is found, the time runs out, and the value is still the one that was set at first, which is that of
a run without loss.

## Main definitions

* `pingPatterns`, `checkHostPingv4`: the patterns, and the value that is returned

## Main results

* `checkHostPingv4_eq`: the check fails if and only if there was no reply at all
-/

namespace LinuxTest.Ping

open Foundations
open Ethernet.LinkState (Clear)

/-- The patterns, in the order they are tried. -/
def pingPatterns : List (CString × ℤ) :=
  [(" 0%".toList, 1), (" 0 received".toList, 0), (" 100%".toList, 0)]

/-- The value of the pattern found in the text that arrives; after a timeout the value is the one
that was set before. -/
def checkHostPingv4 (chunks : List CString) : ℤ := (expect pingPatterns [] chunks).getD 1

/-! ## The parts of the report -/

/-- The text before the counts. -/
def statisticsTitle (hostname : CString) : CString :=
  "\n--- ".toList ++ hostname ++ " ping statistics ---\n".toList

/-- The counts of the packets. -/
def countsText (transmitted received : ℤ) : CString :=
  decimal transmitted ++ " packets transmitted, ".toList ++ decimal received ++
    " packets received,".toList

/-- The count of the duplicates. -/
def duplicatesText (repeats : ℤ) : CString :=
  if repeats ≠ 0 then " +".toList ++ decimal repeats ++ " duplicates,".toList else []

/-- The line of the loss. -/
def lossLine (loss : ℕ) : CString := " ".toList ++ decimal loss ++ "% packet loss\n".toList

section Report

variable {c : Config} {p : Totals}

theorem text_finish (hostname : CString)
    (hloss : lossText p = decimal (loss p) ++ "% packet loss".toList) :
    (finish c hostname p).text =
      statisticsTitle hostname ++ countsText p.ntransmitted.toInt p.nreceived.toInt ++
        duplicatesText p.nrepeats.toInt ++ lossLine (loss p) ++ timesText c p := by
  have hrepeats : p.nrepeats ≠ 0 ↔ p.nrepeats.toInt ≠ 0 := not_congr BitVec.toInt_inj.symm
  -- The blank behind a comma belongs to the next part.
  have hreceived : " packets received, ".toList = " packets received,".toList ++ " ".toList := rfl
  have hduplicates : " duplicates, ".toList = " duplicates,".toList ++ " ".toList := rfl
  have hplus : " +".toList = " ".toList ++ "+".toList := rfl
  have hend : "% packet loss\n".toList = "% packet loss".toList ++ "\n".toList := rfl
  unfold finish
  dsimp only
  rw [hloss]
  unfold statisticsTitle countsText duplicatesText lossLine
  simp only [hreceived, hduplicates, hplus, hend, hrepeats]
  split_ifs <;> simp only [List.append_assoc, List.nil_append]

theorem notMem_decimal {ch : Char} (hdigit : ¬ ch.isDigit = true) (hminus : ch ≠ '-') (n : ℤ) :
    ch ∉ decimal n := by
  cases n with
  | ofNat n =>
    have hdecimal : decimal (Int.ofNat n) = Nat.toDigits 10 n := decimal_natCast n
    rw [hdecimal]
    exact notMem_toDigits hdigit n
  | negSucc n =>
    rw [decimal_negSucc]
    exact List.not_mem_cons_of_ne_of_not_mem hminus (notMem_toDigits hdigit (n + 1))

/-- Which patterns the parts contain, for up to five packets. -/
theorem parts_of_five :
    (∀ transmitted < 6, ∀ received < 6, 0 < transmitted → ∀ q ∈ pingPatterns,
      Separate q.1 (countsText (transmitted : ℕ) (received : ℕ)) ∧
        ¬ q.1 <:+: countsText (transmitted : ℕ) (received : ℕ)) ∧
    ∀ loss < 101, ∀ q ∈ pingPatterns, Separate q.1 (lossLine loss) ∧
      (q.1 <:+: lossLine loss ↔ q.2 = 1 ∧ loss = 0 ∨ q.1 = " 100%".toList ∧ loss = 100) := by
  decide +kernel

/-- A text without a character of a pattern does not contain the pattern. -/
theorem not_infix_of_notMem {q text : CString} {ch : Char} (hq : ch ∈ q) (htext : ch ∉ text) :
    ¬ q <:+: text := fun hoccurs => htext (hoccurs.subset hq)

theorem duplicatesText_clear (repeats : ℤ) : ∀ q ∈ pingPatterns,
    Separate q.1 (duplicatesText repeats) ∧ ¬ q.1 <:+: duplicatesText repeats := by
  have hnotMem (ch : Char) (hdigit : ¬ ch.isDigit = true) (hminus : ch ≠ '-')
      (hplus : ch ∉ " +".toList) (hend : ch ∉ " duplicates,".toList) :
      ch ∉ duplicatesText repeats := by
    unfold duplicatesText
    split_ifs
    · exact List.not_mem_append (List.not_mem_append hplus (notMem_decimal hdigit hminus _)) hend
    · exact List.not_mem_nil
  have hpercent : '%' ∉ duplicatesText repeats :=
    hnotMem '%' (by decide) (by decide) (by decide) (by decide)
  have hv : 'v' ∉ duplicatesText repeats :=
    hnotMem 'v' (by decide) (by decide) (by decide) (by decide)
  have hseparate (q : CString) (hlast : q.getLast? ≠ some ' ') (hplus : '+' ∉ q) :
      Separate q (duplicatesText repeats) := by
    unfold duplicatesText
    split_ifs
    · exact separate_cons_cons hlast hplus _
    · exact fun b _ hne _ hprefix => hne (List.prefix_nil.mp hprefix)
  intro q hq
  rw [pingPatterns, List.mem_cons, List.mem_cons, List.mem_singleton] at hq
  rcases hq with rfl | rfl | rfl
  · exact ⟨hseparate _ (by decide) (by decide), not_infix_of_notMem (by decide) hpercent⟩
  · exact ⟨hseparate _ (by decide) (by decide), not_infix_of_notMem (by decide) hv⟩
  · exact ⟨hseparate _ (by decide) (by decide), not_infix_of_notMem (by decide) hpercent⟩

theorem timesText_clear (c : Config) (p : Totals) : ∀ q ∈ pingPatterns,
    Separate q.1 (timesText c p) ∧ ¬ q.1 <:+: timesText c p := by
  have htenths (ch : Char) (hdigit : ¬ ch.isDigit = true) (hminus : ch ≠ '-')
      (hdot : ch ∉ ".".toList) (t : ℤ) : ch ∉ tenths t :=
    List.not_mem_append (List.not_mem_append (notMem_decimal hdigit hminus _) hdot)
      (notMem_decimal hdigit hminus _)
  have hnotMem (ch : Char) (hdigit : ¬ ch.isDigit = true) (hminus : ch ≠ '-')
      (hdot : ch ∉ ".".toList) (hslash : ch ∉ "/".toList) (hend : ch ∉ " ms\n".toList)
      (htitle : ch ∉ "round-trip min/avg/max = ".toList) : ch ∉ timesText c p := by
    have ht := htenths ch hdigit hminus hdot
    unfold timesText
    split_ifs
    · exact List.not_mem_append (List.not_mem_append (List.not_mem_append (List.not_mem_append
        (List.not_mem_append (List.not_mem_append htitle (ht _)) hslash) (ht _)) hslash)
        (ht _)) hend
    · exact List.not_mem_nil
  have hpercent : '%' ∉ timesText c p :=
    hnotMem '%' (by decide) (by decide) (by decide) (by decide) (by decide) (by decide)
  have hc : 'c' ∉ timesText c p :=
    hnotMem 'c' (by decide) (by decide) (by decide) (by decide) (by decide) (by decide)
  have hseparate (q : CString) (htitle : Separate q "round-trip min/avg/max = ".toList)
      (hlength : q.length ≤ "round-trip min/avg/max = ".toList.length) :
      Separate q (timesText c p) := by
    unfold timesText
    split_ifs
    · simp only [List.append_assoc]
      exact htitle.append hlength _
    · exact fun b _ hne _ hprefix => hne (List.prefix_nil.mp hprefix)
  intro q hq
  rw [pingPatterns, List.mem_cons, List.mem_cons, List.mem_singleton] at hq
  rcases hq with rfl | rfl | rfl
  · exact ⟨hseparate _ (by decide +kernel) (by decide), not_infix_of_notMem (by decide) hpercent⟩
  · exact ⟨hseparate _ (by decide +kernel) (by decide), not_infix_of_notMem (by decide) hc⟩
  · exact ⟨hseparate _ (by decide +kernel) (by decide), not_infix_of_notMem (by decide) hpercent⟩

end Report

section Check

variable {c : Config} {p : Totals} {xs : List Input} {is : List ℕ} {hostname before : CString}
  {chunks : List CString}

/-- A pattern is found in the line of the loss, if anywhere. -/
theorem infix_text_iff (hpos : 0 < p.ntransmitted.toNat) (hlt : p.ntransmitted.toNat < 6)
    (hle : p.nreceived.toNat ≤ p.ntransmitted.toNat)
    (hclear : Clear pingPatterns (before ++ statisticsTitle hostname)) :
    ∀ q ∈ pingPatterns, (q.1 <:+: before ++ (finish c hostname p).text ↔
      q.2 = 1 ∧ loss p = 0 ∨ q.1 = " 100%".toList ∧ loss p = 100) := by
  intro q hq
  obtain ⟨hcounts, hlines⟩ := parts_of_five
  obtain ⟨hseparate₁, hclear₁⟩ := hcounts p.ntransmitted.toNat hlt p.nreceived.toNat
    (Nat.lt_of_le_of_lt hle hlt) hpos q hq
  obtain ⟨hseparate₂, hclear₂⟩ := duplicatesText_clear p.nrepeats.toInt q hq
  obtain ⟨hseparate₃, hline⟩ := hlines (loss p) (Nat.lt_succ_of_le (loss_le p)) q hq
  obtain ⟨hseparate₄, hclear₄⟩ := timesText_clear c p q hq
  have htext : before ++ (finish c hostname p).text =
      before ++ statisticsTitle hostname ++ countsText p.ntransmitted.toNat p.nreceived.toNat ++
        duplicatesText p.nrepeats.toInt ++ lossLine (loss p) ++ timesText c p := by
    rw [text_finish hostname (lossText_of_le hpos (by omega) hle (by omega)),
      toInt_eq_toNat (by omega), toInt_eq_toNat (by omega)]
    simp only [List.append_assoc]
  rw [htext, infix_append_iff_of_separate hseparate₄, or_iff_left hclear₄,
    infix_append_iff_of_separate hseparate₃, infix_append_iff_of_separate hseparate₂,
    or_iff_left hclear₂, infix_append_iff_of_separate hseparate₁, or_iff_left hclear₁,
    or_iff_right (hclear q hq)]
  exact hline

theorem loss_eq_hundred_iff (hpos : 0 < p.ntransmitted.toNat)
    (hle : p.nreceived.toNat ≤ p.ntransmitted.toNat) : loss p = 100 ↔ p.nreceived = 0 := by
  unfold loss
  constructor
  · intro h
    by_contra hne
    have hnat : p.nreceived.toNat ≠ 0 := fun hzero => hne (BitVec.eq_of_toNat_eq hzero)
    have hlt : (p.ntransmitted.toNat - p.nreceived.toNat) * 100 < p.ntransmitted.toNat * 100 := by
      omega
    exact absurd h (Nat.div_lt_of_lt_mul hlt).ne
  · intro hzero
    have hnat : p.nreceived.toNat = 0 := congrArg BitVec.toNat hzero
    rw [hnat, Nat.sub_zero, Nat.mul_comm]
    exact Nat.mul_div_cancel 100 hpos

/-- **The ping check fails if and only if there was no reply at all**, whatever the loss: for every
run of five packets whose replies answer packets that were sent, for every text before the report
that has no pattern in it, and however the text is cut into chunks. -/
theorem checkHostPingv4_eq (hpackets : c.npackets = 5) (hpreload : c.preload = 0)
    (hflood : c.flood = false) (hfits : c.Fits xs) (hmain : main c xs = some (p, []))
    (hanswers : Answers c Sent (launch c) xs is)
    (hclear : Clear pingPatterns (before ++ statisticsTitle hostname))
    (hchunks : chunks.flatten = before ++ (finish c hostname p).text) :
    checkHostPingv4 chunks = if replies c xs = [] then 0 else 1 := by
  have hpos := ntransmitted_pos_of_main hfits hmain
  have hle := nreceived_le_ntransmitted hfits hmain hanswers
  have hlimit : c.limit = 5 := by
    rw [Config.limit, hpackets, hpreload]
    rfl
  have hlt : p.ntransmitted.toNat < 6 := by
    have hlimited := ntransmitted_le_limit hfits hflood (by rw [hpackets]; decide) hmain
    rw [hlimit] at hlimited
    omega
  have hreplies := nreceived_eq_zero_iff hfits hmain
  have hoccursIff := infix_text_iff (c := c) hpos hlt hle hclear
  rw [← hchunks] at hoccursIff
  have hhundred := loss_eq_hundred_iff hpos hle
  by_cases hzero : p.nreceived = 0
  · -- The whole loss is found.
    have hvalue : ∀ q ∈ pingPatterns, q.1 = " 100%".toList → q.2 = 0 := by decide
    have hfound : expect pingPatterns [] chunks = some 0 := by
      refine expect_eq_some_of_unique ⟨(" 100%".toList, 0), by decide, ?_⟩ fun q hq hoccurs => ?_
      · exact (hoccursIff _ (by decide)).mpr (Or.inr ⟨rfl, hhundred.mpr hzero⟩)
      · rcases (hoccursIff q hq).mp hoccurs with ⟨-, hloss⟩ | ⟨hq', -⟩
        · exact absurd (hloss.symm.trans (hhundred.mpr hzero)) (by decide)
        · exact hvalue q hq hq'
    rw [if_pos (hreplies.mp hzero), checkHostPingv4, hfound, Option.getD_some]
  · rw [if_neg fun hnil => hzero (hreplies.mpr hnil), checkHostPingv4]
    cases hresult : expect pingPatterns [] chunks with
    | none => rfl
    | some v =>
      obtain ⟨q, hq, hoccurs, rfl⟩ := exists_of_expect_eq_some hresult
      rcases (hoccursIff q hq).mp hoccurs with ⟨hone, -⟩ | ⟨-, hloss⟩
      · exact hone
      · exact absurd (hhundred.mp hloss) hzero

/-- `armping -M -s 64 -c 5`. -/
def fivePackets : Config := ⟨7, 64, 5, 0, false⟩

/-- A reply to a packet of 64 bytes, after a millisecond. -/
def quickReply (icmpSeq : BitVec 16) : Packet := ⟨92, 0, 7, icmpSeq, ⟨10, 1000⟩, ⟨10, 0⟩⟩

/-- The second packet and the last two are lost. -/
def partialLoss : List Input :=
  [.packet (quickReply 0), .alarm, .alarm, .packet (quickReply 2), .alarm, .alarm, .alarm]

/-- The variables at the end of the run with a loss. -/
def partialEnd : Totals := (run fivePackets (launch fivePackets) partialLoss).totals

theorem main_partialLoss : main fivePackets partialLoss = some (partialEnd, []) := rfl

/-- The line of the first reply. -/
def replyLine : CString := "72 bytes from 10.0.0.1: icmp_seq=0 ttl=64 time=1.0 ms\r\n".toList

/-- A run in which three packets of five are lost, with the report in two pieces after the line of a
reply, passes. -/
theorem checkHostPingv4_eq_partial :
    (finish fivePackets "10.0.0.1".toList partialEnd).text =
      ("\n--- 10.0.0.1 ping statistics ---\n5 packets transmitted, 2 packets received, " ++
        "60% packet loss\nround-trip min/avg/max = 1.0/1.0/1.0 ms\n").toList ∧
      checkHostPingv4 [replyLine, (finish fivePackets "10.0.0.1".toList partialEnd).text.take 60,
        (finish fivePackets "10.0.0.1".toList partialEnd).text.drop 60] = 1 := by
  constructor
  · decide +kernel
  · have hanswers : Answers fivePackets Sent (launch fivePackets) partialLoss [0, 2] :=
      .reply (by decide) rfl (show 0 < 1 by decide) <| .other nofun <| .other nofun <|
      .reply (by decide) rfl (show 2 < 3 by decide) <| .other nofun <| .other nofun <|
      .other nofun <| .nil _
    have hclear : Clear pingPatterns (replyLine ++ statisticsTitle "10.0.0.1".toList) := by
      decide +kernel
    have hchunks : [replyLine, (finish fivePackets "10.0.0.1".toList partialEnd).text.take 60,
        (finish fivePackets "10.0.0.1".toList partialEnd).text.drop 60].flatten =
          replyLine ++ (finish fivePackets "10.0.0.1".toList partialEnd).text := by
      simp
    rw [checkHostPingv4_eq rfl rfl rfl (by decide) main_partialLoss hanswers hclear hchunks]
    decide

end Check

end LinuxTest.Ping
