import Mathlib.Data.List.Infix

/-!
# Searching a text for a whole word

A search for whole words finds a needle where neither the character before it nor the one after it
is a word constituent; the two ends of the text count as no constituents. Matches are counted from
the left and do not overlap. A separator that is no constituent and not part of the needle cuts the
text into pieces that are searched on their own. In a piece made of constituents only the piece
itself is found; a piece with another character in it has parts that are found too.

## Main definitions

* `wordMatches`: the number of matches in a text
* `OccursAsWord`: the needle stands somewhere in the text as a whole word

## Main results

* `wordMatches_pos_iff`: the search finds something exactly if the needle occurs
* `occursAsWord_intercalate`: pieces between separators are searched on their own
* `occursAsWord_of_forall_isWord`: a piece of constituents is only found as a whole
-/

namespace Foundations

variable {α : Type*} (isWord : α → Bool)

/-- Whether a word may begin or end next to a character, or at an end of the text. -/
def edge (atEnd : Bool) (c : Option α) : Bool := c.elim atEnd fun x => !isWord x

/-- The needle stands in the text as a whole word. What is before the text counts as `clean` if a
word may begin there. -/
def OccursAsWord (needle : List α) (clean : Bool) (text : List α) : Prop :=
  ∃ before after, text = before ++ (needle ++ after) ∧
    edge isWord clean before.getLast? = true ∧ edge isWord true after.head? = true

section Search

variable [DecidableEq α]

/-- The needle stands at the beginning of the text as a whole word. -/
def startsWord (needle : List α) (clean : Bool) (text : List α) : Bool :=
  clean && needle.isPrefixOf text && edge isWord true (text.drop needle.length).head?

/-- The number of matches from the left, the first `skip` characters being part of the last one. -/
def wordMatches (needle : List α) : ℕ → Bool → List α → ℕ
  | _, _, [] => 0
  | skip + 1, _, c :: text => wordMatches needle skip (!isWord c) text
  | 0, clean, c :: text =>
    if startsWord isWord needle clean (c :: text) then
      wordMatches needle (needle.length - 1) (!isWord c) text + 1
    else wordMatches needle 0 (!isWord c) text

end Search

variable {isWord} {needle text : List α} {clean : Bool} {c sep : α}

theorem edge_getLast?_cons (before : List α) :
    edge isWord clean (c :: before).getLast? = edge isWord (!isWord c) before.getLast? := by
  rw [List.getLast?_cons]
  cases before.getLast? <;> rfl

/-- An occurrence is at the beginning of the text or after its first character. -/
theorem occursAsWord_cons : OccursAsWord isWord needle clean (c :: text) ↔
    (clean = true ∧ ∃ after, c :: text = needle ++ after ∧ edge isWord true after.head? = true) ∨
      OccursAsWord isWord needle (!isWord c) text := by
  constructor
  · rintro ⟨before, after, htext, hbefore, hafter⟩
    cases before with
    | nil => exact Or.inl ⟨hbefore, after, htext, hafter⟩
    | cons d before =>
      obtain ⟨rfl, rfl⟩ := List.cons.inj htext
      rw [edge_getLast?_cons] at hbefore
      exact Or.inr ⟨before, after, rfl, hbefore, hafter⟩
  · rintro (⟨hclean, after, htext, hafter⟩ | ⟨before, after, rfl, hbefore, hafter⟩)
    · exact ⟨[], after, htext, hclean, hafter⟩
    · refine ⟨c :: before, after, rfl, ?_, hafter⟩
      rwa [edge_getLast?_cons]

theorem not_occursAsWord_nil (hne : needle ≠ []) : ¬ OccursAsWord isWord needle clean [] := by
  rintro ⟨before, after, htext, -, -⟩
  have hempty := List.append_eq_nil_iff.mp htext.symm
  exact hne (List.append_eq_nil_iff.mp hempty.2).1

theorem mem_of_occursAsWord (h : OccursAsWord isWord needle clean text) (hc : c ∈ needle) :
    c ∈ text := by
  obtain ⟨before, after, rfl, -, -⟩ := h
  exact List.mem_append_right _ (List.mem_append_left _ hc)

section Search

variable [DecidableEq α]

theorem startsWord_iff : startsWord isWord needle clean text = true ↔
    clean = true ∧ ∃ after, text = needle ++ after ∧ edge isWord true after.head? = true := by
  rw [startsWord, Bool.and_eq_true, Bool.and_eq_true, List.isPrefixOf_iff_prefix]
  constructor
  · rintro ⟨⟨hclean, after, rfl⟩, hafter⟩
    rw [List.drop_left] at hafter
    exact ⟨hclean, after, rfl, hafter⟩
  · rintro ⟨hclean, after, rfl, hafter⟩
    refine ⟨⟨hclean, List.prefix_append needle after⟩, ?_⟩
    rwa [List.drop_left]

/-- **The search finds something** exactly if the needle occurs. -/
theorem wordMatches_pos_iff (hne : needle ≠ []) :
    0 < wordMatches isWord needle 0 clean text ↔ OccursAsWord isWord needle clean text := by
  -- Until the first match nothing is skipped, so the induction stays at `skip = 0`.
  induction text generalizing clean with
  | nil => exact iff_of_false (lt_irrefl 0) (not_occursAsWord_nil hne)
  | cons c text ih =>
    rw [wordMatches, occursAsWord_cons, ← startsWord_iff]
    by_cases hstarts : startsWord isWord needle clean (c :: text) = true
    · rw [if_pos hstarts]
      exact iff_of_true (Nat.succ_pos _) (Or.inl hstarts)
    · rw [if_neg hstarts, ih]
      exact ⟨Or.inr, fun h => h.resolve_left hstarts⟩

end Search

/-! ## Separators -/

section Separator

variable (hsep : isWord sep = false) (hmem : sep ∉ needle) (hne : needle ≠ [])
include hsep hmem

/-- A needle without the separator stands at the beginning of the first piece. -/
theorem exists_append_separator_iff (a b : List α) :
    (∃ after, a ++ sep :: b = needle ++ after ∧ edge isWord true after.head? = true) ↔
      ∃ after, a = needle ++ after ∧ edge isWord true after.head? = true := by
  constructor
  · rintro ⟨after, htext, hafter⟩
    rcases List.append_eq_append_iff.mp htext with ⟨rest, rfl, hrest⟩ | ⟨rest, rfl, rfl⟩
    · -- The needle would have to reach over the separator.
      cases rest with
      | nil => exact ⟨[], by simp, rfl⟩
      | cons d rest =>
        obtain ⟨rfl, -⟩ := List.cons.inj hrest
        exact absurd (List.mem_append_right a List.mem_cons_self) hmem
    · refine ⟨rest, rfl, ?_⟩
      cases rest with
      | nil => rfl
      | cons d rest => exact hafter
  · rintro ⟨after, rfl, hafter⟩
    refine ⟨after ++ sep :: b, List.append_assoc .., ?_⟩
    cases after with
    | nil => simpa [edge] using hsep
    | cons d after => exact hafter

include hne

theorem occursAsWord_append_separator (a b : List α) :
    OccursAsWord isWord needle clean (a ++ sep :: b) ↔
      OccursAsWord isWord needle clean a ∨ OccursAsWord isWord needle true b := by
  induction a generalizing clean with
  | nil =>
    have hstart := exists_append_separator_iff hsep hmem [] b
    have hnone : ¬ ∃ after, [] = needle ++ after ∧ edge isWord true after.head? = true :=
      fun ⟨after, hnil, _⟩ => hne (List.append_eq_nil_iff.mp hnil.symm).1
    rw [List.nil_append] at hstart ⊢
    rw [occursAsWord_cons, hstart, hsep, Bool.not_false]
    exact or_congr (iff_of_false (fun h => hnone h.2) (not_occursAsWord_nil hne)) Iff.rfl
  | cons c a ih =>
    have hstart := exists_append_separator_iff hsep hmem (c :: a) b
    rw [List.cons_append] at hstart ⊢
    rw [occursAsWord_cons, hstart, ih, occursAsWord_cons, or_assoc]

/-- **Pieces between separators are searched on their own.** -/
theorem occursAsWord_intercalate (pieces : List (List α)) :
    OccursAsWord isWord needle true ([sep].intercalate pieces) ↔
      ∃ piece ∈ pieces, OccursAsWord isWord needle true piece := by
  induction pieces with
  | nil => simp [not_occursAsWord_nil hne]
  | cons piece pieces ih =>
    cases pieces with
    | nil => simp
    | cons next pieces =>
      have hjoin : [sep].intercalate (piece :: next :: pieces) =
          piece ++ sep :: [sep].intercalate (next :: pieces) := by simp
      rw [hjoin, occursAsWord_append_separator hsep hmem hne, ih,
        List.exists_mem_cons_iff (OccursAsWord isWord needle true) piece]

end Separator

/-- **A piece of constituents is only found as a whole.** -/
theorem occursAsWord_of_forall_isWord (hne : needle ≠ []) (hall : ∀ x ∈ text, isWord x = true) :
    OccursAsWord isWord needle true text ↔ text = needle := by
  constructor
  · rintro ⟨before, after, rfl, hbefore, hafter⟩
    have hnoBefore : before = [] := by
      by_contra hlong
      rw [List.getLast?_eq_some_getLast hlong] at hbefore
      have hlast := hall _ (List.mem_append_left _ (List.getLast_mem hlong))
      simp [edge, hlast] at hbefore
    have hnoAfter : after = [] := by
      cases after with
      | nil => rfl
      | cons d after =>
        have hd := hall d (by simp)
        simp [edge, hd] at hafter
    rw [hnoBefore, hnoAfter, List.nil_append, List.append_nil]
  · rintro rfl
    exact ⟨[], [], by simp, rfl, rfl⟩

end Foundations
