import Mathlib.Data.List.Infix

/-!
# Waiting for a pattern in a stream

Text arrives in chunks, and a list of patterns is tried in order, each anywhere in all the text
received so far, until one is found or the text ends. What is found does not depend on the chunks
when only one value is possible. A pattern that occurs in a text followed by another occurs in one of
the two, unless it begins in the first and ends in the second.

## Main definitions

* `firstMatch patterns text`: the value of the first pattern that occurs in a text
* `expect patterns received chunks`: wait for a pattern, with some text received already
* `Separate p out`: no occurrence of `p` can end inside `out` and begin before it

## Main results

* `expect_eq_none_iff`, `exists_of_expect_eq_some`: what can be found
* `expect_eq_some_of_unique`: the only possible value is found, for every chunking
* `infix_append_iff_of_separate`: occurrences in a text followed by another
-/

namespace Foundations

section Expect

variable {α β : Type*} [DecidableEq α]

/-- The value of the first pattern that occurs in a text. -/
def firstMatch (patterns : List (List α × β)) (text : List α) : Option β :=
  (patterns.find? fun p => p.1 <:+: text).map Prod.snd

/-- Wait for a pattern while text arrives in chunks. -/
def expect (patterns : List (List α × β)) (received : List α) : List (List α) → Option β
  | [] => firstMatch patterns received
  | chunk :: chunks =>
    match firstMatch patterns received with
    | some v => some v
    | none => expect patterns (received ++ chunk) chunks

variable {patterns : List (List α × β)} {received text : List α} {chunks : List (List α)} {v : β}

theorem firstMatch_eq_none_iff : firstMatch patterns text = none ↔
    ∀ p ∈ patterns, ¬ p.1 <:+: text := by
  simp [firstMatch]

theorem exists_of_firstMatch_eq_some (h : firstMatch patterns text = some v) :
    ∃ p ∈ patterns, p.1 <:+: text ∧ p.2 = v := by
  obtain ⟨p, hp, rfl⟩ := Option.map_eq_some_iff.mp h
  exact ⟨p, List.mem_of_find?_eq_some hp, by simpa using List.find?_some hp, rfl⟩

/-- A pattern is found exactly if one occurs in the whole text. -/
theorem expect_eq_none_iff : expect patterns received chunks = none ↔
    ∀ p ∈ patterns, ¬ p.1 <:+: received ++ chunks.flatten := by
  induction chunks generalizing received with
  | nil => simp [expect, firstMatch_eq_none_iff]
  | cons chunk chunks ih =>
    rw [List.flatten_cons, ← List.append_assoc]
    cases hfirst : firstMatch patterns received with
    | none =>
      rw [expect, hfirst]
      exact ih
    | some v =>
      -- What has occurred already occurs in the whole text.
      obtain ⟨p, hp, hinfix, -⟩ := exists_of_firstMatch_eq_some hfirst
      rw [expect, hfirst]
      refine iff_of_false (Option.some_ne_none v) fun h => h p hp ?_
      rw [List.append_assoc]
      exact List.infix_append_of_infix_left hinfix

/-- What is found is the value of a pattern that occurs in the whole text. -/
theorem exists_of_expect_eq_some (h : expect patterns received chunks = some v) :
    ∃ p ∈ patterns, p.1 <:+: received ++ chunks.flatten ∧ p.2 = v := by
  induction chunks generalizing received with
  | nil => simpa using exists_of_firstMatch_eq_some h
  | cons chunk chunks ih =>
    rw [List.flatten_cons, ← List.append_assoc]
    cases hfirst : firstMatch patterns received with
    | none =>
      rw [expect, hfirst] at h
      exact ih h
    | some u =>
      rw [expect, hfirst] at h
      cases h
      obtain ⟨p, hp, hinfix, rfl⟩ := exists_of_firstMatch_eq_some hfirst
      refine ⟨p, hp, ?_, rfl⟩
      rw [List.append_assoc]
      exact List.infix_append_of_infix_left hinfix

/-- **The only possible value is found**, however the text is cut into chunks. -/
theorem expect_eq_some_of_unique (hoccurs : ∃ p ∈ patterns, p.1 <:+: received ++ chunks.flatten)
    (hunique : ∀ p ∈ patterns, p.1 <:+: received ++ chunks.flatten → p.2 = v) :
    expect patterns received chunks = some v := by
  cases hresult : expect patterns received chunks with
  | none =>
    obtain ⟨p, hp, hinfix⟩ := hoccurs
    exact absurd hinfix (expect_eq_none_iff.mp hresult p hp)
  | some u =>
    obtain ⟨p, hp, hinfix, rfl⟩ := exists_of_expect_eq_some hresult
    rw [hunique p hp hinfix]

end Expect

section Separate

variable {α : Type*}

/-- No occurrence of `p` can begin before `out` and end inside it: no proper end of `p` is a
beginning of `out`. -/
def Separate (p out : List α) : Prop := ∀ b ∈ p.tails, b ≠ [] → b ≠ p → ¬ b <+: out

instance [DecidableEq α] (p out : List α) : Decidable (Separate p out) :=
  inferInstanceAs (Decidable (∀ b ∈ p.tails, b ≠ [] → b ≠ p → ¬ b <+: out))

/-- **Occurrences in a text followed by another** are occurrences in one of the two. -/
theorem infix_append_iff_of_separate {p out : List α} (h : Separate p out) (text : List α) :
    p <:+: text ++ out ↔ p <:+: text ∨ p <:+: out := by
  rw [List.infix_append_iff_ne_nil]
  constructor
  · rintro (hleft | hright | ⟨a, b, ha, hb, rfl, -, hout⟩)
    · exact Or.inl hleft
    · exact Or.inr hright
    · refine absurd hout (h b ((List.mem_tails _ _).mpr (List.suffix_append a b)) hb ?_)
      intro heq
      exact ha (by simpa using heq)
  · rintro (hleft | hright)
    · exact Or.inl hleft
    · exact Or.inr (Or.inl hright)

/-- Only the beginning of a text matters, if it is as long as the pattern. -/
theorem Separate.append {p out : List α} (h : Separate p out) (hlength : p.length ≤ out.length)
    (more : List α) : Separate p (out ++ more) := by
  intro b hb hne hbp hprefix
  have hle : b.length ≤ out.length := ((List.mem_tails _ _).mp hb).length_le.trans hlength
  exact h b hb hne hbp (List.prefix_of_prefix_length_le hprefix (List.prefix_append out more) hle)

/-- The first two characters of a text separate it from a pattern that does not end with the first
and does not contain the second. -/
theorem separate_cons_cons {p : List α} {x y : α} (hx : p.getLast? ≠ some x) (hy : y ∉ p)
    (more : List α) : Separate p (x :: y :: more) := by
  intro b hb hne _ hprefix
  obtain ⟨a, rfl⟩ := (List.mem_tails _ _).mp hb
  match b with
  | [] => exact hne rfl
  | [z] =>
    have hz : z = x := (List.cons_prefix_cons.mp hprefix).1
    exact hx (by rw [List.getLast?_append, hz]; rfl)
  | z :: w :: b =>
    have hw : w = y := (List.cons_prefix_cons.mp (List.cons_prefix_cons.mp hprefix).2).1
    exact hy (List.mem_append_right a (List.mem_cons_of_mem z (hw ▸ List.mem_cons_self)))

end Separate

end Foundations
