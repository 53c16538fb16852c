import Mathlib.Data.List.Basic

/-!
# Fields with a delimiter

A text that is made of fields, each with a delimiter behind it that does not occur in the fields,
determines its fields. A field of characters of one kind ends where a character of another kind
comes.

## Main definitions

* `StopsAt p rest`: no character of the kind `p` comes first

## Main results

* `takeWhile_append_of_stopsAt`, `dropWhile_append_of_stopsAt`: a scan takes a field of one kind
* `append_delimiter_inj`: the first field
* `flatMap_delimiter_inj`: all fields of a text
* `flatMap_delimiter_append_inj`: a number of fields, and what follows them
-/

namespace Foundations

variable {A B : Type*} {d : A}

/-- **The first field of a text**, and what follows its delimiter. -/
theorem append_delimiter_inj {a b s t : List A} (ha : d ∉ a) (hb : d ∉ b) :
    a ++ d :: s = b ++ d :: t ↔ a = b ∧ s = t := by
  constructor
  · intro h
    induction a generalizing b with
    | nil =>
      cases b with
      | nil => exact ⟨rfl, (List.cons.inj h).2⟩
      | cons y b => exact absurd (List.cons.inj h).1 (List.ne_of_not_mem_cons hb)
    | cons x a ih =>
      cases b with
      | nil => exact absurd (List.cons.inj h).1.symm (List.ne_of_not_mem_cons ha)
      | cons y b =>
        obtain ⟨rfl, htail⟩ := List.cons.inj h
        obtain ⟨rfl, rfl⟩ :=
          ih (List.not_mem_of_not_mem_cons ha) (List.not_mem_of_not_mem_cons hb) htail
        exact ⟨rfl, rfl⟩
  · rintro ⟨rfl, rfl⟩
    rfl

section Scans

variable {p : A → Bool} {s rest : List A}

/-- A scan of characters of the kind `p` takes nothing of a text. -/
def StopsAt (p : A → Bool) (rest : List A) : Prop := ∀ c, rest.head? = some c → p c = false

theorem stopsAt_nil (p : A → Bool) : StopsAt p [] := nofun

theorem stopsAt_cons {c : A} (h : p c = false) (rest : List A) : StopsAt p (c :: rest) := by
  rintro c' ⟨⟩
  exact h

/-- **A scan takes a field of one kind.** -/
theorem takeWhile_append_of_stopsAt (hs : ∀ c ∈ s, p c = true) (hrest : StopsAt p rest) :
    (s ++ rest).takeWhile p = s := by
  rw [List.takeWhile_append_of_pos hs]
  cases rest with
  | nil => exact List.append_nil s
  | cons c rest => rw [List.takeWhile_cons_of_neg (by simp [hrest c rfl]), List.append_nil]

/-- **A scan leaves what follows a field of one kind.** -/
theorem dropWhile_append_of_stopsAt (hs : ∀ c ∈ s, p c = true) (hrest : StopsAt p rest) :
    (s ++ rest).dropWhile p = rest := by
  rw [List.dropWhile_append_of_pos hs]
  cases rest with
  | nil => rfl
  | cons c rest => rw [List.dropWhile_cons_of_neg (by simp [hrest c rfl])]

end Scans

section Fields

variable {f : B → List A} (hf : ∀ x, d ∉ f x)

include hf

/-- **A number of fields**, and what follows them. -/
theorem flatMap_delimiter_append_inj {l l' : List B} (hlength : l.length = l'.length)
    {s t : List A} :
    l.flatMap (fun x => f x ++ [d]) ++ s = l'.flatMap (fun x => f x ++ [d]) ++ t ↔
      l.map f = l'.map f ∧ s = t := by
  induction l generalizing l' with
  | nil =>
    rw [List.length_nil, eq_comm, List.length_eq_zero_iff] at hlength
    rw [hlength]
    exact ⟨fun h => ⟨rfl, h⟩, fun h => h.2⟩
  | cons x l ih =>
    cases l' with
    | nil => exact absurd hlength (Nat.succ_ne_zero l.length)
    | cons y l' =>
      have hfields (x : B) (l : List B) (s : List A) :
          (x :: l).flatMap (fun x => f x ++ [d]) ++ s =
            f x ++ d :: (l.flatMap (fun x => f x ++ [d]) ++ s) := by
        simp
      rw [hfields, hfields, append_delimiter_inj (hf x) (hf y), ih (Nat.succ.inj hlength),
        List.map_cons, List.map_cons, List.cons.injEq]
      exact and_assoc.symm

/-- **All fields of a text.** -/
theorem flatMap_delimiter_inj {l l' : List B} :
    l.flatMap (fun x => f x ++ [d]) = l'.flatMap (fun x => f x ++ [d]) ↔ l.map f = l'.map f := by
  induction l generalizing l' with
  | nil =>
    cases l' with
    | nil => exact iff_of_true rfl rfl
    | cons y l' => simp
  | cons x l ih =>
    cases l' with
    | nil => simp
    | cons y l' =>
      have hfields (x : B) (l : List B) :
          (x :: l).flatMap (fun x => f x ++ [d]) =
            f x ++ d :: l.flatMap (fun x => f x ++ [d]) := by
        simp
      rw [hfields, hfields, append_delimiter_inj (hf x) (hf y), ih, List.map_cons, List.map_cons,
        List.cons.injEq]

end Fields

end Foundations
