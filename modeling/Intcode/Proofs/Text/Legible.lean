import Mathlib

/-!
Texts that can be told apart from what comes after them. Where nothing is escaped, what may come
after a part of a text decides whether it can be read back: a run of characters of one kind ends
where one of another kind comes, and a list that is joined with a separator ends where neither the
separator nor a first text can come.
-/
namespace Intcode

/-- Texts that can be told apart, and each of them from what comes after it, if that is as the
predicate says. -/
def Legible {α : Type} (print : α → List Char) (Follows : List Char → Prop) : Prop :=
  ∀ ⦃a b rest rest'⦄, Follows rest → Follows rest' → print a ++ rest = print b ++ rest' →
    a = b ∧ rest = rest'

/-- Nothing at all, or a character first that is not as the predicate says. -/
def StartsOutside (P : Char → Prop) (text : List Char) : Prop := ∀ c ∈ text.head?, ¬P c

theorem startsOutside_of_head? {P : Char → Prop} {text : List Char} {c : Char}
    (h : text.head? = some c) (hc : ¬P c) : StartsOutside P text := by
  intro first hfirst
  cases h.symm.trans hfirst
  exact hc

section Parts

variable {α : Type} {print : α → List Char} {Follows : List Char → Prop}

theorem eq_nil_of_startsOutside {P : Char → Prop} {text rest : List Char}
    (htext : ∀ c ∈ text, P c) (h : StartsOutside P (text ++ rest)) : text = [] := by
  cases text with
  | nil => rfl
  | cons c text => exact absurd (htext c List.mem_cons_self) (h c rfl)

/-- A text with characters of one kind only ends where a character of another kind comes. -/
theorem legible_of_chars {P : Char → Prop} (hprint : Function.Injective print)
    (hchars : ∀ a, ∀ c ∈ print a, P c) : Legible print (StartsOutside P) := by
  intro a b rest rest' hrest hrest' h
  -- One text would be longer by characters that cannot come after the other.
  rcases List.append_eq_append_iff.mp h with ⟨more, hb, rfl⟩ | ⟨more, ha, rfl⟩
  · have hmore : ∀ c ∈ more, P c := fun c hc => hchars b c (by simp [hb, hc])
    obtain rfl := eq_nil_of_startsOutside hmore hrest
    rw [List.append_nil] at hb
    exact ⟨hprint hb.symm, rfl⟩
  · have hmore : ∀ c ∈ more, P c := fun c hc => hchars a c (by simp [ha, hc])
    obtain rfl := eq_nil_of_startsOutside hmore hrest'
    rw [List.append_nil] at ha
    exact ⟨hprint ha, rfl⟩

theorem Legible.injective (h : Legible print Follows) (hend : Follows []) :
    Function.Injective print := by
  intro a b heq
  exact (h hend hend (by rw [heq])).1

/-- A separator that can come after each text of a list, and an end of the list that can come after
the last one and that is no separator. -/
structure Separates (separator : List Char) (Follows Stop : List Char → Prop) : Prop where
  between : ∀ rest, Follows (separator ++ rest)
  behind : ∀ rest, Stop rest → Follows rest
  apart : ∀ rest, Stop rest → ¬separator <+: rest

variable {separator : List Char} {Stop : List Char → Prop}

theorem Separates.follows (h : Separates separator Follows Stop) {rest : List Char}
    (hrest : Stop rest) (items : List α) :
    Follows ((items.flatMap fun item => separator ++ print item) ++ rest) := by
  cases items with
  | nil => exact h.behind rest hrest
  | cons item items =>
    rw [List.flatMap_cons, List.append_assoc, List.append_assoc]
    exact h.between _

/-- Texts that all have the separator in front. -/
theorem Legible.flatMap (h : Legible print Follows)
    (hseparator : Separates separator Follows Stop) :
    Legible (fun items : List α => items.flatMap fun item => separator ++ print item) Stop := by
  intro items others rest rest' hrest hrest' heq
  induction items generalizing others with
  | nil =>
    cases others with
    | nil => exact ⟨rfl, heq⟩
    | cons other others =>
      simp only [List.flatMap_nil, List.nil_append, List.flatMap_cons, List.append_assoc] at heq
      exact absurd ⟨_, heq.symm⟩ (hseparator.apart rest hrest)
  | cons item items ih =>
    cases others with
    | nil =>
      simp only [List.flatMap_nil, List.nil_append, List.flatMap_cons, List.append_assoc] at heq
      exact absurd ⟨_, heq⟩ (hseparator.apart rest' hrest')
    | cons other others =>
      simp only [List.flatMap_cons, List.append_assoc] at heq
      obtain ⟨rfl, hmore⟩ := h (hseparator.follows hrest items) (hseparator.follows hrest' others)
        (List.append_cancel_left heq)
      obtain ⟨rfl, hends⟩ := ih hmore
      exact ⟨rfl, hends⟩

theorem intercalate_cons (first : List Char) (items : List α) :
    separator.intercalate (first :: items.map print) =
      first ++ items.flatMap fun item => separator ++ print item := by
  induction items generalizing first with
  | nil => simp
  | cons item items ih =>
    rw [List.map_cons, List.intercalate_cons_cons, ih, List.flatMap_cons, List.append_assoc,
      List.append_assoc]

/-- Texts that are joined with a separator, as many as there may be. -/
theorem Legible.intercalate (h : Legible print Follows)
    (hseparator : Separates separator Follows Stop)
    (hstart : ∀ item rest, ¬Stop (print item ++ rest)) :
    Legible (fun items : List α => separator.intercalate (items.map print)) Stop := by
  intro items others rest rest' hrest hrest' heq
  dsimp only at heq
  cases items with
  | nil =>
    cases others with
    | nil => exact ⟨rfl, heq⟩
    | cons other others =>
      rw [List.map_cons, intercalate_cons, List.append_assoc, List.map_nil, List.intercalate_nil,
        List.nil_append] at heq
      rw [heq] at hrest
      exact absurd hrest (hstart other _)
  | cons item items =>
    cases others with
    | nil =>
      rw [List.map_cons, intercalate_cons, List.append_assoc, List.map_nil, List.intercalate_nil,
        List.nil_append] at heq
      rw [← heq] at hrest'
      exact absurd hrest' (hstart item _)
    | cons other others =>
      rw [List.map_cons, List.map_cons, intercalate_cons, intercalate_cons, List.append_assoc,
        List.append_assoc] at heq
      obtain ⟨rfl, hmore⟩ :=
        h (hseparator.follows hrest items) (hseparator.follows hrest' others) heq
      obtain ⟨rfl, hends⟩ := h.flatMap hseparator hrest hrest' hmore
      exact ⟨rfl, hends⟩

end Parts

end Intcode
