import Intcode.Proofs.Listing.Grammar

/-!
Writing a program and reading it again. No blank and no comma occurs in a numeral, so items that
stand for words can be joined with commas and are found again as they were. The texts of words are
such items.
-/
namespace Intcode

namespace Numeral

/-- The characters of numerals. -/
def IsMark (c : Char) : Prop :=
  c.isDigit ∨ c = '+' ∨ c = '-'

theorem StandsFor.isMark {text : List Char} {value : Int} (h : StandsFor text value) :
    ∀ c ∈ text, IsMark c := by
  cases h with
  | unsigned hdigits => exact fun c hc => .inl (hdigits.2 c hc)
  | plus hdigits =>
    exact List.forall_mem_cons.mpr ⟨.inr (.inl rfl), fun c hc => .inl (hdigits.2 c hc)⟩
  | minus hdigits =>
    exact List.forall_mem_cons.mpr ⟨.inr (.inr rfl), fun c hc => .inl (hdigits.2 c hc)⟩

theorem StandsFor.ne_nil {text : List Char} {value : Int} (h : StandsFor text value) :
    text ≠ [] := by
  cases h with
  | unsigned hdigits => exact hdigits.1
  | plus hdigits => nofun
  | minus hdigits => nofun

theorem not_isMark_comma : ¬IsMark ',' := by
  rintro (hdigit | heq | heq)
  · exact absurd hdigit (by decide)
  · exact absurd heq (by decide)
  · exact absurd heq (by decide)

theorem IsMark.bounds {c : Char} (h : IsMark c) : '+'.toNat ≤ c.toNat ∧ c.toNat ≤ '9'.toNat := by
  rcases h with hdigit | rfl | rfl
  · obtain ⟨hlow, hhigh⟩ := Char.isDigit_iff_toNat.mp hdigit
    exact ⟨Nat.le_trans (by decide) hlow, hhigh⟩
  · decide
  · decide

end Numeral

namespace Text

/-- Each range of blanks ends before the plus sign or begins after the nine. -/
theorem not_isBlank_of_bounds {c : Char} (h : '+'.toNat ≤ c.toNat ∧ c.toNat ≤ '9'.toNat) :
    ¬isBlank c := by
  intro hblank
  obtain ⟨⟨first, last⟩, hrange, hc⟩ := List.any_eq_true.mp hblank
  have houtside : ∀ range ∈ blankRanges, range.2 < '+'.toNat ∨ '9'.toNat < range.1 := by decide
  have hbounds := houtside _ hrange
  simp only [Bool.and_eq_true, decide_eq_true_eq] at hc hbounds
  omega

end Text

namespace Listing

theorem mem_intercalate {c : Char} {pieces : List (List Char)}
    (h : c ∈ [','].intercalate pieces) : c = ',' ∨ ∃ piece ∈ pieces, c ∈ piece := by
  induction pieces with
  | nil => cases h
  | cons first rest ih =>
    cases rest with
    | nil =>
      rw [List.intercalate_singleton] at h
      exact .inr ⟨first, List.mem_cons_self, h⟩
    | cons second others =>
      rw [List.intercalate_cons_cons, List.append_assoc, List.mem_append, List.mem_append] at h
      rcases h with hfirst | hcomma | hrest
      · exact .inr ⟨first, List.mem_cons_self, hfirst⟩
      · exact .inl (List.mem_singleton.mp hcomma)
      · rcases ih hrest with hcomma | ⟨piece, hpiece, hc⟩
        · exact .inl hcomma
        · exact .inr ⟨piece, List.mem_cons_of_mem _ hpiece, hc⟩

section

variable {items : List (List Char)} {words : List Word}

theorem StandFor.exists_standsFor (h : StandFor items words) :
    ∀ item ∈ items, ∃ value, Numeral.StandsFor item value := by
  intro item hitem
  obtain ⟨value, hstands, -⟩ := exists_standFor_iff.mp ⟨words, h⟩ item hitem
  exact ⟨value, hstands⟩

theorem StandFor.isMark (h : StandFor items words) :
    ∀ item ∈ items, ∀ c ∈ item, Numeral.IsMark c := by
  intro item hitem
  obtain ⟨value, hstands⟩ := h.exists_standsFor item hitem
  exact hstands.isMark

theorem StandFor.cuts (h : StandFor items words) (hitems : items ≠ []) :
    Cuts ([','].intercalate items) items where
  joined := rfl
  apart item hitem hcomma := Numeral.not_isMark_comma (h.isMark item hitem ',' hcomma)
  some_piece := hitems

theorem StandFor.itemizes (h : StandFor items words) (hitems : items ≠ []) :
    Itemizes ([','].intercalate items) items := by
  refine ⟨items, h.cuts hitems, List.forall₂_same.mpr ?_⟩
  intro item hitem
  apply Text.trims_self
  intro c hc
  exact Text.not_isBlank_of_bounds (h.isMark item hitem c hc).bounds

theorem StandFor.trims (h : StandFor items words) :
    Text.Trims ([','].intercalate items) ([','].intercalate items) := by
  apply Text.trims_self
  intro c hc
  apply Text.not_isBlank_of_bounds
  rcases mem_intercalate hc with rfl | ⟨item, hitem, hmem⟩
  · decide
  · exact (h.isMark item hitem c hmem).bounds

theorem StandFor.intercalate_ne_nil (h : StandFor items words) (hitems : items ≠ []) :
    [','].intercalate items ≠ [] := by
  intro hnil
  have hsplit := (h.cuts hitems).splitOn_eq
  rw [hnil] at hsplit
  have hempty : [] ∈ items := by
    rw [← hsplit]
    exact List.mem_singleton.mpr rfl
  obtain ⟨value, hstands⟩ := h.exists_standsFor [] hempty
  exact hstands.ne_nil rfl

/-- Numerals joined with commas are a listing of the words that they stand for. -/
theorem parse_intercalate (h : StandFor items words) :
    parse (String.ofList ([','].intercalate items)) = .ok words := by
  by_cases hitems : items = []
  · subst hitems
    cases h
    rfl
  · have htrim : Text.trim (String.ofList ([','].intercalate items)).toList =
        [','].intercalate items := by
      rw [String.toList_ofList, h.trims.trim_eq]
    have hne : Text.trim (String.ofList ([','].intercalate items)).toList ≠ [] := by
      rw [htrim]
      exact h.intercalate_ne_nil hitems
    rw [parse_of_trim_ne_nil hne, htrim, (h.itemizes hitems).items_eq]
    exact readItems_eq_ok_iff.mpr h

end

theorem standFor_texts (words : List Word) :
    StandFor (words.map fun word => word.text.toList) words :=
  List.forall₂_map_left_iff.mpr (List.forall₂_same.mpr fun word _ => Numeral.standsFor_text word)

theorem parse_format (words : List Word) : parse (format words) = .ok words := by
  have hjoined : format words =
      String.ofList ([','].intercalate (words.map fun word => word.text.toList)) := by
    apply String.toList_injective
    rw [String.toList_ofList, format, String.toList_intercalate, List.map_map]
    rfl
  rw [hjoined]
  exact parse_intercalate (standFor_texts words)

/-- Formatting a program and reading it again gives the program. So a listing may be replaced by the
formatted form of what it reads as: that reads the same. -/
theorem format_roundTrips :
    (∀ words, parse (format words) = .ok words) ∧
      ∀ text words, parse text = .ok words → parse (format words) = parse text := by
  refine ⟨parse_format, ?_⟩
  intro text words hparse
  rw [hparse, parse_format]

/-- Signs, zeros and blanks that formatting leaves out, around words at both ends of their range. -/
theorem format_roundTrips_extremes :
    parse " +009223372036854775807 ,\t-9223372036854775808\n" =
        .ok [9223372036854775807, -9223372036854775808] ∧
      parse (format [9223372036854775807, -9223372036854775808]) =
        parse " +009223372036854775807 ,\t-9223372036854775808\n" := by
  have hparse : parse " +009223372036854775807 ,\t-9223372036854775808\n" =
      .ok [9223372036854775807, -9223372036854775808] := by cbv
  exact ⟨hparse, format_roundTrips.2 _ _ hparse⟩

end Listing

end Intcode
