import Intcode.Listing
import Intcode.Proofs.Listing.Numeral

/-!
The grammar of listings, said without a reader. Trimming a text and cutting it at its commas are
told by how the text is put together again, and each of the two can be undone in one way only. A
listing is accepted if and only if all its items are numerals of words; otherwise the first one that
is none is reported, under its number and as it stands there.
-/
namespace Intcode

namespace Text

/-- A text is the trimmed one with blanks around it, and the trimmed one has none at its ends. -/
structure Trims (text trimmed : List Char) : Prop where
  around : ∃ left right, text = left ++ (trimmed ++ right) ∧
    (∀ c ∈ left, isBlank c) ∧ ∀ c ∈ right, isBlank c
  first : ∀ c ∈ trimmed.head?, ¬isBlank c
  last : ∀ c ∈ trimmed.getLast?, ¬isBlank c

theorem trimLeft_append {left : List Char} (h : ∀ c ∈ left, isBlank c) (rest : List Char) :
    trimLeft (left ++ rest) = trimLeft rest :=
  List.dropWhile_append_of_pos h

theorem trimLeft_eq_self {text : List Char} (h : ∀ c ∈ text.head?, ¬isBlank c) :
    trimLeft text = text := by
  cases text with
  | nil => rfl
  | cons c rest => exact List.dropWhile_cons_of_neg (h c rfl)

theorem exists_append_trimLeft (text : List Char) :
    ∃ left, text = left ++ trimLeft text ∧ ∀ c ∈ left, isBlank c :=
  ⟨text.takeWhile isBlank, List.takeWhile_append_dropWhile.symm,
    fun _ hc => List.mem_takeWhile_imp hc⟩

theorem not_isBlank_head_trimLeft (text : List Char) :
    ∀ c ∈ (trimLeft text).head?, ¬isBlank c := by
  intro c hc
  have hhead := List.head?_dropWhile_not isBlank text
  have hsome : (text.dropWhile isBlank).head? = some c := hc
  rw [hsome] at hhead
  exact Bool.not_eq_true _ ▸ hhead

theorem trims_trim (text : List Char) : Trims text (trim text) := by
  obtain ⟨left, htext, hleft⟩ := exists_append_trimLeft text
  obtain ⟨right, hrest, hright⟩ := exists_append_trimLeft (trimLeft text).reverse
  have hmiddle : trimLeft text = trim text ++ right.reverse := by
    rw [← (trimLeft text).reverse_reverse, hrest, List.reverse_append]
    rfl
  refine ⟨⟨left, right.reverse, ?_, hleft, ?_⟩, ?_, ?_⟩
  · rw [← hmiddle]
    exact htext
  · intro c hc
    exact hright c (List.mem_reverse.mp hc)
  · intro c hc
    apply not_isBlank_head_trimLeft text c
    rw [hmiddle, List.head?_append, hc]
    rfl
  · intro c hc
    apply not_isBlank_head_trimLeft (trimLeft text).reverse c
    rw [trim, List.getLast?_reverse] at hc
    exact hc

theorem Trims.trim_eq {text trimmed : List Char} (h : Trims text trimmed) :
    trim text = trimmed := by
  obtain ⟨left, right, rfl, hleft, hright⟩ := h.around
  rw [trim, trimLeft_append hleft]
  by_cases hnil : trimmed = []
  · have hblank : trimLeft (trimmed ++ right) = [] := by
      rw [hnil, List.nil_append]
      exact List.dropWhile_eq_nil_iff.mpr hright
    rw [hblank, hnil]
    rfl
  · have hfirst : trimLeft (trimmed ++ right) = trimmed ++ right := by
      apply trimLeft_eq_self
      rw [List.head?_append_of_ne_nil _ hnil]
      exact h.first
    have hlast : trimLeft trimmed.reverse = trimmed.reverse := by
      apply trimLeft_eq_self
      rw [List.head?_reverse]
      exact h.last
    have hreverse : ∀ c ∈ right.reverse, isBlank c := by
      intro c hc
      exact hright c (List.mem_reverse.mp hc)
    rw [hfirst, List.reverse_append, trimLeft_append hreverse, hlast, List.reverse_reverse]

theorem trims_self {text : List Char} (h : ∀ c ∈ text, ¬isBlank c) : Trims text text where
  around := ⟨[], [], (List.append_nil text).symm, nofun, nofun⟩
  first _ hc := h _ (List.mem_of_mem_head? hc)
  last _ hc := h _ (List.mem_of_mem_getLast? hc)

end Text

namespace Listing

/-- The pieces of a text between its commas: together with them they make up the text again. -/
structure Cuts (text : List Char) (pieces : List (List Char)) : Prop where
  joined : [','].intercalate pieces = text
  apart : ∀ piece ∈ pieces, ',' ∉ piece
  some_piece : pieces ≠ []

theorem not_mem_of_mem_splitOn (text : List Char) :
    ∀ piece ∈ text.splitOn ',', ',' ∉ piece := by
  induction text with
  | nil =>
    intro piece hpiece
    rw [List.mem_singleton.mp hpiece]
    nofun
  | cons c rest ih =>
    rw [List.splitOn_cons_eq_if_modifyHead]
    split
    · exact List.forall_mem_cons.mpr ⟨nofun, ih⟩
    · next hc =>
      obtain ⟨first, others, hrest⟩ := List.exists_cons_of_ne_nil (rest.splitOn_ne_nil ',')
      rw [hrest] at ih ⊢
      obtain ⟨hfirst, hothers⟩ := List.forall_mem_cons.mp ih
      have hcomma : ',' ∉ c :: first := by
        intro hmem
        rcases List.mem_cons.mp hmem with heq | hmem
        · exact hc (beq_iff_eq.mpr heq.symm)
        · exact hfirst hmem
      exact List.forall_mem_cons.mpr ⟨hcomma, hothers⟩

theorem cuts_splitOn (text : List Char) : Cuts text (text.splitOn ',') where
  joined := List.intercalate_splitOn ','
  apart := not_mem_of_mem_splitOn text
  some_piece := text.splitOn_ne_nil ','

theorem Cuts.splitOn_eq {text : List Char} {pieces : List (List Char)} (h : Cuts text pieces) :
    text.splitOn ',' = pieces := by
  rw [← h.joined]
  exact List.splitOn_intercalate ',' h.apart h.some_piece

/-- The items of a text: its pieces between commas, trimmed. -/
def Itemizes (text : List Char) (items : List (List Char)) : Prop :=
  ∃ pieces, Cuts text pieces ∧ List.Forall₂ Text.Trims pieces items

theorem itemizes_items (text : List Char) : Itemizes text (items text) := by
  refine ⟨text.splitOn ',', cuts_splitOn text, ?_⟩
  exact List.forall₂_map_right_iff.mpr (List.forall₂_same.mpr fun piece _ => Text.trims_trim piece)

theorem Itemizes.items_eq {text : List Char} {items : List (List Char)} (h : Itemizes text items) :
    Listing.items text = items := by
  obtain ⟨pieces, hcuts, htrims⟩ := h
  rw [Listing.items, hcuts.splitOn_eq]
  exact List.forall₂_eq_eq_eq ▸ List.forall₂_map_left_iff.mpr (htrims.imp fun _ _ h => h.trim_eq)

/-- Items that stand for words, each for the one in its place. -/
def StandFor (items : List (List Char)) (words : List Word) : Prop :=
  List.Forall₂ (fun item word => Numeral.StandsFor item word.toInt) items words

/-- The first item that is no numeral of a word, with the number of those before it. -/
structure FirstBad (items : List (List Char)) (bad : BadItem) : Prop where
  here : items[bad.index]? = some bad.token.toList
  misfit : ¬Numeral.Fits bad.token.toList
  before : ∀ item ∈ items.take bad.index, Numeral.Fits item

theorem exists_standFor_iff {items : List (List Char)} :
    (∃ words, StandFor items words) ↔ ∀ item ∈ items, Numeral.Fits item := by
  induction items with
  | nil => exact ⟨fun _ => nofun, fun _ => ⟨[], .nil⟩⟩
  | cons item rest ih =>
    rw [List.forall_mem_cons, ← ih, ← Numeral.exists_read_eq_ok_iff]
    constructor
    · rintro ⟨words, hwords⟩
      cases hwords with
      | cons hitem hrest =>
        exact ⟨⟨_, Numeral.read_eq_ok_iff.mpr hitem⟩, ⟨_, hrest⟩⟩
    · rintro ⟨⟨_, hitem⟩, ⟨_, hrest⟩⟩
      exact ⟨_, .cons (Numeral.read_eq_ok_iff.mp hitem) hrest⟩

theorem firstBad_cons_of_not_fits {item : List Char} (h : ¬Numeral.Fits item)
    {rest : List (List Char)} {bad : BadItem} :
    FirstBad (item :: rest) bad ↔ bad = ⟨0, String.ofList item⟩ := by
  constructor
  · intro hbad
    obtain ⟨index, token⟩ := bad
    cases index with
    | zero =>
      have htoken : item = token.toList := Option.some.inj hbad.here
      rw [htoken, String.ofList_toList]
    | succ before => exact absurd (hbad.before item List.mem_cons_self) h
  · rintro rfl
    refine ⟨?_, ?_, nofun⟩
    · rw [String.toList_ofList]
      rfl
    · rw [String.toList_ofList]
      exact h

theorem firstBad_cons_of_fits {item : List Char} (h : Numeral.Fits item)
    {rest : List (List Char)} {bad : BadItem} :
    FirstBad (item :: rest) bad ↔
      ∃ index, bad.index = index + 1 ∧ FirstBad rest ⟨index, bad.token⟩ := by
  obtain ⟨index, token⟩ := bad
  constructor
  · intro hbad
    cases index with
    | zero =>
      have htoken : item = token.toList := Option.some.inj hbad.here
      exact absurd (htoken ▸ h) hbad.misfit
    | succ index =>
      have hbefore := (List.forall_mem_cons.mp hbad.before).2
      exact ⟨index, rfl, hbad.here, hbad.misfit, hbefore⟩
  · rintro ⟨before, hindex, hbad⟩
    cases hindex
    exact ⟨hbad.here, hbad.misfit, List.forall_mem_cons.mpr ⟨h, hbad.before⟩⟩

/-- Reading the items one after another, from a number on. -/
def readItems (start : Nat) (items : List (List Char)) : Except BadItem (List Word) :=
  (items.zipIdx start).mapM readItem

theorem readItems_cons_of_read {item : List Char} {word : Word}
    (h : Numeral.read item = .ok word) (start : Nat) (rest : List (List Char)) :
    readItems start (item :: rest) = (readItems (start + 1) rest).map (word :: ·) := by
  rw [readItems, List.zipIdx_cons, List.mapM_cons, readItem, h]
  rfl

theorem readItems_cons_of_not_fits {item : List Char} (h : ¬Numeral.Fits item) (start : Nat)
    (rest : List (List Char)) :
    readItems start (item :: rest) = .error ⟨start, String.ofList item⟩ := by
  rw [readItems, List.zipIdx_cons, List.mapM_cons, readItem]
  split
  · next word hread => exact absurd (Numeral.exists_read_eq_ok_iff.mp ⟨word, hread⟩) h
  · rfl

theorem readItems_eq_ok_iff {start : Nat} {items : List (List Char)} {words : List Word} :
    readItems start items = .ok words ↔ StandFor items words := by
  induction items generalizing start words with
  | nil =>
    constructor
    · intro hread
      cases hread
      exact .nil
    · intro hwords
      cases hwords
      rfl
  | cons item rest ih =>
    constructor
    · intro hread
      by_cases hitem : Numeral.Fits item
      · obtain ⟨word, hword⟩ := Numeral.exists_read_eq_ok_iff.mpr hitem
        rw [readItems_cons_of_read hword] at hread
        cases hrest : readItems (start + 1) rest with
        | error bad =>
          rw [hrest] at hread
          cases hread
        | ok others =>
          rw [hrest] at hread
          cases hread
          exact .cons (Numeral.read_eq_ok_iff.mp hword) (ih.mp hrest)
      · rw [readItems_cons_of_not_fits hitem] at hread
        cases hread
    · intro hwords
      cases hwords with
      | cons hword hrest =>
        rw [readItems_cons_of_read (Numeral.read_eq_ok_iff.mpr hword), ih.mpr hrest]
        rfl

theorem readItems_eq_error_iff {start : Nat} {items : List (List Char)} {bad : BadItem} :
    readItems start items = .error bad ↔
      ∃ index, bad.index = start + index ∧ FirstBad items ⟨index, bad.token⟩ := by
  induction items generalizing start with
  | nil =>
    constructor
    · nofun
    · rintro ⟨index, -, hbad⟩
      cases hbad.here
  | cons item rest ih =>
    by_cases hitem : Numeral.Fits item
    · obtain ⟨word, hword⟩ := Numeral.exists_read_eq_ok_iff.mpr hitem
      have hmap : readItems start (item :: rest) = .error bad ↔
          readItems (start + 1) rest = .error bad := by
        rw [readItems_cons_of_read hword]
        cases readItems (start + 1) rest with
        | error other => exact Iff.rfl
        | ok others => exact ⟨nofun, nofun⟩
      rw [hmap, ih]
      constructor
      · rintro ⟨index, hindex, hbad⟩
        exact ⟨index + 1, by omega, (firstBad_cons_of_fits hitem).mpr ⟨index, rfl, hbad⟩⟩
      · rintro ⟨_, hindex, hbad⟩
        obtain ⟨index, rfl, hrest⟩ := (firstBad_cons_of_fits hitem).mp hbad
        exact ⟨index, by omega, hrest⟩
    · rw [readItems_cons_of_not_fits hitem]
      constructor
      · intro hbad
        cases hbad
        exact ⟨0, rfl, (firstBad_cons_of_not_fits hitem).mpr rfl⟩
      · rintro ⟨index, hindex, hfirst⟩
        obtain ⟨number, token⟩ := bad
        cases (firstBad_cons_of_not_fits hitem).mp hfirst
        cases hindex
        rfl

theorem parse_of_trim_eq_nil {text : String} (h : Text.trim text.toList = []) :
    parse text = .ok [] := by
  rw [parse, h]

theorem parse_of_trim_ne_nil {text : String} (h : Text.trim text.toList ≠ []) :
    parse text = readItems 0 (items (Text.trim text.toList)) := by
  rw [parse]
  split
  · next hnil => exact absurd hnil h
  · rfl

/-- A listing is accepted if and only if it follows the grammar, and then each word is what its item
stands for. Otherwise the first item that is no numeral of a word is reported. -/
theorem parse_follows_grammar (text : String) :
    ∃ trimmed items, Text.Trims text.toList trimmed ∧ Itemizes trimmed items ∧
      (trimmed = [] → parse text = .ok []) ∧
      (trimmed ≠ [] →
        ((∃ words, parse text = .ok words) ↔ ∀ item ∈ items, Numeral.Fits item) ∧
        (∀ words, parse text = .ok words ↔ StandFor items words) ∧
        ∀ bad, parse text = .error bad ↔ FirstBad items bad) := by
  refine ⟨Text.trim text.toList, items (Text.trim text.toList), Text.trims_trim _,
    itemizes_items _, parse_of_trim_eq_nil, ?_⟩
  intro hprogram
  have hwords (words : List Word) : parse text = .ok words ↔
      StandFor (items (Text.trim text.toList)) words := by
    rw [parse_of_trim_ne_nil hprogram]
    exact readItems_eq_ok_iff
  refine ⟨?_, hwords, ?_⟩
  · rw [← exists_standFor_iff]
    exact exists_congr hwords
  · intro bad
    rw [parse_of_trim_ne_nil hprogram, readItems_eq_error_iff]
    constructor
    · rintro ⟨index, hindex, hbad⟩
      rw [Nat.zero_add] at hindex
      rw [← hindex] at hbad
      exact hbad
    · intro hbad
      exact ⟨bad.index, (Nat.zero_add _).symm, hbad⟩

/-- The first item is fine, with its sign and its zeros; the second one is not. -/
theorem parse_follows_grammar_mixed :
    ∃ trimmed items, Text.Trims " +007 ,x,\n".toList trimmed ∧ Itemizes trimmed items ∧
      trimmed ≠ [] ∧ FirstBad items ⟨1, "x"⟩ := by
  obtain ⟨trimmed, items, htrims, hitems, -, hprogram⟩ := parse_follows_grammar " +007 ,x,\n"
  have hne : trimmed ≠ [] := by
    rw [← htrims.trim_eq]
    decide
  have hparse : parse " +007 ,x,\n" = .error ⟨1, "x"⟩ := by cbv
  exact ⟨trimmed, items, htrims, hitems, hne, ((hprogram hne).2.2 _).mp hparse⟩

end Listing

end Intcode
