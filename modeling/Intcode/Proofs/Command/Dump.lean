import Intcode.Command.Dump
import Intcode.Proofs.Listing.RoundTrip

/-!
Reading dumps. The dump of a dense store begins with a listing of the first cells and goes on with a
line for each parked cell; that of a sparse store has nothing but lines for cells. Neither newlines
nor colons occur in numerals, so the cells are found again as they were written, and where no cell
was written the store has a zero.
-/
namespace Intcode

/-- The memory with these words in these cells, and zeros in all others. -/
def Memory.ofCells (cells : List (Nat × Word)) : Memory := fun cell => (cells.lookup cell).getD 0

theorem Memory.ofCells_eq {cells : List (Nat × Word)} {memory : Memory}
    (hlisted : ∀ cell value, (cell, value) ∈ cells → memory cell = value)
    (hothers : ∀ cell, (∀ value, (cell, value) ∉ cells) → memory cell = 0) :
    Memory.ofCells cells = memory := by
  funext cell
  rw [ofCells]
  cases hlookup : cells.lookup cell with
  | none =>
    have habsent (value : Word) : (cell, value) ∉ cells := by
      intro hmem
      exact absurd (List.lookup_eq_none_iff.mp hlookup _ hmem) (by simp)
    exact (hothers cell habsent).symm
  | some value =>
    obtain ⟨before, after, hcells, _⟩ := List.lookup_eq_some_iff.mp hlookup
    have hmem : (cell, value) ∈ cells := by
      rw [hcells]
      exact List.mem_append_right _ List.mem_cons_self
    exact (hlisted cell value hmem).symm

namespace Command

/-- The lines of a text, each of which ends with a newline. -/
def lines (text : String) : List (List Char) := (text.toList.splitOn '\n').dropLast

/-- Reads a cell from a line such as `27: -5`. -/
def readCell (line : List Char) : Option (Nat × Word) :=
  match line.splitOn ':' with
  | [address, ' ' :: value] =>
    match (String.ofList address).toNat?, Numeral.read value with
    | some cell, .ok word => some (cell, word)
    | _, _ => none
  | _ => none

/-- The cells in the dump of a sparse store. -/
def readSparse (dump : String) : Option (List (Nat × Word)) := (lines dump).mapM readCell

/-- The cells in the dump of a dense store: those of the listing from zero on, then the others. -/
def readDense (dump : String) : Option (List (Nat × Word)) :=
  match lines dump with
  | [] => none
  | listing :: rest =>
    match Listing.parse (String.ofList listing), rest.mapM readCell with
    | .ok words, some cells => some (words.zipIdx.map Prod.swap ++ cells)
    | _, _ => none

section Lines

theorem lines_append {line : String} (h : '\n' ∉ line.toList) (rest : String) :
    lines (line ++ "\n" ++ rest) = line.toList :: lines rest := by
  have hnewline : "\n".toList = ['\n'] := rfl
  rw [lines, String.toList_append, String.toList_append, hnewline, List.append_assoc,
    List.singleton_append, List.splitOn_append_cons_self_of_not_mem h,
    List.dropLast_cons_of_ne_nil (List.splitOn_ne_nil _ _)]
  rfl

/-- The text of a cell without the end of the line. -/
def cellText (cell : Nat × Word) : String := cell.1.repr ++ ": " ++ cell.2.text

theorem not_mem_repr {c : Char} (h : ¬c.isDigit) (n : Nat) : c ∉ n.repr.toList := by
  intro hmem
  rw [Nat.toList_repr] at hmem
  exact h ((Numeral.isDigits_toDigits n).2 c hmem)

theorem not_mem_text {c : Char} (h : ¬Numeral.IsMark c) (word : Word) : c ∉ word.text.toList :=
  fun hmem => h ((Numeral.standsFor_text word).isMark c hmem)

theorem toList_cellText (cell : Nat × Word) :
    (cellText cell).toList = cell.1.repr.toList ++ ':' :: ' ' :: cell.2.text.toList := by
  have hcolon : ": ".toList = [':', ' '] := rfl
  rw [cellText, String.toList_append, String.toList_append, hcolon, List.append_assoc]
  rfl

theorem not_isMark_of_lt {c : Char} (h : c.toNat < '+'.toNat ∨ '9'.toNat < c.toNat) :
    ¬Numeral.IsMark c := by
  intro hmark
  have hbounds := hmark.bounds
  omega

theorem newline_not_mem_cellText (cell : Nat × Word) : '\n' ∉ (cellText cell).toList := by
  rw [toList_cellText, List.mem_append, List.mem_cons, List.mem_cons]
  intro h
  rcases h with hmem | heq | heq | hmem
  · exact not_mem_repr (by decide) cell.1 hmem
  · cases heq
  · cases heq
  · exact not_mem_text (not_isMark_of_lt (by decide)) cell.2 hmem

theorem newline_not_mem_format (words : List Word) : '\n' ∉ (Listing.format words).toList := by
  have hmark : ¬Numeral.IsMark '\n' := not_isMark_of_lt (by decide)
  have hcomma : ",".toList = [','] := rfl
  rw [Listing.format, String.toList_intercalate, List.map_map, hcomma]
  intro h
  rcases Listing.mem_intercalate h with heq | ⟨piece, hpiece, hmem⟩
  · cases heq
  · obtain ⟨word, _, rfl⟩ := List.mem_map.mp hpiece
    exact not_mem_text hmark word hmem

theorem readCell_cellText (cell : Nat × Word) : readCell (cellText cell).toList = some cell := by
  have hvalue : ':' ∉ ' ' :: cell.2.text.toList := by
    intro hmem
    rcases List.mem_cons.mp hmem with heq | hmem
    · cases heq
    · exact not_mem_text (not_isMark_of_lt (by decide)) cell.2 hmem
  have hsplit : (cellText cell).toList.splitOn ':' =
      [cell.1.repr.toList, ' ' :: cell.2.text.toList] := by
    rw [toList_cellText, List.splitOn_append_cons_self_of_not_mem (not_mem_repr (by decide) _),
      List.splitOn_eq_singleton hvalue]
  have haddress : (String.ofList cell.1.repr.toList).toNat? = some cell.1 := by
    rw [String.ofList_toList, Nat.toNat?_repr]
  have hword : Numeral.read cell.2.text.toList = .ok cell.2 :=
    Numeral.read_eq_ok_iff.mpr (Numeral.standsFor_text cell.2)
  simp only [readCell, hsplit, haddress, hword]

theorem readSparse_cellLines (cells : List (Nat × Word)) :
    readSparse (cellLines cells) = some cells := by
  induction cells with
  | nil => rfl
  | cons cell rest ih =>
    have hlines : lines (cellLines (cell :: rest)) =
        (cellText cell).toList :: lines (cellLines rest) := by
      rw [cellLines, List.map_cons, String.join_cons]
      exact lines_append (newline_not_mem_cellText cell) _
    rw [readSparse] at ih ⊢
    rw [hlines, List.mapM_cons, readCell_cellText, ih]
    rfl

theorem readDense_dump (words : List Word) (cells : List (Nat × Word)) :
    readDense (Listing.format words ++ "\n" ++ cellLines cells) =
      some (words.zipIdx.map Prod.swap ++ cells) := by
  have hlines := lines_append (newline_not_mem_format words) (cellLines cells)
  have hcells : (lines (cellLines cells)).mapM readCell = some cells := readSparse_cellLines cells
  have hwords : Listing.parse (String.ofList (Listing.format words).toList) = .ok words := by
    rw [String.ofList_toList, Listing.parse_format]
  simp only [readDense, hlines, hwords, hcells]

end Lines

section Stores

/-- A map lists its cells in ascending order. -/
theorem ascending_toList (cells : Std.ExtTreeMap Nat Word) :
    (cells.toList.map Prod.fst).Pairwise (· < ·) :=
  List.pairwise_map.mpr (cells.ordered_keys_toList.imp Nat.compare_eq_lt.mp)

theorem mem_toList_iff {cells : Std.ExtTreeMap Nat Word} {cell : Nat} {value : Word} :
    (cell, value) ∈ cells.toList ↔ cells[cell]? = some value :=
  Std.ExtTreeMap.mem_toList_iff_getElem?_eq_some

theorem getD_eq_of_mem_toList {cells : Std.ExtTreeMap Nat Word} {cell : Nat} {value : Word}
    (h : (cell, value) ∈ cells.toList) : cells.getD cell 0 = value := by
  rw [Std.ExtTreeMap.getD_eq_getD_getElem?, mem_toList_iff.mp h]
  rfl

theorem getD_eq_zero_of_not_mem_toList {cells : Std.ExtTreeMap Nat Word} {cell : Nat}
    (h : ∀ value, (cell, value) ∉ cells.toList) : cells.getD cell 0 = 0 := by
  rw [Std.ExtTreeMap.getD_eq_getD_getElem?]
  cases hcell : cells[cell]? with
  | none => rfl
  | some value => exact absurd (mem_toList_iff.mpr hcell) (h value)

/-- The dump of a sparse store gives the cells in ascending order, so it gives none twice. -/
theorem exists_readSparse_dump (store : Sparse) :
    ∃ cells, readSparse (Dump.dump store) = some cells ∧
      (cells.map Prod.fst).Pairwise (· < ·) ∧ Memory.ofCells cells = Store.memory store := by
  refine ⟨store.cells.toList, readSparse_cellLines _, ascending_toList _, ?_⟩
  apply Memory.ofCells_eq
  · intro cell value hmem
    exact getD_eq_of_mem_toList hmem
  · intro cell habsent
    exact getD_eq_zero_of_not_mem_toList habsent

theorem mem_vector_cells {words : Array Word} {cell : Nat} {value : Word} :
    (cell, value) ∈ words.toList.zipIdx.map Prod.swap ↔ words[cell]? = some value := by
  rw [List.mem_map]
  constructor
  · intro h
    obtain ⟨⟨word, index⟩, hmem, heq⟩ := h
    cases heq
    rw [← Array.getElem?_toList]
    exact List.mem_zipIdx_iff_getElem?.mp hmem
  · intro hcell
    rw [← Array.getElem?_toList] at hcell
    exact ⟨(value, cell), List.mem_zipIdx_iff_getElem?.mpr hcell, rfl⟩

theorem behind_of_mem_parked {store : Dense} {cell : Nat} {value : Word}
    (h : (cell, value) ∈ store.parked.toList) : store.vector.size ≤ cell := by
  apply store.behind cell
  rw [Std.ExtTreeMap.mem_iff_isSome_getElem?, mem_toList_iff.mp h]
  rfl

/-- In the dump of a dense store no cell is given twice: the parked cells lie behind the vector. -/
theorem exists_readDense_dump (store : Dense) :
    ∃ cells, readDense (Dump.dump store) = some cells ∧
      (cells.map Prod.fst).Nodup ∧ Memory.ofCells cells = Store.memory store := by
  refine ⟨_, readDense_dump _ _, ?_, ?_⟩
  · have hfirst : (store.vector.toList.zipIdx.map Prod.swap).map Prod.fst =
        List.range store.vector.size := by
      rw [List.map_map, List.range_eq_range', ← Array.length_toList]
      exact List.zipIdx_map_snd 0 store.vector.toList
    rw [List.map_append, hfirst]
    refine List.nodup_append.mpr ⟨List.nodup_range, (ascending_toList _).imp Nat.ne_of_lt, ?_⟩
    intro cell hcell other hother
    obtain ⟨⟨parked, value⟩, hmem, rfl⟩ := List.mem_map.mp hother
    have hbehind := behind_of_mem_parked hmem
    have hinside := List.mem_range.mp hcell
    dsimp only
    omega
  · apply Memory.ofCells_eq
    · intro cell value hmem
      rcases List.mem_append.mp hmem with hvector | hparked
      · obtain ⟨hinside, hvalue⟩ := Array.getElem?_eq_some_iff.mp (mem_vector_cells.mp hvector)
        exact (store.memory_of_lt hinside).trans hvalue
      · have houtside := behind_of_mem_parked hparked
        exact (store.memory_of_le houtside).trans (getD_eq_of_mem_toList hparked)
    · intro cell habsent
      have houtside : store.vector.size ≤ cell := by
        by_contra hinside
        have hlisted := Array.getElem?_eq_getElem (Nat.lt_of_not_le hinside)
        exact habsent _ (List.mem_append_left _ (mem_vector_cells.mpr hlisted))
      have hunparked (value : Word) : (cell, value) ∉ store.parked.toList :=
        fun hmem => habsent value (List.mem_append_right _ hmem)
      exact (store.memory_of_le houtside).trans (getD_eq_zero_of_not_mem_toList hunparked)

end Stores

end Command

end Intcode
