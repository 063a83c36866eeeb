import Intcode.Proofs.Store.Access

/-!
The layout of a dense store: how long its vector is and which cells are parked. A write decides on
the layout by the cell alone, so the layout can be followed along the accesses without a look at the
words. Stores of the same layout that hold the same are equal.
-/
namespace Intcode

namespace Access

/-- The cell that the access writes, if it is a write that is done. -/
def cell? : Access → Option Nat
  | read _ => none
  | write address _ => if address < 0 then none else some address.toInt.toNat

/-- The cells that the accesses write, one for each write that is done. -/
def writtenCells (history : List Access) : List Nat := history.filterMap cell?

theorem writtenCells_append (history : List Access) (access : Access) :
    writtenCells (history ++ [access]) = writtenCells history ++ access.cell?.toList := by
  rw [writtenCells, List.filterMap_append]
  cases hcell : access.cell? with
  | none => simp [writtenCells, hcell]
  | some cell => simp [writtenCells, hcell]

theorem cell?_lt {access : Access} {cell : Nat} (h : access.cell? = some cell) : cell < 2 ^ 63 := by
  cases access with
  | read address => cases h
  | write address value =>
    have hmax := address.toInt_lt
    rw [cell?] at h
    split at h
    · cases h
    · cases h
      omega

end Access

namespace Store

variable {σ : Type} [Store σ]

/-- An access either leaves the store alone or is a write that is done. -/
theorem access_cases (store : σ) (request : Access) :
    (request.cell? = none ∧ (access store request).1 = store) ∨
      ∃ cell value, request.cell? = some cell ∧
        (access store request).1 = write store cell value := by
  cases request with
  | read address => exact .inl ⟨rfl, rfl⟩
  | write address value =>
    by_cases hneg : address < 0
    · have hrefused : (Access.write address value).address < 0 := hneg
      rw [access_of_neg store hrefused, Access.cell?, if_pos hneg]
      exact .inl ⟨rfl, rfl⟩
    · rw [access_write store hneg, Access.cell?, if_neg hneg]
      exact .inr ⟨address.toInt.toNat, value, rfl, rfl⟩

/-- The writes with a cell are those that are answered without a fault. -/
theorem isSome_cell?_iff (store : σ) (address value : Word) :
    (Access.write address value).cell?.isSome ↔
      (access store (.write address value)).2 = .ok none := by
  by_cases hneg : address < 0
  · have hrefused : (Access.write address value).address < 0 := hneg
    rw [access_of_neg store hrefused, Access.cell?, if_pos hneg]
    exact ⟨nofun, nofun⟩
  · rw [access_write store hneg, Access.cell?, if_neg hneg]
    exact ⟨fun _ => rfl, fun _ => rfl⟩

/-- Cells that are never written keep what the program has in them. -/
theorem memory_after_of_not_mem [LawfulStore σ] {program : List Word} {history : List Access}
    {cell : Nat} (h : cell ∉ Access.writtenCells history) :
    memory (after (ofList program : σ) history) cell = Memory.ofList program cell := by
  induction history using List.reverseRecOn with
  | nil =>
    change memory (ofList program : σ) cell = _
    rw [LawfulStore.memory_ofList]
  | append_singleton history request ih =>
    rw [Access.writtenCells_append, List.mem_append, not_or] at h
    rw [after_append]
    rcases access_cases (after (ofList program : σ) history) request with
      ⟨_, hsame⟩ | ⟨written, value, hcell, hwrite⟩
    · rw [hsame]
      exact ih h.1
    · have hne : cell ≠ written := by
        rintro rfl
        exact h.2 (by simp [hcell])
      rw [hwrite, LawfulStore.memory_write, Memory.set, if_neg hne]
      exact ih h.1

end Store

namespace Dense

/-- What a write into the cell makes of the layout. -/
inductive Relaid (store : Dense) (cell : Nat) (after : Dense) : Prop
  | inside (hinside : cell < store.vector.size)
      (hsize : after.vector.size = store.vector.size)
      (hparked : ∀ other, other ∈ after.parked ↔ other ∈ store.parked)
  | grown (hbehind : store.vector.size ≤ cell) (hgap : cell - store.vector.size ≤ 2 ^ 20)
      (hsize : after.vector.size = cell + 1)
      (hparked : ∀ other, other ∈ after.parked ↔ other ∈ store.parked ∧ cell < other)
  | parked (hbehind : store.vector.size ≤ cell) (hgap : 2 ^ 20 < cell - store.vector.size)
      (hsize : after.vector.size = store.vector.size)
      (hparked : ∀ other, other ∈ after.parked ↔ other = cell ∨ other ∈ store.parked)

theorem relaid_write (store : Dense) (cell : Nat) (value : Word) :
    store.Relaid cell (store.write cell value) := by
  rw [write]
  split
  · next hinside =>
    refine .inside hinside ?_ fun other => Iff.rfl
    rw [set, Array.size_set]
  split
  · next hinside hgap =>
    have hbehind := Nat.le_of_not_lt hinside
    refine .grown hbehind hgap ?_ ?_
    · rw [set, Array.size_set, size_extend]
      omega
    · intro other
      simp [set, extend, Std.ExtTreeMap.mem_filter]
  · next hinside hgap =>
    refine .parked (Nat.le_of_not_lt hinside) (Nat.lt_of_not_le hgap) rfl ?_
    intro other
    rw [park, Std.ExtTreeMap.mem_insert, Nat.compare_eq_eq, eq_comm]

variable {store after : Dense} {cell : Nat}

/-- A write never makes the vector shorter, and longer at most by the widest gap and one cell. -/
theorem Relaid.size_le (h : store.Relaid cell after) :
    store.vector.size ≤ after.vector.size ∧
      after.vector.size ≤ store.vector.size + (2 ^ 20 + 1) := by
  cases h with
  | inside | grown | parked => omega

theorem Relaid.placed (h : store.Relaid cell after) :
    cell < after.vector.size ∨ cell ∈ after.parked := by
  cases h with
  | inside | grown => exact .inl (by omega)
  | parked _ _ _ hparked => exact .inr ((hparked cell).mpr (.inl rfl))

/-- A cell that has its place in the store has one after every write as well. -/
theorem Relaid.keeps_placed (h : store.Relaid cell after) {other : Nat}
    (hother : other < store.vector.size ∨ other ∈ store.parked) :
    other < after.vector.size ∨ other ∈ after.parked := by
  rcases hother with hinside | hparked
  · exact .inl (Nat.lt_of_lt_of_le hinside h.size_le.1)
  · cases h with
    | inside _ _ hkept => exact .inr ((hkept other).mpr hparked)
    | grown _ _ hsize hkept =>
      by_cases hreached : cell < other
      · exact .inr ((hkept other).mpr ⟨hparked, hreached⟩)
      · exact .inl (by omega)
    | parked _ _ _ hkept => exact .inr ((hkept other).mpr (.inr hparked))

theorem Relaid.mem_parked (h : store.Relaid cell after) {other : Nat}
    (hother : other ∈ after.parked) : other = cell ∨ other ∈ store.parked := by
  cases h with
  | inside _ _ hparked => exact .inr ((hparked other).mp hother)
  | grown _ _ _ hparked => exact .inr ((hparked other).mp hother).1
  | parked _ _ _ hparked => exact (hparked other).mp hother

/-- The layout of a store that was loaded with a program and written in these cells. -/
structure LaidOut (program : List Word) (written : List Nat) (store : Dense) : Prop where
  size_ge : program.length ≤ store.vector.size
  size_le : store.vector.size ≤ program.length + written.length * (2 ^ 20 + 1)
  placed : ∀ cell ∈ written, cell < store.vector.size ∨ cell ∈ store.parked
  written_of_parked : ∀ cell ∈ store.parked, cell ∈ written

variable {program : List Word} {written : List Nat}

theorem laidOut_ofList (program : List Word) : LaidOut program [] (ofList program) where
  size_ge := by simp [ofList]
  size_le := by simp [ofList]
  placed := by simp
  written_of_parked := by simp [ofList]

theorem LaidOut.relaid (h : LaidOut program written store) (hrelaid : store.Relaid cell after) :
    LaidOut program (written ++ [cell]) after where
  size_ge := h.size_ge.trans hrelaid.size_le.1
  size_le := by
    have hbefore := h.size_le
    have hwrite := hrelaid.size_le.2
    have hlength : (written ++ [cell]).length = written.length + 1 := List.length_append
    rw [hlength]
    omega
  placed := by
    intro other hmem
    rcases List.mem_append.mp hmem with hearlier | hnow
    · exact hrelaid.keeps_placed (h.placed other hearlier)
    · cases List.mem_singleton.mp hnow
      exact hrelaid.placed
  written_of_parked := by
    intro other hmem
    rcases hrelaid.mem_parked hmem with rfl | hearlier
    · exact List.mem_append_right _ List.mem_cons_self
    · exact List.mem_append_left _ (h.written_of_parked other hearlier)

/-- The store that has been loaded with the program and gone through the accesses. -/
abbrev reached (program : List Word) (history : List Access) : Dense :=
  Store.after (Store.ofList program) history

theorem laidOut_reached (program : List Word) (history : List Access) :
    LaidOut program (Access.writtenCells history) (reached program history) := by
  induction history using List.reverseRecOn with
  | nil => exact laidOut_ofList program
  | append_singleton history request ih =>
    rw [reached, Store.after_append, Access.writtenCells_append]
    rcases Store.access_cases (reached program history) request with
      ⟨hcell, hsame⟩ | ⟨cell, value, hcell, hwrite⟩
    · rw [hsame, hcell, Option.toList_none, List.append_nil]
      exact ih
    · rw [hwrite, hcell, Option.toList_some]
      exact ih.relaid (relaid_write _ cell value)

/-- The vector does not get shorter on the way. -/
theorem size_reached_mono (program : List Word) (history more : List Access) :
    (reached program history).vector.size ≤ (reached program (history ++ more)).vector.size := by
  induction more using List.reverseRecOn with
  | nil => rw [List.append_nil]
  | append_singleton more request ih =>
    refine ih.trans ?_
    rw [← List.append_assoc]
    unfold reached
    rw [Store.after_append]
    rcases Store.access_cases (reached program (history ++ more)) request with
      ⟨_, hsame⟩ | ⟨cell, value, _, hwrite⟩
    · rw [hsame]
    · rw [hwrite]
      exact (relaid_write _ cell value).size_le.1

/-- The store has no cell that is beyond every address. -/
structure Addressable (store : Dense) : Prop where
  vector : store.vector.size ≤ 2 ^ 63
  parked : ∀ cell ∈ store.parked, cell < 2 ^ 63

theorem Addressable.relaid (h : store.Addressable) (hrelaid : store.Relaid cell after)
    (hcell : cell < 2 ^ 63) : after.Addressable where
  vector := by
    have hbefore := h.vector
    cases hrelaid with
    | inside | grown | parked => omega
  parked := by
    intro other hmem
    rcases hrelaid.mem_parked hmem with rfl | hearlier
    · exact hcell
    · exact h.parked other hearlier

theorem addressable_reached (h : program.length < 2 ^ 60) (history : List Access) :
    (reached program history).Addressable := by
  induction history using List.reverseRecOn with
  | nil =>
    constructor
    · change program.toArray.size ≤ _
      rw [List.size_toArray]
      omega
    · change ∀ cell ∈ (∅ : Std.ExtTreeMap Nat Word), _
      simp
  | append_singleton history request ih =>
    unfold reached
    rw [Store.after_append]
    rcases Store.access_cases (reached program history) request with
      ⟨_, hsame⟩ | ⟨cell, value, hcell, hwrite⟩
    · rw [hsame]
      exact ih
    · rw [hwrite]
      exact ih.relaid (relaid_write _ cell value) (Access.cell?_lt hcell)

theorem getElem?_parked (h : cell ∈ store.parked) :
    store.parked[cell]? = some (store.memory cell) := by
  have hsome := Std.ExtTreeMap.mem_iff_isSome_getElem?.mp h
  obtain ⟨value, hvalue⟩ := Option.isSome_iff_exists.mp hsome
  rw [store.memory_of_le (store.behind cell h), Std.ExtTreeMap.getD_eq_getD_getElem?, hvalue]
  rfl

/-- Stores of the same layout are equal if they hold the same in all cells of that layout. -/
theorem eq_of_memory_eq {other : Dense} (hsize : store.vector.size = other.vector.size)
    (hparked : ∀ cell, cell ∈ store.parked ↔ cell ∈ other.parked)
    (hmemory : ∀ cell, cell < store.vector.size ∨ cell ∈ store.parked →
      store.memory cell = other.memory cell) : store = other := by
  have hvector : store.vector = other.vector := by
    refine Array.ext hsize ?_
    intro cell hinside hinside'
    rw [← memory_of_lt store hinside, ← memory_of_lt other hinside']
    exact hmemory cell (.inl hinside)
  have hcells : store.parked = other.parked := by
    refine Std.ExtTreeMap.ext_getElem? ?_
    intro cell
    by_cases hcell : cell ∈ store.parked
    · rw [getElem?_parked hcell, getElem?_parked ((hparked cell).mp hcell),
        hmemory cell (.inr hcell)]
    · rw [Std.ExtTreeMap.getElem?_eq_none hcell,
        Std.ExtTreeMap.getElem?_eq_none (mt (hparked cell).mpr hcell)]
  obtain ⟨vector, parked, _⟩ := store
  obtain ⟨vector', parked', _⟩ := other
  cases hvector
  cases hcells
  rfl

/-- Reading at every address is enough to tell apart stores of the same layout. -/
theorem Addressable.eq_iff_read_eq {other : Dense} (h : store.Addressable)
    (hsize : store.vector.size = other.vector.size)
    (hparked : ∀ cell, cell ∈ store.parked ↔ cell ∈ other.parked) :
    store = other ↔ ∀ address, Store.read store address = Store.read other address := by
  constructor
  · rintro rfl address
    rfl
  intro hread
  refine eq_of_memory_eq hsize hparked ?_
  intro cell hcell
  have hbound : cell < 2 ^ 63 := by
    rcases hcell with hinside | hmem
    · exact Nat.lt_of_lt_of_le hinside h.vector
    · exact h.parked cell hmem
  have hsame := hread (Int64.ofNat cell)
  rw [Store.read, Store.read, Memory.read, Memory.read, Word.cell_ofNat hbound] at hsame
  exact Except.ok.inj hsame

/-- A cell behind the program that was never written is blank, wherever it lies. -/
theorem memory_reached_of_not_mem {history : List Access} (hbehind : program.length ≤ cell)
    (hcell : cell ∉ Access.writtenCells history) : (reached program history).memory cell = 0 := by
  have hmemory : Store.memory (reached program history) cell = Memory.ofList program cell :=
    Store.memory_after_of_not_mem hcell
  have hzero : Memory.ofList program cell = 0 := by
    rw [Memory.ofList, List.getD_eq_getElem?_getD, List.getElem?_eq_none hbehind]
    rfl
  exact hmemory.trans hzero

/-- The layout of a dense store can be told from the program and the cells that were written. -/
theorem layout_follows_accesses {program : List Word} (hlength : program.length < 2 ^ 60)
    (history : List Access) :
    let store := reached program history
    let written := Access.writtenCells history
    (∀ address value, (Access.write address value).cell?.isSome ↔
      (Store.access store (.write address value)).2 = .ok none) ∧
    (∀ cell ∈ store.parked, store.vector.size ≤ cell) ∧
    (∀ cell ∈ written, (cell < store.vector.size ∨ cell ∈ store.parked) ∧
      ¬(cell < store.vector.size ∧ cell ∈ store.parked)) ∧
    (∀ cell, program.length ≤ cell → cell ∉ written →
      (∀ inside : cell < store.vector.size, store.vector[cell] = 0) ∧
      ∀ value, store.parked[cell]? = some value → value = 0) ∧
    (∀ more, store.vector.size ≤ (reached program (history ++ more)).vector.size) ∧
    (program.length ≤ store.vector.size ∧
      store.vector.size ≤ program.length + written.length * (2 ^ 20 + 1)) ∧
    (∀ address value : Word, ¬address < 0 →
      store.Relaid address.toInt.toNat (reached program (history ++ [.write address value]))) ∧
    ∀ (program' : List Word) (history' : List Access), program'.length < 2 ^ 60 →
      let other := reached program' history'
      store.vector.size = other.vector.size →
      (∀ cell, cell ∈ store.parked ↔ cell ∈ other.parked) →
      (store = other ↔ ∀ address, Store.read store address = Store.read other address) := by
  intro store written
  have hlaid := laidOut_reached program history
  refine ⟨Store.isSome_cell?_iff store, store.behind, ?_, ?_, size_reached_mono program history,
    ⟨hlaid.size_ge, hlaid.size_le⟩, ?_, ?_⟩
  · intro cell hcell
    refine ⟨hlaid.placed cell hcell, ?_⟩
    rintro ⟨hinside, hparked⟩
    exact absurd (store.behind cell hparked) (Nat.not_le.mpr hinside)
  · intro cell hbehind hcell
    have hblank := memory_reached_of_not_mem hbehind hcell
    constructor
    · intro hinside
      rw [← memory_of_lt store hinside]
      exact hblank
    · intro value hvalue
      have hparked : cell ∈ store.parked :=
        Std.ExtTreeMap.mem_iff_isSome_getElem?.mpr (by rw [hvalue]; rfl)
      exact absurd (hlaid.written_of_parked cell hparked) hcell
  · intro address value hsign
    unfold reached
    rw [Store.after_append, Store.access_write _ hsign]
    exact relaid_write store _ value
  · intro program' history' _ other hsize hparked
    exact (addressable_reached hlength history).eq_iff_read_eq hsize hparked

/-- Two cells written in either order, the far one twice in one of them: the layouts are the same,
and so are the stores, as nothing is left of what was overwritten. -/
theorem layout_follows_accesses_far :
    let program : List Word := [3, 4]
    let store := reached program [.write 4000000 5, .write 9 6]
    let other := reached program [.write 9 6, .write 4000000 7, .write 4000000 5]
    program.length < 2 ^ 60 ∧ store.vector.size = other.vector.size ∧
      (∀ cell, cell ∈ store.parked ↔ cell ∈ other.parked) ∧ 4000000 ∈ store.parked ∧
      ∀ address, Store.read store address = Store.read other address := by
  intro program store other
  have hlength : program.length < 2 ^ 60 := by decide
  have hsame : store = other := by decide +kernel
  have hsize : store.vector.size = other.vector.size := by rw [hsame]
  have hparked (cell : Nat) : cell ∈ store.parked ↔ cell ∈ other.parked := by rw [hsame]
  have hlayout := layout_follows_accesses hlength [.write 4000000 5, .write 9 6]
  obtain ⟨_, _, hplaced, _, _, _, _, hequal⟩ := hlayout
  have hread := (hequal program _ hlength hsize hparked).mp hsame
  have hfar : 4000000 ∈ store.parked := by
    rcases (hplaced 4000000 (by decide)).1 with hinside | hfar
    · exact absurd hinside (by decide)
    · exact hfar
  exact ⟨hlength, hsize, hparked, hfar, hread⟩

end Dense

end Intcode
