import Mathlib
import Intcode.Proofs.Hazard.Basic
import Intcode.Proofs.Store.Access

/-!
Writes to stores with their hazards. A dense store can be written to without the knowledge of where
its parked cells lie: whether the vector has to grow is asked before its length is taken from the
cell, and the vector is as long as it has to be before any parked cell is taken in. So no write
comes to a hazard, and it leaves what a write with that knowledge leaves.
-/
namespace Intcode

/-- A form of stores in which a write may come to a hazard. -/
class RiskyStore (ρ : Type) where
  ofList : List Word → ρ
  memory : ρ → Memory
  write : ρ → Nat → Word → Risky ρ

/-- A store in its other form is the same memory, and its writes come to no hazard. -/
structure SafeForm {σ ρ : Type} [Store σ] [RiskyStore ρ] (form : σ → ρ) : Prop where
  ofList : ∀ program, RiskyStore.ofList program = form (Store.ofList program)
  memory : ∀ store, RiskyStore.memory (form store) = Store.memory store
  write : ∀ store {cell : Nat} (_ : cell < 2 ^ 63) value,
    RiskyStore.write (form store) cell value = .ok (form (Store.write store cell value))

def Risky.writeAt {ρ : Type} [RiskyStore ρ] (store : ρ) (address value : Word) : Attempt ρ := do
  let cell ← .safe address.cell
  .risk (RiskyStore.write store cell value)

/-- An address has no cell that is too large for a write. -/
theorem SafeForm.writeAt {σ ρ : Type} [Store σ] [RiskyStore ρ] {form : σ → ρ} (h : SafeForm form)
    (store : σ) (address value : Word) :
    Risky.writeAt (form store) address value =
      .safe ((Store.writeAt store address value).map form) := by
  unfold Risky.writeAt Store.writeAt
  cases hcell : address.cell with
  | error fault => rfl
  | ok cell =>
    change Attempt.risk (RiskyStore.write (form store) cell value) = _
    rw [h.write store (Word.cell_lt hcell)]
    rfl

/-- A dense store of which nothing is known. -/
@[ext]
structure Bare where
  vector : Array Word
  parked : Std.ExtTreeMap Nat Word

namespace Bare

def ofList (program : List Word) : Bare := ⟨program.toArray, ∅⟩

def memory (store : Bare) : Memory := fun cell =>
  store.vector[cell]?.getD (store.parked.getD cell 0)

/-- The store with a vector of the given size, filled up with zeros. -/
def resize (store : Bare) (size : Nat) : Bare :=
  { store with vector := Array.ofFn fun cell : Fin size => store.vector.getD cell 0 }

def put (store : Bare) (cell : Nat) (value : Word) : Risky Bare := do
  return { store with vector := ← Risky.put store.vector cell value }

/-- Moves a cell into the vector if it is parked. -/
def takeIn (store : Bare) (cell : Nat) : Risky Bare :=
  match store.parked[cell]? with
  | none => .ok store
  | some value => { store with parked := store.parked.erase cell }.put cell value

/-- The cells that are parked at the given one or before it. -/
def reached (store : Bare) (cell : Nat) : List Nat :=
  store.parked.keys.filter fun other => other ≤ cell

/-- The store with a vector that has the cell, unless the gap before it is too wide. -/
def grow? (store : Bare) (cell : Nat) : Risky (Option Bare) := do
  let gap ← Risky.sub cell store.vector.size
  if Dense.maxGap < gap then return none
  let _ ← Risky.add gap 1
  let size ← Risky.add cell 1
  return some (← (store.reached cell).foldlM takeIn (store.resize size))

def write (store : Bare) (cell : Nat) (value : Word) : Risky Bare :=
  if cell < store.vector.size then store.put cell value
  else do
    match ← store.grow? cell with
    | some grown => grown.put cell value
    | none => return { store with parked := store.parked.insert cell value }

instance : RiskyStore Bare := ⟨ofList, memory, write⟩

/-- The store after these parked cells have been moved into the vector. -/
structure TakenIn (store : Bare) (cells : List Nat) (after : Bare) : Prop where
  size_eq : after.vector.size = store.vector.size
  parked : ∀ cell : Nat, after.parked[cell]? = if cell ∈ cells then none else store.parked[cell]?
  vector : ∀ cell : Nat, after.vector[cell]? =
    if cell ∈ cells then store.parked[cell]?.or store.vector[cell]? else store.vector[cell]?

theorem put_eq (store : Bare) {cell : Nat} (h : cell < store.vector.size) (value : Word) :
    store.put cell value = .ok { store with vector := store.vector.set cell value } := by
  rw [put, Risky.put_of_lt h]
  rfl

/-- One cell is taken in without a hazard if the vector has it. -/
theorem exists_takeIn (store : Bare) {cell : Nat} (h : cell < store.vector.size) :
    ∃ after, store.takeIn cell = .ok after ∧ store.TakenIn [cell] after := by
  unfold takeIn
  cases hparked : store.parked[cell]? with
  | none =>
    refine ⟨store, rfl, rfl, fun other => ?_, fun other => ?_⟩
    · by_cases hother : other = cell
      · simp [hother, hparked]
      · simp [hother]
    · by_cases hother : other = cell
      · simp [hother, hparked]
      · simp [hother]
  | some value =>
    let rest : Bare := { store with parked := store.parked.erase cell }
    have hput : rest.put cell value = .ok { rest with vector := store.vector.set cell value } :=
      rest.put_eq h value
    refine ⟨_, hput, Array.size_set h, fun other => ?_, fun other => ?_⟩
    · by_cases hother : other = cell
      · simp [rest, hother]
      · simp [rest, hother, Std.ExtTreeMap.getElem?_erase, Ne.symm hother]
    · by_cases hother : other = cell
      · simp [hother, hparked, h]
      · simp [hother, Ne.symm hother]

/-- So are all of them, one after another. -/
theorem exists_takenIn (cells : List Nat) (store : Bare)
    (h : ∀ cell ∈ cells, cell < store.vector.size) :
    ∃ after, cells.foldlM takeIn store = .ok after ∧ store.TakenIn cells after := by
  induction cells generalizing store with
  | nil => exact ⟨store, rfl, rfl, fun cell => by simp, fun cell => by simp⟩
  | cons cell rest ih =>
    obtain ⟨next, hnext, hone⟩ := store.exists_takeIn (h cell List.mem_cons_self)
    have hrest : ∀ other ∈ rest, other < next.vector.size := by
      intro other hother
      rw [hone.size_eq]
      exact h other (List.mem_cons_of_mem _ hother)
    obtain ⟨after, hafter, hall⟩ := ih next hrest
    refine ⟨after, ?_, hall.size_eq.trans hone.size_eq, fun other => ?_, fun other => ?_⟩
    · rw [List.foldlM_cons, hnext, Risky.ok_bind, hafter]
    · rw [hall.parked, hone.parked]
      by_cases hother : other = cell <;> by_cases hmem : other ∈ rest <;> simp [hother, hmem]
    · rw [hall.vector, hone.vector, hone.parked]
      by_cases hmem : other ∈ rest
      · by_cases hother : other = cell <;> simp [hother, hmem]
      · by_cases hother : other = cell <;> simp [hother, hmem]

theorem mem_reached_iff {store : Bare} {cell other : Nat} :
    other ∈ store.reached cell ↔ other ∈ store.parked ∧ other ≤ cell := by
  rw [reached, List.mem_filter, Std.ExtTreeMap.mem_keys, decide_eq_true_eq]

theorem size_resize (store : Bare) (size : Nat) : (store.resize size).vector.size = size :=
  Array.size_ofFn

theorem getElem?_resize (store : Bare) (size cell : Nat) :
    (store.resize size).vector[cell]? =
      if cell < size then some (store.vector.getD cell 0) else none := by
  rw [resize, Array.getElem?_ofFn]
  rfl

end Bare

namespace Dense

def bare (store : Dense) : Bare := ⟨store.vector, store.parked⟩

theorem vector_bare (store : Dense) : store.bare.vector = store.vector := rfl

theorem parked_bare (store : Dense) : store.bare.parked = store.parked := rfl

theorem mem_reached_bare (store : Dense) {cell other : Nat} :
    other ∈ store.bare.reached cell ↔ other ∈ store.parked ∧ other ≤ cell := Bare.mem_reached_iff

theorem getElem?_extend (store : Dense) {size cell : Nat} (h : store.vector.size ≤ cell) :
    (store.extend size).vector[cell]? =
      if cell < size then some (store.parked.getD cell 0) else none := by
  have hexact : store.vector.size + (cell - store.vector.size) = cell := by omega
  rw [extend, Array.getElem?_append_right h, gap, Array.getElem?_ofFn]
  by_cases hcell : cell < size
  · have hgap : cell - store.vector.size < size - store.vector.size := by omega
    rw [dif_pos hgap, if_pos hcell, hexact]
  · have hgap : ¬cell - store.vector.size < size - store.vector.size := by omega
    rw [dif_neg hgap, if_neg hcell]

section TakenIn

variable {store : Dense} {cell : Nat} {after : Bare}

theorem not_mem_reached {other : Nat} (h : other ∉ store.parked ∨ cell < other) :
    other ∉ store.bare.reached cell := by
  rw [mem_reached_bare, not_and, Nat.not_le]
  intro hparked
  exact h.resolve_left (not_not_intro hparked)

theorem vector_takenIn (h : store.vector.size ≤ cell)
    (hafter : (store.bare.resize (cell + 1)).TakenIn (store.bare.reached cell) after) :
    after.vector = (store.extend (cell + 1)).vector := by
  refine Array.ext_getElem? fun other => ?_
  rw [hafter.vector, Bare.getElem?_resize, vector_bare]
  by_cases hinside : other < store.vector.size
  · -- No cell of the vector is parked as well, so none is overwritten by a parked one.
    have hparked : other ∉ store.parked := fun hparked =>
      (store.behind other hparked).not_gt hinside
    have hsize : other < cell + 1 := by omega
    rw [if_neg (not_mem_reached (.inl hparked)), if_pos hsize, extend,
      Array.getElem?_append_left hinside]
    simp [hinside]
  rw [store.getElem?_extend (Nat.not_lt.mp hinside)]
  by_cases hsize : other < cell + 1
  · rw [if_pos hsize, if_pos hsize, Std.ExtTreeMap.getD_eq_getD_getElem?]
    by_cases hparked : other ∈ store.parked
    · have hmem := store.mem_reached_bare.mpr ⟨hparked, Nat.lt_succ_iff.mp hsize⟩
      rw [if_pos hmem]
      change store.parked[other]?.or _ = _
      rw [Std.ExtTreeMap.getElem?_eq_some_getElem hparked]
      rfl
    · rw [if_neg (not_mem_reached (.inl hparked)), Std.ExtTreeMap.getElem?_eq_none hparked]
      simp [hinside]
  · rw [if_neg hsize, if_neg hsize, if_neg (not_mem_reached (.inr (by omega)))]

theorem parked_takenIn
    (hafter : (store.bare.resize (cell + 1)).TakenIn (store.bare.reached cell) after) :
    after.parked = (store.extend (cell + 1)).parked := by
  refine Std.ExtTreeMap.ext_getElem? fun other => ?_
  rw [hafter.parked, extend, Std.ExtTreeMap.getElem?_filter']
  change (if _ then none else store.parked[other]?) = _
  by_cases hparked : other ∈ store.parked
  · by_cases hsize : other ≤ cell
    · have hmem := store.mem_reached_bare.mpr ⟨hparked, hsize⟩
      have hbefore : ¬cell + 1 ≤ other := by omega
      rw [if_pos hmem, Std.ExtTreeMap.getElem?_eq_some_getElem hparked]
      simp [hbefore]
    · have hbehind : cell + 1 ≤ other := by omega
      rw [if_neg (not_mem_reached (.inr hbehind)), Std.ExtTreeMap.getElem?_eq_some_getElem hparked]
      simp [hbehind, Option.filter]
  · rw [if_neg (not_mem_reached (.inl hparked)), Std.ExtTreeMap.getElem?_eq_none hparked]
    rfl

end TakenIn

/-- The vector that grows takes in what it would have held if nothing had ever been parked. -/
theorem grow?_bare (store : Dense) {cell : Nat} (h : cell < 2 ^ 63)
    (houtside : store.vector.size ≤ cell) :
    store.bare.grow? cell = .ok
      (if maxGap < cell - store.vector.size then none
        else some (store.extend (cell + 1)).bare) := by
  have hgap : cell - store.vector.size + 1 < 2 ^ 64 := by omega
  have hsize : cell + 1 < 2 ^ 64 := by omega
  rw [Bare.grow?, vector_bare, Risky.sub_of_le houtside, Risky.ok_bind]
  split
  · rfl
  have hinside : ∀ other ∈ store.bare.reached cell,
      other < (store.bare.resize (cell + 1)).vector.size := by
    intro other hother
    rw [Bare.size_resize]
    exact Nat.lt_succ_of_le (Bare.mem_reached_iff.mp hother).2
  obtain ⟨after, hafter, htaken⟩ := Bare.exists_takenIn _ _ hinside
  have hextended : after = (store.extend (cell + 1)).bare :=
    Bare.ext (vector_takenIn houtside htaken) (parked_takenIn htaken)
  rw [Risky.add_of_lt hgap, Risky.add_of_lt hsize, Risky.ok_bind, Risky.ok_bind, hafter,
    Risky.ok_bind, hextended]
  rfl

theorem write_bare (store : Dense) {cell : Nat} (h : cell < 2 ^ 63) (value : Word) :
    store.bare.write cell value = .ok (store.write cell value).bare := by
  rw [Bare.write, write, vector_bare]
  by_cases hinside : cell < store.vector.size
  · rw [if_pos hinside, dif_pos hinside, Bare.put_eq _ hinside]
    rfl
  have houtside := Nat.not_lt.mp hinside
  rw [if_neg hinside, dif_neg hinside, store.grow?_bare h houtside, Risky.ok_bind]
  by_cases hgap : maxGap < cell - store.vector.size
  · rw [if_pos hgap, if_neg (Nat.not_le.mpr hgap)]
    rfl
  · have hgrown : cell < (store.extend (cell + 1)).vector.size := by
      rw [size_extend]
      omega
    rw [if_neg hgap, if_pos (Nat.not_lt.mp hgap)]
    exact Bare.put_eq _ hgrown value

theorem memory_bare (store : Dense) : store.bare.memory = store.memory := by
  funext cell
  rw [Bare.memory, vector_bare, parked_bare]
  by_cases hinside : cell < store.vector.size
  · rw [store.memory_of_lt hinside, Array.getElem?_eq_getElem hinside]
    rfl
  · have houtside := Nat.not_lt.mp hinside
    rw [store.memory_of_le houtside, Array.getElem?_eq_none houtside]
    rfl

theorem safeForm_bare : SafeForm bare := ⟨fun _ => rfl, memory_bare, write_bare⟩

end Dense

namespace Sparse

/-- No write to a sparse store has a condition. -/
instance : RiskyStore Sparse where
  ofList := ofList
  memory := memory
  write store cell value := .ok (store.write cell value)

theorem safeForm_id : SafeForm (id : Sparse → Sparse) :=
  ⟨fun _ => rfl, fun _ => rfl, fun _ _ _ _ => rfl⟩

end Sparse

end Intcode
