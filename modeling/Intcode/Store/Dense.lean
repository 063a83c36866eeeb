import Intcode.Store.Basic
import Std.Data.ExtTreeMap

/-!
A dense store keeps its cells in one vector from cell zero on. A write behind the vector's end makes
the vector longer, unless the gap is too wide: then the cell is parked outside the vector. A vector
that grows takes in the parked cells that it reaches, so every parked cell lies behind it, and
growth does not change what the store holds.
-/
namespace Intcode

structure Dense where
  vector : Array Word
  parked : Std.ExtTreeMap Nat Word
  behind : ∀ cell ∈ parked, vector.size ≤ cell
  deriving DecidableEq

namespace Dense

/-- The widest gap between the end of the vector and a cell that the vector grows to reach. -/
def maxGap : Nat := 1048576

def ofList (program : List Word) : Dense := ⟨program.toArray, ∅, by simp⟩

def memory (store : Dense) : Memory := fun cell =>
  if inside : cell < store.vector.size then store.vector[cell] else store.parked.getD cell 0

/-- Whether a write of this cell is parked. -/
def parks (store : Dense) (cell : Nat) : Bool :=
  store.vector.size ≤ cell && maxGap < cell - store.vector.size

def set (store : Dense) (cell : Nat) (value : Word) (inside : cell < store.vector.size) : Dense :=
  ⟨store.vector.set cell value, store.parked, by simpa using store.behind⟩

/-- What the store holds from the end of the vector up to the given size. -/
def gap (store : Dense) (size : Nat) : Array Word :=
  Array.ofFn fun i : Fin (size - store.vector.size) => store.parked.getD (store.vector.size + i) 0

/-- The store with a vector of the given size, if that is more than it has. -/
def extend (store : Dense) (size : Nat) : Dense :=
  ⟨store.vector ++ store.gap size, store.parked.filter fun cell _ => size ≤ cell, by
    intro cell member
    obtain ⟨parked, reached⟩ := Std.ExtTreeMap.mem_filter.mp member
    have := store.behind cell parked
    simp only [Std.ExtTreeMap.getKey_eq, decide_eq_true_eq] at reached
    simp only [gap, Array.size_append, Array.size_ofFn]
    omega⟩

def park (store : Dense) (cell : Nat) (value : Word) (outside : store.vector.size ≤ cell) : Dense :=
  ⟨store.vector, store.parked.insert cell value, by
    intro other member
    rcases Std.ExtTreeMap.mem_insert.mp member with same | old
    · have : cell = other := by simpa using same
      omega
    · exact store.behind other old⟩

theorem size_extend (store : Dense) (size : Nat) :
    (store.extend size).vector.size = max store.vector.size size := by
  simp only [extend, gap, Array.size_append, Array.size_ofFn]
  omega

def write (store : Dense) (cell : Nat) (value : Word) : Dense :=
  if inside : cell < store.vector.size then store.set cell value inside
  else if cell - store.vector.size ≤ maxGap then
    (store.extend (cell + 1)).set cell value (by rw [size_extend]; omega)
  else store.park cell value (by omega)

instance : Store Dense := ⟨ofList, memory, write⟩

theorem memory_ofList (program : List Word) : (ofList program).memory = Memory.ofList program := by
  funext cell
  by_cases inside : cell < program.length <;> simp [memory, ofList, Memory.ofList, inside]

theorem memory_set (store : Dense) (cell : Nat) (value : Word) (inside : cell < store.vector.size) :
    (store.set cell value inside).memory = Memory.set store.memory cell value := by
  funext other
  by_cases same : other = cell
  · simp [memory, set, Memory.set, same, inside]
  · simp [memory, set, Memory.set, same, Array.getElem_set, Ne.symm same]

theorem memory_of_lt (store : Dense) {cell : Nat} (inside : cell < store.vector.size) :
    store.memory cell = store.vector[cell] := by
  rw [memory, dif_pos inside]

theorem memory_of_le (store : Dense) {cell : Nat} (outside : store.vector.size ≤ cell) :
    store.memory cell = store.parked.getD cell 0 := by
  rw [memory, dif_neg (Nat.not_lt.mpr outside)]

theorem memory_extend (store : Dense) (size : Nat) : (store.extend size).memory = store.memory := by
  funext cell
  have total := store.size_extend size
  by_cases old : cell < store.vector.size
  · rw [memory_of_lt _ (by omega), memory_of_lt _ old]
    exact Array.getElem_append_left old
  have outside := Nat.le_of_not_lt old
  rw [store.memory_of_le outside]
  by_cases new : cell < size
  · have exact : store.vector.size + (cell - store.vector.size) = cell := by omega
    rw [memory_of_lt _ (by omega)]
    simp only [extend, gap, Array.getElem_append_right outside, Array.getElem_ofFn, exact]
  · rw [memory_of_le _ (by omega), extend, Std.ExtTreeMap.getD_filter',
      Std.ExtTreeMap.getD_eq_getD_getElem?]
    cases store.parked[cell]? with
    | none => rfl
    | some value => simp [Option.filter, Nat.le_of_not_lt new]

theorem memory_park (store : Dense) (cell : Nat) (value : Word)
    (outside : store.vector.size ≤ cell) :
    (store.park cell value outside).memory = Memory.set store.memory cell value := by
  funext other
  by_cases same : other = cell
  · have : ¬cell < store.vector.size := by omega
    simp [memory, park, Memory.set, same, this]
  · simp [memory, park, Memory.set, same, Std.ExtTreeMap.getD_insert, Ne.symm same]

theorem memory_write (store : Dense) (cell : Nat) (value : Word) :
    (store.write cell value).memory = Memory.set store.memory cell value := by
  rw [write]
  split
  · exact store.memory_set cell value _
  split
  · rw [memory_set, memory_extend]
  · exact store.memory_park cell value _

instance : LawfulStore Dense := ⟨memory_ofList, memory_write⟩

end Dense

end Intcode
