import Intcode.Store.Basic
import Std.Data.ExtTreeMap

/-!
A sparse store remembers the cells that were written and nothing else, so it suits a program that
writes at far addresses. A cell that was written with zero is remembered too.
-/
namespace Intcode

structure Sparse where
  cells : Std.ExtTreeMap Nat Word
  deriving DecidableEq

namespace Sparse

def memory (store : Sparse) : Memory := fun cell => store.cells.getD cell 0

def write (store : Sparse) (cell : Nat) (value : Word) : Sparse :=
  ⟨store.cells.insert cell value⟩

/-- Writes the words into the cells from the given one on. -/
def writeFrom (store : Sparse) (cell : Nat) : List Word → Sparse
  | [] => store
  | value :: rest => (store.write cell value).writeFrom (cell + 1) rest

def ofList (program : List Word) : Sparse := writeFrom ⟨∅⟩ 0 program

instance : Store Sparse := ⟨ofList, memory, write⟩

theorem memory_write (store : Sparse) (cell : Nat) (value : Word) :
    (store.write cell value).memory = Memory.set store.memory cell value := by
  funext other
  by_cases same : other = cell
  · simp [memory, write, Memory.set, same]
  · simp [memory, write, Memory.set, same, Std.ExtTreeMap.getD_insert, Ne.symm same]

theorem memory_writeFrom (store : Sparse) (cell : Nat) (program : List Word) (other : Nat) :
    (store.writeFrom cell program).memory other =
      if other < cell then store.memory other
      else program.getD (other - cell) (store.memory other) := by
  induction program generalizing store cell with
  | nil => simp [writeFrom]
  | cons value rest ih =>
    rw [writeFrom, ih, memory_write]
    rcases Nat.lt_trichotomy other cell with below | same | beyond
    · have before : other < cell + 1 := by omega
      have distinct : other ≠ cell := by omega
      simp [Memory.set, below, before, distinct]
    · simp [Memory.set, same]
    · have behind : ¬other < cell + 1 := by omega
      have distinct : other ≠ cell := by omega
      have split : other - cell = other - (cell + 1) + 1 := by omega
      simp [Memory.set, behind, distinct, Nat.not_lt_of_gt beyond, split]

theorem memory_ofList (program : List Word) :
    (ofList program).memory = Memory.ofList program := by
  funext cell
  rw [ofList, memory_writeFrom]
  simp [Memory.ofList, memory]

instance : LawfulStore Sparse := ⟨memory_ofList, memory_write⟩

end Sparse

end Intcode
