import Intcode.Fault

/-!
A memory gives the word in each cell; cells are numbered from zero, without end. A store is a value
that represents a memory: it can be loaded with a program and written to, cell by cell. In a lawful
store the represented memory is the program followed by zeros, and a write changes one cell.
-/
namespace Intcode

/-- The cell at an address; there is none at a negative one. -/
def Word.cell (address : Word) : Except Fault Nat :=
  if address < 0 then .error (.negativeAddress address) else .ok address.toInt.toNat

abbrev Memory := Nat → Word

namespace Memory

/-- A program from cell zero on, and zeros after it. -/
def ofList (program : List Word) : Memory := fun cell => program.getD cell 0

def set (memory : Memory) (cell : Nat) (value : Word) : Memory :=
  fun other => if other = cell then value else memory other

def read (memory : Memory) (address : Word) : Except Fault Word := address.cell.map memory

end Memory

class Store (σ : Type) where
  ofList : List Word → σ
  memory : σ → Memory
  write : σ → Nat → Word → σ

class LawfulStore (σ : Type) [Store σ] : Prop where
  memory_ofList (program : List Word) :
    Store.memory (Store.ofList program : σ) = Memory.ofList program
  memory_write (store : σ) (cell : Nat) (value : Word) :
    Store.memory (Store.write store cell value) = (Store.memory store).set cell value

namespace Store

variable {σ : Type} [Store σ]

def read (store : σ) (address : Word) : Except Fault Word := (memory store).read address

def writeAt (store : σ) (address value : Word) : Except Fault σ :=
  address.cell.map fun cell => write store cell value

end Store

end Intcode
