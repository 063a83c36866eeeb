import Intcode.Listing
import Intcode.Store.Dense
import Intcode.Store.Sparse

/-!
Dumps of a store. A dense store is written as a listing of its vector and a line for each parked
cell, a sparse one as a line for each of its cells.
-/
namespace Intcode.Command

def cellLine (cell : Nat × Word) : String := cell.1.repr ++ ": " ++ cell.2.text ++ "\n"

def cellLines (cells : List (Nat × Word)) : String := String.join (cells.map cellLine)

class Dump (σ : Type) where
  dump : σ → String

instance : Dump Dense :=
  ⟨fun store => Listing.format store.vector.toList ++ "\n" ++ cellLines store.parked.toList⟩

instance : Dump Sparse := ⟨fun store => cellLines store.cells.toList⟩

end Intcode.Command
