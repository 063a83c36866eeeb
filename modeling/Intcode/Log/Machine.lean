import Intcode.Log.Event
import Intcode.Store.Sparse

/-!
The events of a machine's steps and runs, as functions of the machine before them.
-/
namespace Intcode

/-- A store that may set a written cell aside, which is worth an event. -/
class Parking (σ : Type) where
  parks : σ → Nat → Bool

instance : Parking Dense := ⟨Dense.parks⟩

instance : Parking Sparse := ⟨fun _ _ => false⟩

namespace Log

variable {σ : Type} [Parking σ]

def writeEvents (store : σ) (cell : Nat) : Array Event :=
  if Parking.parks store cell then #[.parked cell] else #[]

def patchEvents (machine : Machine σ) (address : Word) : Array Event :=
  match address.cell with
  | .ok cell => writeEvents machine.store cell
  | .error _ => #[]

def pushEvents (machine : Machine σ) (value : Word) : Array Event :=
  if machine.status = .awaitingInput then #[.inputArrived value machine.pc] else #[]

def moveEvents (machine : Machine σ) (move : Move) : Array Event :=
  match move.processor.status with
  | .awaitingInput => #[.waiting machine.pc]
  | .halted => #[.halted machine.pc]
  | .ready | .afterOutput =>
    match move.write with
    | none => #[]
    | some (cell, _) => writeEvents machine.store cell

variable [Store σ]

/-- A step has its instruction fetched before it can fail for any other reason. -/
def stepEvents (machine : Machine σ) : Array Event :=
  if machine.status = .halted then #[]
  else
    match machine.fetch with
    | .error _ => #[]
    | .ok instruction =>
      #[.fetched machine.toProcessor instruction] ++
        match machine.execute machine.memory instruction with
        | .error _ => #[]
        | .ok move => moveEvents machine move

def runEvents (threshold : Option Level) (budget : Nat) (machine : Machine σ) : Array Event :=
  journal (Machine.turn Machine.endsRun) (fun machine => keep threshold (stepEvents machine))
    budget machine #[]

def runToOutputEvents (threshold : Option Level) (budget : Nat) (machine : Machine σ) :
    Array Event :=
  journal (Machine.turn Machine.endsRunToOutput)
    (fun machine => keep threshold (stepEvents machine)) budget machine #[]

end Log

end Intcode
