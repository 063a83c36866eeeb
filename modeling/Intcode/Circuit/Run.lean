import Intcode.Circuit.Loop
import Intcode.Circuit.Series

/-!
Running a circuit in either wiring, and evaluating a program on its own.
-/
namespace Intcode

def Circuit.run {σ : Type} [Store σ] (budget : Nat) (wiring : Wiring) (circuit : Circuit σ)
    (signal : Word) : Option (Circuit σ × Except Failure Word) :=
  match wiring with
  | .series => circuit.runSeries budget signal
  | .loop => circuit.runLoop budget signal

/-- All that a program puts out for the given inputs, if it halts. -/
def evaluate (budget : Nat) (program inputs : List Word) : Option (Except Failure (List Word)) :=
  let machine : Machine Dense := (Machine.load program).pushAll inputs
  (machine.run budget).map fun
    | (machine, .ok .halted) => .ok machine.output
    | (_, .ok status) => .error (.stageNotHalted 0 status)
    | (_, .error fault) => .error (.fault fault)

end Intcode
