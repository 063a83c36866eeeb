import Intcode.Circuit.Basic
import Intcode.Log.Machine

/-!
A plain run: one machine is run on its own and each of its outputs is printed at once. The run
succeeds if the machine halts.
-/
namespace Intcode.Command

structure Solo (σ : Type) where
  machine : Machine σ
  printed : List Word

/-- Why a plain run fails. -/
inductive SoloFailure where
  | failure (cause : Failure)
  /-- The machine waits for an input that is not there. -/
  | starved (processor : Processor)
  deriving DecidableEq, Repr

def SoloFailure.message : SoloFailure → String
  | .failure cause => cause.message
  | .starved processor => s!"program wants more input than was given ({processor.text})"

namespace Solo

variable {σ : Type}

/-- A machine given its inputs, about to start at the entry address if there is one. -/
def start (machine : Machine σ) (entry : Option Word) (inputs : List Word) : Solo σ :=
  ⟨Machine.pushAll { machine with pc := entry.getD machine.pc } inputs, []⟩

variable [Store σ]

/-- Runs to the next output and prints it. -/
def turn (budget : Nat) (solo : Solo σ) :
    Turn (Solo σ) (Option (Solo σ × Except SoloFailure Unit)) :=
  match solo.machine.runToOutput budget with
  | none => .stop none
  | some (machine, result) =>
    let solo := { solo with machine }
    match result with
    | .error fault => .stop (some (solo, .error (.failure (.fault fault))))
    | .ok .afterOutput =>
      match machine.pop? with
      | none => .stop (some (solo, .error (.failure .noOutput)))
      | some (value, machine) => .next ⟨machine, solo.printed ++ [value]⟩
    | .ok .halted => .stop (some (solo, .ok ()))
    | .ok .awaitingInput => .stop (some (solo, .error (.starved machine.toProcessor)))
    | .ok .ready => .next solo

def run (budget : Nat) (solo : Solo σ) : Option (Solo σ × Except SoloFailure Unit) :=
  (iterate (turn budget) budget solo).join

open Log

def events [Parking σ] (threshold : Option Level) (budget : Nat) (solo : Solo σ) : Array Event :=
  journal (turn budget) (fun solo => runToOutputEvents threshold budget solo.machine) budget solo
    #[]

end Solo

end Intcode.Command
