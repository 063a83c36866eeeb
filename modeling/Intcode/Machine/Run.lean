import Intcode.Machine.Basic
import Intcode.Process

/-!
A run repeats steps until the machine halts, wants an input that is not there, or fails; a run to
the next output stops after an output as well. A halted machine is run no further.
-/
namespace Intcode.Machine

variable {σ : Type} [Store σ]

/-- A run ends after a step with one of these statuses. -/
def endsRun : Status → Bool
  | .halted | .awaitingInput => true
  | .ready | .afterOutput => false

def endsRunToOutput : Status → Bool
  | .halted | .awaitingInput | .afterOutput => true
  | .ready => false

@[inline]
def turn (ends : Status → Bool) (machine : Machine σ) :
    Turn (Machine σ) (Machine σ × Except Fault Status) :=
  if machine.status = .halted then .stop (machine, .ok .halted)
  else
    match machine.step with
    | (machine, .ok status) =>
      if ends status then .stop (machine, .ok status) else .next machine
    | (machine, .error fault) => .stop (machine, .error fault)

def run (budget : Nat) (machine : Machine σ) : Option (Machine σ × Except Fault Status) :=
  iterate (turn endsRun) budget machine

def runToOutput (budget : Nat) (machine : Machine σ) : Option (Machine σ × Except Fault Status) :=
  iterate (turn endsRunToOutput) budget machine

end Intcode.Machine
