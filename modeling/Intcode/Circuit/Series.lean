import Intcode.Circuit.Basic

/-!
Stages in a row. Each stage is given the signal of the stage before it, runs until it halts, and is
emptied of its output; the last word of that output is its own signal.
-/
namespace Intcode.Circuit

variable {σ : Type} [Store σ]

/-- Runs the stages from the one with the given number on. -/
def runSeriesFrom (budget index : Nat) (signal : Word) :
    Circuit σ → Option (Circuit σ × Except Failure Word)
  | [] => some ([], .ok signal)
  | stage :: rest =>
    match (stage.push signal).run budget with
    | none => none
    | some (stage, .error fault) => some (stage :: rest, .error (.fault fault))
    | some (stage, .ok .halted) =>
      let (outputs, stage) := stage.drain
      match outputs.getLast? with
      | none => some (stage :: rest, .error .noOutput)
      | some signal =>
        (runSeriesFrom budget (index + 1) signal rest).map fun (rest, answer) =>
          (stage :: rest, answer)
    | some (stage, .ok status) => some (stage :: rest, .error (.stageNotHalted index status))

/-- The circuit after the run, with the answer. -/
def runSeries (budget : Nat) (circuit : Circuit σ) (signal : Word) :
    Option (Circuit σ × Except Failure Word) :=
  match circuit with
  | [] => some ([], .error .noStages)
  | stages => runSeriesFrom budget 0 signal stages

end Intcode.Circuit
