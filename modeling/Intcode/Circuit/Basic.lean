import Intcode.Machine.Run
import Intcode.Store.Dense

/-!
A circuit is a list of machines, its stages. Each stage has a store and queues of its own, and the
circuit only moves words from the output of one stage to the input of the next.
-/
namespace Intcode

abbrev Circuit (σ : Type) := List (Machine σ)

/-- How the stages of a circuit are connected. -/
inductive Wiring where
  /-- In a row: each stage runs once to its end and hands on its last output. -/
  | series
  /-- In a ring: stages take turns until the last of them halts. -/
  | loop
  deriving DecidableEq, Repr

/-- Why a circuit has no answer. -/
inductive Failure where
  | fault (fault : Fault)
  | stageNotHalted (stage : Nat) (status : Status)
  /-- No stage can go on; the stage is the one visited last. -/
  | deadlock (stage : Nat)
  | noOutput
  | noStages
  deriving DecidableEq, Repr

def Failure.message : Failure → String
  | .fault cause => cause.message
  | .stageNotHalted stage status =>
    s!"pipeline stage {stage.repr} stopped with status {status.text} instead of halting"
  | .deadlock stage =>
    s!"pipeline deadlocked: every stage is waiting for input (last visited stage {stage.repr})"
  | .noOutput => "no output is pending"
  | .noStages => "pipeline has no stages"

/-- One copy of the program for each phase, with the phase as its first input. -/
def Circuit.ofPhases (program phases : List Word) : Circuit Dense :=
  let stage : Machine Dense := Machine.load program
  phases.map stage.push

end Intcode
