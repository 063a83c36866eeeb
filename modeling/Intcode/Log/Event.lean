import Intcode.Circuit.Basic
import Intcode.Instruction.Disassembly
import Intcode.Log.Record

/-!
Events are what machines and circuits have to tell of their runs.
-/
namespace Intcode.Log

inductive Event where
  /-- The next instruction was fetched and is about to be executed. -/
  | fetched (processor : Processor) (instruction : Instruction)
  | inputArrived (value pc : Word)
  | waiting (pc : Word)
  | halted (pc : Word)
  /-- A dense store set a cell aside. -/
  | parked (cell : Nat)
  /-- A stage of a series halted with this signal. -/
  | produced (stage : Nat) (value : Word)
  /-- A stage of a loop is about to give a word to the next one. -/
  | handedOn (stage next : Nat) (value : Word)
  | stuck (stage : Nat)
  deriving DecidableEq, Repr

namespace Event

def level : Event → Level
  | fetched .. => .trace
  | inputArrived .. | waiting _ | halted _ | parked _ | produced .. | handedOn .. => .debug
  | stuck _ => .warn

def source : Event → String
  | fetched .. | inputArrived .. | waiting _ | halted _ => "intcode::vm"
  | parked _ => "intcode::memory"
  | produced .. | handedOn .. | stuck _ => "intcode::pipeline"

def message : Event → String
  | fetched processor instruction => processor.text ++ ": " ++ instruction.text
  | inputArrived value pc => s!"input {value.text} arrived, resuming at {pc.text}"
  | waiting pc => s!"waiting for input at {pc.text}"
  | halted pc => s!"halted at {pc.text}"
  | parked cell => s!"parking far write to {cell.repr} outside the vector"
  | produced stage value => s!"stage {stage.repr} produced {value.text}"
  | handedOn stage next value => s!"stage {stage.repr} -> stage {next.repr}: {value.text}"
  | stuck stage => s!"no stage can make progress; giving up at stage {stage.repr}"

def record (event : Event) : Record := ⟨event.level, event.source, event.message⟩

end Event

def keep (threshold : Option Level) (events : Array Event) : Array Event :=
  events.filter fun event => admits threshold event.level

end Intcode.Log
