import Intcode.Instruction.Fetch
import Intcode.Processor.Basic

/-!
What one instruction does, as a function of the processor and of what the memory holds: it gives the
processor after the instruction and the cell that has to be written, if there is one. All that can
fail happens here, before anything is changed. Operands are read before a target is looked at, and a
jump reads both of its operands whether or not it is taken.
-/
namespace Intcode

/-- What an instruction leads to. -/
structure Move where
  processor : Processor
  write : Option (Nat × Word)

namespace Processor

/-- The cell that a target parameter refers to. -/
def target (processor : Processor) (instruction : Instruction) (parameter : Parameter) :
    Except Fault Nat :=
  match parameter.address? processor.base with
  | none => .error (.immediateTarget processor.pc instruction.word)
  | some address => address.cell

/-- The processor past an instruction that does not jump. -/
def advance (processor : Processor) (instruction : Instruction) : Processor :=
  { processor with pc := processor.pc + Int64.ofNat instruction.length, status := .ready }

def execute (processor : Processor) (memory : Memory) (instruction : Instruction) :
    Except Fault Move :=
  let next := processor.advance instruction
  match instruction.action with
  | .combine combination left right target => do
    let a ← left.value processor.base memory
    let b ← right.value processor.base memory
    let cell ← processor.target instruction target
    return ⟨next, some (cell, combination.apply a b)⟩
  | .input target =>
    match processor.input with
    | [] => return ⟨{ processor with status := .awaitingInput }, none⟩
    | value :: rest => do
      let cell ← processor.target instruction target
      return ⟨{ next with input := rest }, some (cell, value)⟩
  | .output source => do
    let value ← source.value processor.base memory
    return ⟨{ next with output := processor.output ++ [value], status := .afterOutput }, none⟩
  | .jump condition subject destination => do
    let a ← subject.value processor.base memory
    let b ← destination.value processor.base memory
    return ⟨if condition.holds a then { next with pc := b } else next, none⟩
  | .adjustBase offset => do
    let distance ← offset.value processor.base memory
    return ⟨{ next with base := processor.base + distance }, none⟩
  | .halt => return ⟨{ processor with status := .halted }, none⟩

/-- What the next instruction leads to. -/
def move (processor : Processor) (memory : Memory) : Except Fault Move :=
  if processor.status = .halted then .error (.halted processor.pc)
  else do processor.execute memory (← Instruction.fetch memory processor.pc)

end Processor

end Intcode
