import Intcode.Word

/-!
A processor is all of a machine but its store: two registers, a status, and a queue at each end. The
front of a list is the front of the queue.
-/
namespace Intcode

inductive Status where
  | ready
  | halted
  /-- An input instruction found its queue empty; it is tried again once an input has arrived. -/
  | awaitingInput
  /-- The last instruction put a word into the output queue. -/
  | afterOutput
  deriving DecidableEq, Repr

def Status.text : Status → String
  | .ready => "Ready"
  | .halted => "Halted"
  | .awaitingInput => "AwaitingInput"
  | .afterOutput => "AfterOutput"

structure Processor where
  pc : Word
  /-- The relative base. -/
  base : Word
  status : Status
  input : List Word
  output : List Word
  deriving DecidableEq, Repr

namespace Processor

def initial : Processor := ⟨0, 0, .ready, [], []⟩

def push (processor : Processor) (value : Word) : Processor :=
  { processor with
    input := processor.input ++ [value]
    status := if processor.status = .awaitingInput then .ready else processor.status }

/-- Takes the oldest output. -/
def pop? (processor : Processor) : Option (Word × Processor) :=
  match processor.output with
  | [] => none
  | value :: rest => some (value, { processor with output := rest })

def queueText (queue : List Word) : String := "[" ++ ", ".intercalate (queue.map Word.text) ++ "]"

/-- The whole processor on one line, as in `PC:2 RB:5 IN:[4, 6] OUT:[] Ready`. -/
def text (processor : Processor) : String :=
  "PC:" ++ processor.pc.text ++ " RB:" ++ processor.base.text ++ " IN:" ++ queueText processor.input
    ++ " OUT:" ++ queueText processor.output ++ " " ++ processor.status.text

end Processor

end Intcode
