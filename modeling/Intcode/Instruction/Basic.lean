import Intcode.Store.Basic

/-!
Instructions and their parameters. An instruction is packed into one word and followed by one word
for each of its parameters. The last two digits of the packed word name the operation, and the
digits before them, from the right, give the mode of each parameter in turn.
-/
namespace Intcode

inductive Mode where
  /-- The parameter is the address of the value. -/
  | position
  /-- The parameter is the value itself and cannot be written to. -/
  | immediate
  /-- The parameter is the distance from the relative base to the address of the value. -/
  | relative
  deriving DecidableEq, Repr

def Mode.ofDigit? : Nat → Option Mode
  | 0 => some .position
  | 1 => some .immediate
  | 2 => some .relative
  | _ => none

/-- What two operands are combined into. -/
inductive Combination where
  | add
  | multiply
  | lessThan
  | equals
  deriving DecidableEq, Repr

/-- The outcome of a comparison is one or zero. -/
def Combination.apply : Combination → Word → Word → Word
  | .add, a, b => a + b
  | .multiply, a, b => a * b
  | .lessThan, a, b => if a < b then 1 else 0
  | .equals, a, b => if a = b then 1 else 0

inductive Condition where
  | nonzero
  | zero
  deriving DecidableEq, Repr

def Condition.holds : Condition → Word → Bool
  | .nonzero, word => word != 0
  | .zero, word => word == 0

inductive Opcode where
  | combine (combination : Combination)
  | input
  | output
  | jump (condition : Condition)
  | adjustBase
  | halt
  deriving DecidableEq, Repr

namespace Opcode

def ofNumber? : Nat → Option Opcode
  | 1 => some (.combine .add)
  | 2 => some (.combine .multiply)
  | 3 => some .input
  | 4 => some .output
  | 5 => some (.jump .nonzero)
  | 6 => some (.jump .zero)
  | 7 => some (.combine .lessThan)
  | 8 => some (.combine .equals)
  | 9 => some .adjustBase
  | 99 => some .halt
  | _ => none

def mnemonic : Opcode → String
  | combine .add => "ADD"
  | combine .multiply => "MUL"
  | input => "IN"
  | output => "OUT"
  | jump .nonzero => "JNZ"
  | jump .zero => "JZ"
  | combine .lessThan => "LT"
  | combine .equals => "EQ"
  | adjustBase => "ARB"
  | halt => "HLT"

end Opcode

structure Parameter where
  mode : Mode
  raw : Word
  deriving DecidableEq, Repr

namespace Parameter

/-- The address that a parameter refers to, counted from the relative base in relative mode. -/
def address? (parameter : Parameter) (base : Word) : Option Word :=
  match parameter.mode with
  | .position => some parameter.raw
  | .immediate => none
  | .relative => some (base + parameter.raw)

def value (parameter : Parameter) (base : Word) (memory : Memory) : Except Fault Word :=
  match parameter.address? base with
  | some address => memory.read address
  | none => .ok parameter.raw

end Parameter

/-- An operation with its parameters, each named for its part in it. -/
inductive Action where
  | combine (combination : Combination) (left right target : Parameter)
  | input (target : Parameter)
  | output (source : Parameter)
  | jump (condition : Condition) (subject destination : Parameter)
  | adjustBase (offset : Parameter)
  | halt
  deriving DecidableEq, Repr

namespace Action

def opcode : Action → Opcode
  | combine combination .. => .combine combination
  | input _ => .input
  | output _ => .output
  | jump condition .. => .jump condition
  | adjustBase _ => .adjustBase
  | halt => .halt

def parameters : Action → List Parameter
  | combine _ left right target => [left, right, target]
  | input target => [target]
  | output source => [source]
  | jump _ subject destination => [subject, destination]
  | adjustBase offset => [offset]
  | halt => []

end Action

structure Instruction where
  /-- The packed word. -/
  word : Word
  action : Action
  deriving DecidableEq, Repr

namespace Instruction

def opcode (instruction : Instruction) : Opcode := instruction.action.opcode

def parameters (instruction : Instruction) : List Parameter := instruction.action.parameters

/-- The number of words that the instruction takes up. -/
def length (instruction : Instruction) : Nat := 1 + instruction.parameters.length

end Instruction

end Intcode
