import Intcode.Instruction.Basic

/-!
Fetching reads the instruction at an address. The checks are made in the order of the digits they
need: the packed word, its sign and operation, then for each parameter its mode and its word. Digits
in front of the last mode that the operation needs mean nothing.
-/
namespace Intcode.Instruction

/-- The operation that a packed word names. -/
def opcode? (word : Word) : Option Opcode :=
  if word < 0 then none else Opcode.ofNumber? (word.toInt.toNat % 100)

-- The power below is the one of the naturals alone, also where that of monoids is known.
attribute [local instance (1100)] instPowNat

/-- The mode digit of a parameter, counted from zero, in a packed word. -/
def modeDigit (word : Word) (index : Nat) : Nat := word.toInt.toNat / 10 ^ (2 + index) % 10

def fetchParameter (memory : Memory) (pc word : Word) (index : Nat) : Except Fault Parameter :=
  match Mode.ofDigit? (modeDigit word index) with
  | none => .error (.illegalMode pc word (modeDigit word index))
  | some mode => (memory.read (pc + 1 + Int64.ofNat index)).map (Parameter.mk mode)

def fetchAction (memory : Memory) (pc word : Word) : Opcode → Except Fault Action
  | .combine combination => do
    let left ← fetchParameter memory pc word 0
    let right ← fetchParameter memory pc word 1
    let target ← fetchParameter memory pc word 2
    return .combine combination left right target
  | .input => return .input (← fetchParameter memory pc word 0)
  | .output => return .output (← fetchParameter memory pc word 0)
  | .jump condition => do
    let subject ← fetchParameter memory pc word 0
    let destination ← fetchParameter memory pc word 1
    return .jump condition subject destination
  | .adjustBase => return .adjustBase (← fetchParameter memory pc word 0)
  | .halt => return .halt

def fetch (memory : Memory) (pc : Word) : Except Fault Instruction := do
  let word ← memory.read pc
  match opcode? word with
  | none => .error (.illegalOpcode pc word)
  | some opcode => return ⟨word, ← fetchAction memory pc word opcode⟩

end Intcode.Instruction
