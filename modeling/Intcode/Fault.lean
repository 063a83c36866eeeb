import Intcode.Word

/-!
The reasons why a machine cannot carry out its next instruction. Whatever the reason, the machine
stays as it was.
-/
namespace Intcode

inductive Fault where
  | negativeAddress (address : Word)
  /-- The word at `pc` is negative, or its last two digits name no instruction. -/
  | illegalOpcode (pc word : Word)
  | illegalMode (pc word : Word) (digit : Nat)
  /-- The instruction at `pc` would write to an immediate parameter. -/
  | immediateTarget (pc word : Word)
  | halted (pc : Word)
  deriving DecidableEq, Repr

def Fault.message : Fault → String
  | .negativeAddress address => s!"attempted to access negative address {address.text}"
  | .illegalOpcode pc word => s!"illegal opcode in instruction {word.text} at {pc.text}"
  | .illegalMode pc word digit =>
    s!"illegal addressing mode {digit.repr} in instruction {word.text} at {pc.text}"
  | .immediateTarget pc word =>
    s!"instruction {word.text} at {pc.text} writes to an immediate parameter"
  | .halted pc => s!"cannot step a halted engine (stopped at {pc.text})"

end Intcode
