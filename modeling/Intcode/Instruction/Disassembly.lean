import Intcode.Instruction.Basic

/-!
Disassembly writes an instruction as its mnemonic and its parameters, each in the notation of its
mode, as in `MUL [4], #3, [rb-2]`.
-/
namespace Intcode

def Parameter.text (parameter : Parameter) : String :=
  match parameter.mode with
  | .position => s!"[{parameter.raw.text}]"
  | .immediate => s!"#{parameter.raw.text}"
  | .relative =>
    if parameter.raw < 0 then s!"[rb{parameter.raw.text}]" else s!"[rb+{parameter.raw.text}]"

def Instruction.text (instruction : Instruction) : String :=
  match instruction.parameters with
  | [] => instruction.opcode.mnemonic
  | parameters =>
    instruction.opcode.mnemonic ++ " " ++ ", ".intercalate (parameters.map Parameter.text)

end Intcode
