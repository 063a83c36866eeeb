import Intcode.Processor.Execute

/-!
Memories that cannot be told apart by reading. A processor sees a memory only through the words read
at addresses, so on two memories that agree it moves alike.
-/
namespace Intcode

namespace Memory

def Agrees (memory other : Memory) : Prop := ∀ address, memory.read address = other.read address

variable {memory other : Memory}

theorem Agrees.read_eq (h : memory.Agrees other) : memory.read = other.read := funext h

theorem Agrees.set (h : memory.Agrees other) (cell : Nat) (value : Word) :
    (memory.set cell value).Agrees (other.set cell value) := by
  intro address
  have hread := h address
  simp only [Memory.read] at hread ⊢
  cases hcell : address.cell with
  | error fault => rfl
  | ok read =>
    rw [hcell] at hread
    have hword : memory read = other read := Except.ok.inj hread
    simp only [Except.map, Memory.set, hword]

theorem set_comm {cell other : Nat} (h : cell ≠ other) (memory : Memory) (value word : Word) :
    (memory.set cell value).set other word = (memory.set other word).set cell value := by
  funext read
  simp only [Memory.set]
  by_cases hcell : read = cell
  · rw [if_neg (hcell ▸ h), if_pos hcell, if_pos hcell]
  · rw [if_neg hcell, if_neg hcell]

theorem ofList_append_zeros (program : List Word) (zeros : Nat) :
    Memory.ofList (program ++ List.replicate zeros 0) = Memory.ofList program := by
  funext cell
  simp only [Memory.ofList, List.getD_eq_getElem?_getD]
  by_cases hinside : cell < program.length
  · rw [List.getElem?_append_left hinside]
  · have houtside : program.length ≤ cell := Nat.le_of_not_lt hinside
    rw [List.getElem?_append_right houtside, List.getElem?_eq_none houtside,
      List.getElem?_replicate]
    split <;> rfl

end Memory

variable {memory other : Memory}

theorem Parameter.value_congr (h : memory.Agrees other) (parameter : Parameter) (base : Word) :
    parameter.value base memory = parameter.value base other := by
  simp only [Parameter.value, h.read_eq]

namespace Instruction

theorem fetchParameter_congr (h : memory.Agrees other) (pc word : Word) (index : Nat) :
    fetchParameter memory pc word index = fetchParameter other pc word index := by
  simp only [fetchParameter, h.read_eq]

theorem fetch_congr (h : memory.Agrees other) (pc : Word) : fetch memory pc = fetch other pc := by
  have haction (word : Word) (opcode : Opcode) :
      fetchAction memory pc word opcode = fetchAction other pc word opcode := by
    cases opcode <;> simp only [fetchAction, fetchParameter_congr h]
  simp only [fetch, h.read_eq, haction]

end Instruction

namespace Processor

theorem execute_congr (h : memory.Agrees other) (processor : Processor)
    (instruction : Instruction) :
    processor.execute memory instruction = processor.execute other instruction := by
  cases haction : instruction.action <;>
    simp only [execute, haction, Parameter.value_congr h]

theorem move_congr (h : memory.Agrees other) (processor : Processor) :
    processor.move memory = processor.move other := by
  simp only [move, Instruction.fetch_congr h, execute_congr h]

end Processor

end Intcode
