import Intcode.Proofs.Processor.Framing

/-!
Faults of instructions. Fetching and executing an instruction can fail for several reasons, but none
of them is that the machine has halted: that is found before anything is fetched, and by nothing
else.
-/
namespace Intcode

/-- The result does not complain that a machine has halted. -/
def Unhalted {α : Type} (result : Except Fault α) : Prop := ∀ pc, result ≠ .error (.halted pc)

namespace Unhalted

variable {α β : Type}

theorem ok (value : α) : Unhalted (.ok value) := nofun

theorem bind {first : Except Fault α} {rest : α → Except Fault β} (hfirst : Unhalted first)
    (hrest : ∀ value, Unhalted (rest value)) : Unhalted (first >>= rest) := by
  intro pc h
  rcases bind_eq_error_iff.mp h with hfault | ⟨value, _, hfault⟩
  · exact hfirst pc hfault
  · exact hrest value pc hfault

theorem map {result : Except Fault α} (h : Unhalted result) (f : α → β) :
    Unhalted (result.map f) := by
  intro pc hmap
  cases result with
  | error fault =>
    cases hmap
    exact h pc rfl
  | ok value => cases hmap

end Unhalted

theorem unhalted_cell (address : Word) : Unhalted address.cell := by
  intro pc
  unfold Word.cell
  split <;> nofun

theorem unhalted_read (memory : Memory) (address : Word) : Unhalted (memory.read address) :=
  (unhalted_cell address).map memory

theorem unhalted_value (parameter : Parameter) (base : Word) (memory : Memory) :
    Unhalted (parameter.value base memory) := by
  unfold Parameter.value
  split
  · exact unhalted_read memory _
  · exact .ok _

namespace Instruction

theorem unhalted_fetchParameter (memory : Memory) (pc word : Word) (index : Nat) :
    Unhalted (fetchParameter memory pc word index) := by
  unfold fetchParameter
  split
  · nofun
  · exact (unhalted_read memory _).map _

theorem unhalted_fetchAction (memory : Memory) (pc word : Word) (opcode : Opcode) :
    Unhalted (fetchAction memory pc word opcode) := by
  have hparameter := unhalted_fetchParameter memory pc word
  cases opcode with
  | combine =>
    exact (hparameter 0).bind fun _ => (hparameter 1).bind fun _ => (hparameter 2).bind fun _ =>
      .ok _
  | jump => exact (hparameter 0).bind fun _ => (hparameter 1).bind fun _ => .ok _
  | input | output | adjustBase => exact (hparameter 0).bind fun _ => .ok _
  | halt => exact .ok _

theorem unhalted_fetch (memory : Memory) (pc : Word) : Unhalted (fetch memory pc) := by
  refine (unhalted_read memory pc).bind fun word => ?_
  split
  · nofun
  · next opcode _ => exact (unhalted_fetchAction memory pc word opcode).bind fun _ => .ok _

end Instruction

namespace Processor

theorem unhalted_target (processor : Processor) (instruction : Instruction)
    (parameter : Parameter) : Unhalted (processor.target instruction parameter) := by
  unfold target
  split
  · nofun
  · exact unhalted_cell _

theorem unhalted_execute (processor : Processor) (memory : Memory) (instruction : Instruction) :
    Unhalted (processor.execute memory instruction) := by
  have hvalue (parameter : Parameter) := unhalted_value parameter processor.base memory
  have htarget := unhalted_target processor instruction
  cases haction : instruction.action with
  | combine =>
    simp only [execute, haction]
    exact (hvalue _).bind fun _ => (hvalue _).bind fun _ => (htarget _).bind fun _ => .ok _
  | input =>
    simp only [execute, haction]
    split
    · exact .ok _
    · exact (htarget _).bind fun _ => .ok _
  | jump =>
    simp only [execute, haction]
    exact (hvalue _).bind fun _ => (hvalue _).bind fun _ => .ok _
  | output | adjustBase =>
    simp only [execute, haction]
    exact (hvalue _).bind fun _ => .ok _
  | halt =>
    simp only [execute, haction]
    exact .ok _

/-- A processor complains that it has halted exactly when it has. -/
theorem move_eq_halted_iff {processor : Processor} {memory : Memory} {pc : Word} :
    processor.move memory = .error (.halted pc) ↔
      processor.status = .halted ∧ pc = processor.pc := by
  by_cases hstatus : processor.status = .halted
  · rw [move, if_pos hstatus]
    constructor
    · intro h
      cases h
      exact ⟨hstatus, rfl⟩
    · rintro ⟨_, rfl⟩
      rfl
  · have hunhalted := (Instruction.unhalted_fetch memory processor.pc).bind fun instruction =>
      unhalted_execute processor memory instruction
    rw [move, if_neg hstatus]
    constructor
    · intro h
      exact absurd h (hunhalted pc)
    · intro h
      exact absurd h.1 hstatus

end Processor

end Intcode
