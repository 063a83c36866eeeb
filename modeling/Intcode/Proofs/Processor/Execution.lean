import Intcode.Processor.Execute

/-!
What an instruction that succeeds does, one case for each operation; an input instruction has two,
as its queue may be empty.
-/
namespace Intcode

theorem bind_eq_ok_iff {ε α β : Type} {first : Except ε α} {rest : α → Except ε β} {b : β} :
    first >>= rest = .ok b ↔ ∃ a, first = .ok a ∧ rest a = .ok b := by
  cases first <;> simp [bind, Except.bind]

namespace Processor

/-- The instruction leads to the move. -/
inductive Executes (processor : Processor) (memory : Memory) (instruction : Instruction) :
    Move → Prop
  | combine {combination : Combination} {left right target : Parameter} {a b : Word} {cell : Nat}
      (haction : instruction.action = .combine combination left right target)
      (hleft : left.value processor.base memory = .ok a)
      (hright : right.value processor.base memory = .ok b)
      (htarget : processor.target instruction target = .ok cell) :
      Executes processor memory instruction
        ⟨processor.advance instruction, some (cell, combination.apply a b)⟩
  | wait {target : Parameter} (haction : instruction.action = .input target)
      (hinput : processor.input = []) :
      Executes processor memory instruction ⟨{ processor with status := .awaitingInput }, none⟩
  | input {target : Parameter} {value : Word} {rest : List Word} {cell : Nat}
      (haction : instruction.action = .input target) (hinput : processor.input = value :: rest)
      (htarget : processor.target instruction target = .ok cell) :
      Executes processor memory instruction
        ⟨{ processor.advance instruction with input := rest }, some (cell, value)⟩
  | output {source : Parameter} {value : Word} (haction : instruction.action = .output source)
      (hsource : source.value processor.base memory = .ok value) :
      Executes processor memory instruction
        ⟨{ processor.advance instruction with
            output := processor.output ++ [value], status := .afterOutput }, none⟩
  | jump {condition : Condition} {subject destination : Parameter} {a b : Word}
      (haction : instruction.action = .jump condition subject destination)
      (hsubject : subject.value processor.base memory = .ok a)
      (hdestination : destination.value processor.base memory = .ok b) :
      Executes processor memory instruction
        ⟨if condition.holds a then { processor.advance instruction with pc := b }
          else processor.advance instruction, none⟩
  | adjustBase {offset : Parameter} {distance : Word}
      (haction : instruction.action = .adjustBase offset)
      (hoffset : offset.value processor.base memory = .ok distance) :
      Executes processor memory instruction
        ⟨{ processor.advance instruction with base := processor.base + distance }, none⟩
  | halt (haction : instruction.action = .halt) :
      Executes processor memory instruction ⟨{ processor with status := .halted }, none⟩

variable {processor : Processor} {memory : Memory} {instruction : Instruction} {move : Move}

theorem executes_of_execute (h : processor.execute memory instruction = .ok move) :
    processor.Executes memory instruction move := by
  cases haction : instruction.action with
  | combine combination left right target =>
    simp only [execute, haction, bind_eq_ok_iff] at h
    obtain ⟨a, hleft, b, hright, cell, htarget, h⟩ := h
    cases h
    exact .combine haction hleft hright htarget
  | input target =>
    cases hinput : processor.input with
    | nil =>
      simp only [execute, haction, hinput] at h
      cases h
      exact hinput ▸ .wait haction hinput
    | cons value rest =>
      simp only [execute, haction, hinput, bind_eq_ok_iff] at h
      obtain ⟨cell, htarget, h⟩ := h
      cases h
      exact .input haction hinput htarget
  | output source =>
    simp only [execute, haction, bind_eq_ok_iff] at h
    obtain ⟨value, hsource, h⟩ := h
    cases h
    exact .output haction hsource
  | jump condition subject destination =>
    simp only [execute, haction, bind_eq_ok_iff] at h
    obtain ⟨a, hsubject, b, hdestination, h⟩ := h
    cases h
    exact .jump haction hsubject hdestination
  | adjustBase offset =>
    simp only [execute, haction, bind_eq_ok_iff] at h
    obtain ⟨distance, hoffset, h⟩ := h
    cases h
    exact .adjustBase haction hoffset
  | halt =>
    simp only [execute, haction] at h
    cases h
    exact .halt haction

theorem Executes.execute_eq (h : processor.Executes memory instruction move) :
    processor.execute memory instruction = .ok move := by
  cases h with
  | combine haction hleft hright htarget =>
    simp only [execute, haction, hleft, hright, htarget]
    rfl
  | wait haction hinput =>
    simp only [execute, haction, hinput]
    rfl
  | input haction hinput htarget =>
    simp only [execute, haction, hinput, htarget]
    rfl
  | output haction hsource =>
    simp only [execute, haction, hsource]
    rfl
  | jump haction hsubject hdestination =>
    simp only [execute, haction, hsubject, hdestination]
    rfl
  | adjustBase haction hoffset =>
    simp only [execute, haction, hoffset]
    rfl
  | halt haction =>
    simp only [execute, haction]
    rfl

/-- The rules say exactly what the processor does when nothing fails. -/
theorem execute_eq_ok_iff :
    processor.execute memory instruction = .ok move ↔
      processor.Executes memory instruction move :=
  ⟨executes_of_execute, Executes.execute_eq⟩

theorem executes_of_move (h : processor.move memory = .ok move) :
    processor.status ≠ .halted ∧ ∃ instruction,
      Instruction.fetch memory processor.pc = .ok instruction ∧
        processor.Executes memory instruction move := by
  unfold Processor.move at h
  split at h
  · cases h
  · next hstatus =>
    obtain ⟨instruction, hfetch, hexecute⟩ := bind_eq_ok_iff.mp h
    exact ⟨hstatus, instruction, hfetch, executes_of_execute hexecute⟩

theorem Executes.move_eq (h : processor.Executes memory instruction move)
    (hstatus : processor.status ≠ .halted)
    (hfetch : Instruction.fetch memory processor.pc = .ok instruction) :
    processor.move memory = .ok move := by
  rw [Processor.move, if_neg hstatus, hfetch]
  exact h.execute_eq

end Processor

end Intcode
