import Intcode.Proofs.Processor.Execution

/-!
Parts of a processor that an instruction does not look at. Of the status only a halt matters, and
words in front of the output or behind the input make no difference to an instruction that does not
wait: it leaves them where they are.
-/
namespace Intcode

theorem bind_eq_error_iff {ε α β : Type} {first : Except ε α} {rest : α → Except ε β} {e : ε} :
    first >>= rest = .error e ↔
      first = .error e ∨ ∃ a, first = .ok a ∧ rest a = .error e := by
  cases first <;> simp [bind, Except.bind]

namespace Processor

/-- The processor with its status forgotten, but for whether it has halted. -/
def rested (processor : Processor) : Processor :=
  { processor with status := if processor.status = .halted then .halted else .ready }

/-- The processor with words in front of its output and behind its input. -/
def framed (processor : Processor) (earlier later : List Word) : Processor :=
  { processor with input := processor.input ++ later, output := earlier ++ processor.output }

theorem status_rested (processor : Processor) :
    processor.rested.status = .halted ↔ processor.status = .halted := by
  unfold rested
  split <;> simp_all

theorem rested_push (processor : Processor) (value : Word) :
    (processor.push value).rested = processor.rested.framed [] [value] := by
  obtain ⟨pc, base, status, input, output⟩ := processor
  cases status <;> rfl

variable {processor : Processor} {memory : Memory} {instruction : Instruction} {move : Move}

theorem move_rested (processor : Processor) (memory : Memory) :
    processor.rested.move memory = processor.move memory := by
  by_cases h : processor.status = .halted
  · have hrested : processor.rested.status = .halted := (status_rested processor).mpr h
    simp only [move, h, hrested, if_true]
    rfl
  · have hrested : ¬processor.rested.status = .halted := mt (status_rested processor).mp h
    simp only [move, h, hrested, if_false]
    rfl

theorem Executes.framed (h : processor.Executes memory instruction move)
    (hgoes : move.processor.status ≠ .awaitingInput) (earlier later : List Word) :
    (processor.framed earlier later).Executes memory instruction
      ⟨move.processor.framed earlier later, move.write⟩ := by
  cases h with
  | combine haction hleft hright htarget => exact .combine haction hleft hright htarget
  | wait => exact absurd rfl hgoes
  | @input target value rest cell haction hinput htarget =>
    have hinput' : (processor.framed earlier later).input = value :: (rest ++ later) := by
      simp only [Processor.framed, hinput, List.cons_append]
    exact .input haction hinput' htarget
  | output haction hsource =>
    have h : (processor.framed earlier later).Executes memory instruction _ :=
      .output haction hsource
    simpa only [Processor.framed, advance, List.append_assoc] using h
  | @jump condition subject destination a b haction hsubject hdestination =>
    have h : (processor.framed earlier later).Executes memory instruction _ :=
      .jump haction hsubject hdestination
    by_cases hholds : condition.holds a <;>
      simpa only [Processor.framed, advance, hholds, if_true, Bool.false_eq_true, if_false] using h
  | adjustBase haction hoffset => exact .adjustBase haction hoffset
  | halt haction => exact .halt haction

/-- An instruction that waits goes on waiting as long as no input comes. -/
theorem Executes.framed_wait (h : processor.Executes memory instruction move)
    (hwaits : move.processor.status = .awaitingInput) (earlier : List Word) :
    (processor.framed earlier []).Executes memory instruction
      ⟨move.processor.framed earlier [], move.write⟩ := by
  cases h with
  | wait haction hinput =>
    have hinput' : (processor.framed earlier []).input = [] := by
      simp only [Processor.framed, hinput, List.append_nil]
    exact .wait haction hinput'
  | @jump condition subject destination a b haction hsubject hdestination =>
    by_cases hholds : condition.holds a <;> simp [hholds, advance] at hwaits
  | _ => cases hwaits

/-- An instruction that fails does so whatever else is in the queues. -/
theorem execute_framed_error {fault : Fault}
    (h : processor.execute memory instruction = .error fault) (earlier later : List Word) :
    (processor.framed earlier later).execute memory instruction = .error fault := by
  cases haction : instruction.action with
  | input target =>
    cases hinput : processor.input with
    | nil => simp only [execute, haction, hinput] at h; cases h
    | cons value rest =>
      have hinput' : (processor.framed earlier later).input = value :: (rest ++ later) := by
        simp only [framed, hinput, List.cons_append]
      simp only [execute, haction, hinput, hinput', bind_eq_error_iff] at h ⊢
      rcases h with h | ⟨cell, hcell, h⟩
      · exact .inl h
      · cases h
  | halt => simp only [execute, haction] at h; cases h
  | _ =>
    simp only [execute, haction, bind_eq_error_iff, pure, Except.pure, reduceCtorEq, and_false,
      exists_false, or_false] at h ⊢
    exact h

theorem move_framed_error {fault : Fault} (h : processor.move memory = .error fault)
    (earlier later : List Word) :
    (processor.framed earlier later).move memory = .error fault := by
  by_cases hstatus : processor.status = .halted
  · rw [move, if_pos hstatus] at h
    rw [move, if_pos (show (processor.framed earlier later).status = .halted from hstatus)]
    exact h
  · rw [move, if_neg hstatus, bind_eq_error_iff] at h
    rw [move, if_neg (show ¬(processor.framed earlier later).status = .halted from hstatus),
      bind_eq_error_iff]
    rcases h with hfetch | ⟨instruction, hfetch, hexecute⟩
    · exact .inl hfetch
    · exact .inr ⟨instruction, hfetch, execute_framed_error hexecute earlier later⟩

end Processor

end Intcode
