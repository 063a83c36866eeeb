import Intcode.Proofs.Machine.Course

/-!
What a machine takes in, step by step. An input instruction stores the front of the input queue and
removes it from there, and nothing else touches the queue. So the words that a run has stored, with
those left in the queue behind them, are the words that were there when it began, however it ended.
-/
namespace Intcode.Machine

variable {σ : Type} [Store σ]

/-- The word that the next step stores, if it carries out an input instruction. -/
def takes (machine : Machine σ) : Array Word :=
  match machine.fetch, machine.move with
  | .ok ⟨_, .input _⟩, .ok ⟨_, some (_, value)⟩ => #[value]
  | _, _ => #[]

/-- The words that a run takes in, oldest first. -/
def taken (ends : Status → Bool) (budget : Nat) (machine : Machine σ) : Array Word :=
  journal (turn ends) takes budget machine #[]

theorem takes_of_error {machine : Machine σ} {fault : Fault} (h : machine.move = .error fault) :
    machine.takes = #[] := by
  rw [takes, h]
  split
  · next hmove => cases hmove
  · rfl

theorem takes_of_action {machine : Machine σ} {instruction : Instruction}
    (hfetch : machine.fetch = .ok instruction)
    (haction : ∀ target, instruction.action ≠ .input target) : machine.takes = #[] := by
  obtain ⟨word, action⟩ := instruction
  rw [takes, hfetch]
  cases action with
  | input target => exact absurd rfl (haction target)
  | _ => rfl

theorem takes_of_input {machine : Machine σ} {instruction : Instruction} {target : Parameter}
    (hfetch : machine.fetch = .ok instruction) (haction : instruction.action = .input target)
    {move : Move} (hmove : machine.move = .ok move) :
    machine.takes = (move.write.map Prod.snd).toArray := by
  obtain ⟨word, action⟩ := instruction
  obtain ⟨processor, write⟩ := move
  have haction' : action = .input target := haction
  rw [takes, hfetch, hmove, haction']
  cases write with
  | none => rfl
  | some write => rfl

/-- A step takes the front of the input queue in, or nothing. -/
theorem takes_append_step (machine : Machine σ) :
    machine.takes.toList ++ machine.step.1.input = machine.input := by
  cases hmove : machine.move with
  | error fault =>
    rw [takes_of_error hmove, step, hmove]
    rfl
  | ok move =>
    obtain ⟨_, instruction, hfetch, hexecutes⟩ := Processor.executes_of_move hmove
    have hstep : machine.step.1.input = move.processor.input :=
      congrArg Processor.input (toProcessor_step hmove)
    rw [hstep]
    have hother (haction : ∀ target, instruction.action ≠ .input target)
        (hinput : move.processor.input = machine.input) :
        machine.takes.toList ++ move.processor.input = machine.input := by
      rw [takes_of_action hfetch haction, hinput]
      rfl
    cases hexecutes with
    | combine haction | output haction | adjustBase haction | halt haction =>
      refine hother ?_ rfl
      intro target hinput
      cases haction.symm.trans hinput
    | @jump condition _ _ a _ haction =>
      refine hother ?_ ?_
      · intro target hinput
        cases haction.symm.trans hinput
      · cases condition.holds a with
        | true => rfl
        | false => rfl
    | wait haction =>
      rw [takes_of_input hfetch haction hmove]
      rfl
    | input haction hinput =>
      rw [takes_of_input hfetch haction hmove, hinput]
      rfl

/-- However a run ends, the words that it has taken in were in front of those that are left. -/
theorem taken_append_input {ends : Status → Bool} {budget : Nat} {machine stopped : Machine σ}
    {result : Except Fault Status}
    (h : iterate (turn ends) budget machine = some (stopped, result)) :
    (machine.taken ends budget).toList ++ stopped.input = machine.input := by
  refine run_keeps takes (fun state taken => taken.toList ++ state.input = machine.input) ?_ #[]
    rfl h
  intro state taken htaken
  rw [Array.toList_append, List.append_assoc, takes_append_step, htaken]

end Intcode.Machine
