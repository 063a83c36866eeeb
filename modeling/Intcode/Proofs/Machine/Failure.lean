import Intcode.Proofs.Machine.InPlace
import Intcode.Proofs.Processor.Failure
import Intcode.Store.Dense

/-!
Failures leave no trace. A step that fails changes nothing, whether it is taken as a whole or in
place. A run that fails has therefore taken successful steps only, and it stops where the next step
fails, so running the machine once more fails in the same way.
-/
namespace Intcode.Machine

variable {σ : Type} [Store σ]

/-- Some number of steps, none of which fails. -/
def StepsTo : Machine σ → Machine σ → Prop :=
  Relation.ReflTransGen fun machine next => ∃ status, machine.step = (next, .ok status)

theorem eq_of_step_error {machine after : Machine σ} {fault : Fault}
    (h : machine.step = (after, .error fault)) : after = machine := by
  unfold step at h
  cases hmove : machine.move with
  | error cause =>
    rw [hmove] at h
    cases h
    rfl
  | ok move =>
    rw [hmove] at h
    cases h

theorem step_eq_halted_iff {machine : Machine σ} {pc : Word} :
    machine.step.2 = .error (.halted pc) ↔ machine.status = .halted ∧ pc = machine.pc := by
  have hresult : machine.step.2 = .error (.halted pc) ↔ machine.move = .error (.halted pc) := by
    unfold step
    cases machine.move with
    | error fault =>
      constructor <;>
      · intro h
        cases h
        rfl
    | ok move => exact ⟨nofun, nofun⟩
  exact hresult.trans Processor.move_eq_halted_iff

theorem step_of_turn_next {machine after : Machine σ} {ends : Status → Bool}
    (h : turn ends machine = .next after) : ∃ status, machine.step = (after, .ok status) := by
  obtain ⟨_, status, hstep, _⟩ := turn_eq_next_iff.mp h
  exact ⟨status, hstep⟩

theorem step_of_turn_error {machine after : Machine σ} {ends : Status → Bool} {fault : Fault}
    (h : turn ends machine = .stop (after, .error fault)) :
    machine.status ≠ .halted ∧ machine.step = (after, .error fault) := by
  rcases turn_eq_stop_iff.mp h with ⟨_, heq⟩ | ⟨hstatus, hstep, _⟩
  · cases heq
  · exact ⟨hstatus, hstep⟩

theorem turn_of_step_error {machine : Machine σ} {fault : Fault}
    (hstatus : machine.status ≠ .halted) (hstep : machine.step = (machine, .error fault))
    (ends : Status → Bool) : turn ends machine = .stop (machine, .error fault) := by
  rw [turn, if_neg hstatus, hstep]

/-- A run that fails has taken successful steps up to a machine on which every run fails at once. -/
theorem fails_of_iterate {ends : Status → Bool} {budget : Nat} {machine stopped : Machine σ}
    {fault : Fault} (h : iterate (turn ends) budget machine = some (stopped, .error fault)) :
    machine.StepsTo stopped ∧ stopped.step = (stopped, .error fault) ∧
      ∀ ends' budget', iterate (turn ends') (budget' + 1) stopped =
        some (stopped, .error fault) := by
  have hstart : machine.StepsTo machine := .refl
  refine iterate_induction (fun _ => (#[] : Array Unit)) (fun state _ => machine.StepsTo state)
    (fun answer _ => ∀ fault, answer.2 = .error fault → machine.StepsTo answer.1 ∧
      answer.1.step = (answer.1, .error fault) ∧
        ∀ ends' budget', iterate (turn ends') (budget' + 1) answer.1 =
          some (answer.1, .error fault))
    ?_ ?_ #[] hstart h fault rfl
  · intro state _ after hsteps hturn
    exact hsteps.tail (step_of_turn_next hturn)
  · rintro state _ ⟨stopped, result⟩ hsteps hturn fault rfl
    obtain ⟨hstatus, hstep⟩ := step_of_turn_error hturn
    have hsame := eq_of_step_error hstep
    subst hsame
    refine ⟨hsteps, hstep, ?_⟩
    intro ends' budget'
    rw [iterate, turn_of_step_error hstatus hstep]

/-- A step that fails, as a whole or in place, changes nothing; a machine is reported as halted
exactly when it is; and a run that fails stops before the step that fails. -/
theorem failures_leave_no_trace (machine : Machine σ) :
    (∀ after fault, machine.step = (after, .error fault) → after = machine) ∧
    (∀ after fault, Work.step machine = .error fault after ↔
      machine.step = (after, .error fault)) ∧
    (∀ pc, machine.step.2 = .error (.halted pc) ↔ machine.status = .halted ∧ pc = machine.pc) ∧
    ∀ stopped fault,
      Returns (fun budget => machine.run budget) (stopped, .error fault) ∨
        Returns (fun budget => machine.runToOutput budget) (stopped, .error fault) →
      machine.StepsTo stopped ∧ stopped.step = (stopped, .error fault) ∧
        ∀ budget, stopped.run (budget + 1) = some (stopped, .error fault) ∧
          stopped.runToOutput (budget + 1) = some (stopped, .error fault) := by
  refine ⟨fun _ _ => eq_of_step_error, ?_, fun _ => step_eq_halted_iff, ?_⟩
  · intro after fault
    rw [Work.step_eq, Work.outcome_eq_error_iff]
  · rintro stopped fault (⟨budget, hrun⟩ | ⟨budget, hrun⟩)
    · obtain ⟨hsteps, hstep, hagain⟩ := fails_of_iterate hrun
      exact ⟨hsteps, hstep, fun budget => ⟨hagain endsRun budget, hagain endsRunToOutput budget⟩⟩
    · obtain ⟨hsteps, hstep, hagain⟩ := fails_of_iterate hrun
      exact ⟨hsteps, hstep, fun budget => ⟨hagain endsRun budget, hagain endsRunToOutput budget⟩⟩

/-- An input to a negative address fails after one successful step, with the word still there. -/
theorem failures_leave_no_trace_input :
    let machine : Machine Dense := (load [109, -7, 203, 2, 99]).push 5
    ∃ stopped, Returns (fun budget => machine.run budget)
        (stopped, .error (.negativeAddress (-5))) ∧
      machine.StepsTo stopped ∧ stopped.base = -7 ∧ stopped.input = [5] ∧
      stopped.step = (stopped, .error (.negativeAddress (-5))) ∧
      Work.step stopped = .error (.negativeAddress (-5)) stopped ∧
      stopped.run 1 = some (stopped, .error (.negativeAddress (-5))) := by
  intro machine
  have hanswer : (((load [109, -7, 203, 2, 99] : Machine Dense).push 5).run 2).map
      (fun answer => (answer.1.base, answer.1.input, answer.2)) =
        some (-7, [5], .error (.negativeAddress (-5))) := by cbv
  obtain ⟨⟨stopped, ran⟩, hrun, hanswer⟩ := Option.map_eq_some_iff.mp hanswer
  obtain ⟨hbase, hrest⟩ := Prod.mk.inj hanswer
  obtain ⟨hinput, rfl⟩ := Prod.mk.inj hrest
  obtain ⟨hsteps, hstep, hagain⟩ :=
    (failures_leave_no_trace machine).2.2.2 stopped _ (.inl ⟨2, hrun⟩)
  have hplace := ((failures_leave_no_trace stopped).2.1 stopped _).mpr hstep
  exact ⟨stopped, ⟨2, hrun⟩, hsteps, hbase, hinput, hstep, hplace, (hagain 0).1⟩

end Intcode.Machine
