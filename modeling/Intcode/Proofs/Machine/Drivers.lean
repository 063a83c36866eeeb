import Intcode.Proofs.Machine.Rounds
import Intcode.Store.Dense

/-!
The two ways of running a machine. Going from output to output, as often as there is one, comes to
the same end as one run that does not stop at outputs, and each of the shorter runs puts out one
word if it ends with an output and none if it ends otherwise. A machine that has been run to its end
stays as it is when it is run once more, and gives the same result again.
-/
namespace Intcode.Machine

variable {σ : Type} [Store σ] {machine stopped : Machine σ} {result : Except Fault Status}

theorem Stopped.run_eq (h : machine.Stopped result) (budget : Nat) :
    machine.run (budget + 1) = some (machine, result) := by
  rw [run, iterate, h.turn_eq rfl]

/-- What a run to the next output has put out can be told from its result. -/
theorem output_of_round
    (h : Returns (fun budget => machine.runToOutput budget) (stopped, result)) :
    (result = .ok .afterOutput → ∃ value, stopped.output = machine.output ++ [value]) ∧
      (result ≠ .ok .afterOutput → stopped.output = machine.output) := by
  obtain ⟨budget, hround⟩ := h
  rcases end_of_round hround with ⟨hstopped, houtput⟩ | ⟨hresult, hvalue⟩
  · exact ⟨fun hresult => absurd hresult hstopped.ne_afterOutput, fun _ => houtput⟩
  · exact ⟨fun _ => hvalue, fun hnot => absurd hresult hnot⟩

/-- Going from output to output returns if and only if a run does. -/
theorem exists_rounds_iff : (∃ stopped result, machine.Rounds stopped result) ↔
    ∃ answer, Returns (fun budget => machine.run budget) answer := by
  constructor
  · rintro ⟨stopped, result, hrounds⟩
    exact ⟨(stopped, result), rounds_iff_run.mp hrounds⟩
  · rintro ⟨⟨stopped, result⟩, hrun⟩
    exact ⟨stopped, result, rounds_iff_run.mpr hrun⟩

/-- Runs to the next output put out one word or none, taken together they are one run, and a second
run changes nothing. -/
theorem drivers_agree (machine : Machine σ) :
    (∀ stopped result, Returns (fun budget => machine.runToOutput budget) (stopped, result) →
      (result = .ok .afterOutput → ∃ value, stopped.output = machine.output ++ [value]) ∧
        (result ≠ .ok .afterOutput → stopped.output = machine.output)) ∧
    (∀ stopped result, machine.Rounds stopped result ↔
      Returns (fun budget => machine.run budget) (stopped, result)) ∧
    ((∃ stopped result, machine.Rounds stopped result) ↔
      ∃ answer, Returns (fun budget => machine.run budget) answer) ∧
    ∀ stopped result, Returns (fun budget => machine.run budget) (stopped, result) →
      ∀ budget, stopped.run (budget + 1) = some (stopped, result) := by
  refine ⟨fun _ _ => output_of_round, fun _ _ => rounds_iff_run, exists_rounds_iff, ?_⟩
  rintro stopped result ⟨budget, hrun⟩
  exact (run_stopped hrun).2.run_eq

/-- A machine that puts out one word and then waits, with another word in its queue from before. -/
theorem drivers_agree_waiting :
    let machine : Machine Dense := { load [104, 7, 3, 0, 99] with output := [5] }
    ∃ spoken stopped : Machine Dense,
      Returns (fun budget => machine.runToOutput budget) (spoken, .ok .afterOutput) ∧
      (∃ value, spoken.output = machine.output ++ [value]) ∧
      Returns (fun budget => machine.run budget) (stopped, .ok .awaitingInput) ∧
      machine.Rounds stopped (.ok .awaitingInput) ∧
      stopped.run 1 = some (stopped, .ok .awaitingInput) := by
  intro machine
  have hround : (machine.runToOutput 1).map Prod.snd = some (.ok .afterOutput) := by cbv
  have hrun : (machine.run 2).map Prod.snd = some (.ok .awaitingInput) := by cbv
  obtain ⟨⟨spoken, _⟩, hspoken, rfl⟩ := Option.map_eq_some_iff.mp hround
  obtain ⟨⟨stopped, _⟩, hstopped, rfl⟩ := Option.map_eq_some_iff.mp hrun
  obtain ⟨hone, hrounds, _, hagain⟩ := drivers_agree machine
  exact ⟨spoken, stopped, ⟨1, hspoken⟩, (hone _ _ ⟨1, hspoken⟩).1 rfl, ⟨2, hstopped⟩,
    (hrounds _ _).mpr ⟨2, hstopped⟩, hagain _ _ ⟨2, hstopped⟩ 0⟩

end Intcode.Machine
