import Intcode.Proofs.Machine.Output

/-!
Rounds. A run to the next output is one round, and a run goes from round to round until one ends in
something else than an output: either both come to the same end or neither comes to one. Words in
front of the output go through a run unchanged, and so do words behind the input, unless the run
ends in waiting.
-/
namespace Intcode.Machine

variable {σ : Type} [Store σ]

section Queues

variable {σ : Type} {machine : Machine σ} {words : List Word}

theorem framed_drain (h : machine.output = words) :
    machine.drain.2.framed words [] = machine := by
  simp only [drain, framed, Processor.framed, List.append_nil, ← h]

theorem drain_of_empty (h : machine.output = []) : machine.drain.2 = machine := by
  rw [drain, ← h]

theorem drain_framed (machine : Machine σ) (words : List Word) :
    (machine.framed words []).drain.2 = machine.drain.2 := by
  simp only [drain, framed, Processor.framed, List.append_nil]

end Queues

section Framing

variable {machine stopped last : Machine σ} {ends : Status → Bool} {result : Except Fault Status}
  {budget : Nat}

theorem step_framed (machine : Machine σ) (earlier : List Word) {later : List Word}
    (hlater : machine.step.2 = .ok .awaitingInput → later = []) :
    (machine.framed earlier later).step =
      (machine.step.1.framed earlier later, machine.step.2) := by
  cases hmove : machine.move with
  | error fault =>
    have hmove' : (machine.framed earlier later).move = .error fault :=
      Processor.move_framed_error hmove earlier later
    rw [step, hmove', step, hmove]
  | ok move =>
    obtain ⟨hstatus, instruction, hfetch, hexecutes⟩ := Processor.executes_of_move hmove
    have hresult : machine.step.2 = .ok move.processor.status := by rw [step, hmove]
    have hframed : (machine.framed earlier later).Executes machine.memory instruction
        ⟨move.processor.framed earlier later, move.write⟩ := by
      by_cases hwaits : move.processor.status = .awaitingInput
      · cases hlater (hresult.trans (congrArg Except.ok hwaits))
        exact hexecutes.framed_wait hwaits earlier
      · exact hexecutes.framed hwaits earlier later
    have hmove' : (machine.framed earlier later).move =
        .ok ⟨move.processor.framed earlier later, move.write⟩ := hframed.move_eq hstatus hfetch
    rw [step, hmove', step, hmove]
    exact congrArg (·, _) (machine.perform_framed move earlier later)

theorem turn_framed_next {after : Machine σ} (hends : ends .awaitingInput)
    (h : turn ends machine = .next after) (earlier later : List Word) :
    turn ends (machine.framed earlier later) = .next (after.framed earlier later) := by
  obtain ⟨hstatus, status, hstep, hon⟩ := turn_eq_next_iff.mp h
  have hgoes : machine.step.2 = .ok .awaitingInput → later = [] := by
    intro hwaits
    rw [hstep] at hwaits
    cases hwaits
    exact absurd hends hon
  refine turn_eq_next_iff.mpr ⟨hstatus, status, ?_, hon⟩
  rw [machine.step_framed earlier hgoes, hstep]

theorem turn_framed_stop (h : turn ends machine = .stop (stopped, result)) (earlier : List Word)
    {later : List Word} (hlater : result = .ok .awaitingInput → later = []) :
    turn ends (machine.framed earlier later) = .stop (stopped.framed earlier later, result) := by
  rw [turn_eq_stop_iff] at h ⊢
  rcases h with ⟨hstatus, heq⟩ | ⟨hstatus, hstep, hends⟩
  · cases heq
    exact .inl ⟨hstatus, rfl⟩
  · refine .inr ⟨hstatus, ?_, hends⟩
    have hgoes : machine.step.2 = .ok .awaitingInput → later = [] := by
      rw [hstep]
      exact hlater
    rw [machine.step_framed earlier hgoes, hstep]

/-- A run that does not end in waiting is the same with more input. -/
theorem iterate_framed (hends : ends .awaitingInput)
    (h : iterate (turn ends) budget machine = some (stopped, result)) (earlier : List Word)
    {later : List Word} (hlater : result = .ok .awaitingInput → later = []) :
    iterate (turn ends) budget (machine.framed earlier later) =
      some (stopped.framed earlier later, result) := by
  induction budget generalizing machine with
  | zero => cases h
  | succ budget ih =>
    rw [iterate] at h ⊢
    cases hturn : turn ends machine with
    | next after =>
      rw [hturn] at h
      rw [turn_framed_next hends hturn]
      exact ih h
    | stop answer =>
      rw [hturn] at h
      cases h
      rw [turn_framed_stop hturn earlier hlater]

/-- With words in front of the output a run returns only if it does without them. -/
theorem iterate_framed_iff (hends : ends .awaitingInput) (earlier : List Word) :
    iterate (turn ends) budget (machine.framed earlier []) = some (last, result) ↔
      ∃ stopped, iterate (turn ends) budget machine = some (stopped, result) ∧
        last = stopped.framed earlier [] := by
  constructor
  · intro h
    induction budget generalizing machine with
    | zero => cases h
    | succ budget ih =>
      rw [iterate] at h ⊢
      cases hturn : turn ends machine with
      | next after =>
        rw [turn_framed_next hends hturn] at h
        exact ih h
      | stop answer =>
        rw [turn_framed_stop hturn earlier fun _ => rfl] at h
        cases h
        exact ⟨_, rfl, rfl⟩
  · intro h
    obtain ⟨stopped, hrun, rfl⟩ := h
    exact iterate_framed hends hrun earlier fun _ => rfl

end Framing

section Rounds

variable {machine middle stopped : Machine σ} {result : Except Fault Status} {budget : Nat}

/-- One run to the next output after another, the last of which ends without one. -/
inductive Rounds : Machine σ → Machine σ → Except Fault Status → Prop
  | last {machine stopped : Machine σ} {result : Except Fault Status}
      (hround : Returns (fun budget => machine.runToOutput budget) (stopped, result))
      (hresult : result ≠ .ok .afterOutput) : Rounds machine stopped result
  | more {machine middle stopped : Machine σ} {result : Except Fault Status}
      (hround : Returns (fun budget => machine.runToOutput budget) (middle, .ok .afterOutput))
      (hrest : Rounds middle stopped result) : Rounds machine stopped result

theorem status_of_round {status : Status}
    (h : machine.runToOutput budget = some (stopped, .ok status)) : stopped.status = status := by
  have hruns := runToOutput_runs h
  generalize machine.emitted endsRunToOutput budget = words at hruns
  cases hruns with
  | ended _ hstopped => exact hstopped.status_eq status rfl
  | spoke _ _ _ hstatus hresult =>
    cases hresult
    exact hstatus

theorem Stopped.ne_afterOutput (h : stopped.Stopped result) : result ≠ .ok .afterOutput := by
  intro hresult
  subst hresult
  rcases h.halted_or_waiting with h | h <;> cases h

/-- A round ends with an output, or it puts nothing out. -/
theorem end_of_round (h : machine.runToOutput budget = some (stopped, result)) :
    (stopped.Stopped result ∧ stopped.output = machine.output) ∨
      (result = .ok .afterOutput ∧ ∃ value, stopped.output = machine.output ++ [value]) := by
  have hruns := runToOutput_runs h
  generalize machine.emitted endsRunToOutput budget = words at hruns
  cases hruns with
  | ended hreaches hstopped => exact .inl ⟨hstopped, hreaches.output_eq⟩
  | @spoke _ value _ _ houtput _ hresult => exact .inr ⟨hresult, value, houtput⟩

/-- What ends a run ends a round, and so does an output. -/
theorem endsRunToOutput_eq (status : Status) :
    endsRunToOutput status = (endsRun status || status == .afterOutput) := by
  cases status <;> rfl

theorem turn_endsRun_of_next {after : Machine σ}
    (h : turn endsRunToOutput machine = .next after) : turn endsRun machine = .next after := by
  obtain ⟨hstatus, status, hstep, hon⟩ := turn_eq_next_iff.mp h
  refine turn_eq_next_iff.mpr ⟨hstatus, status, hstep, ?_⟩
  intro hends
  exact hon (by rw [endsRunToOutput_eq, hends]; rfl)

theorem turn_endsRun_of_output
    (h : turn endsRunToOutput machine = .stop (middle, .ok .afterOutput)) :
    turn endsRun machine = .next middle := by
  rcases turn_eq_stop_iff.mp h with ⟨_, heq⟩ | ⟨hstatus, hstep, _⟩
  · cases heq
  · refine turn_eq_next_iff.mpr ⟨hstatus, _, hstep, ?_⟩
    decide

theorem turn_endsRun_of_stop (h : turn endsRunToOutput machine = .stop (stopped, result))
    (hresult : result ≠ .ok .afterOutput) : turn endsRun machine = .stop (stopped, result) := by
  rw [turn_eq_stop_iff] at h ⊢
  rcases h with hhalted | ⟨hstatus, hstep, hends⟩
  · exact .inl hhalted
  · refine .inr ⟨hstatus, hstep, ?_⟩
    intro status hstatus'
    have hround := hends status hstatus'
    rw [endsRunToOutput_eq, Bool.or_eq_true, beq_iff_eq] at hround
    rcases hround with hrun | hspoke
    · exact hrun
    · exact absurd (hstatus'.trans (congrArg _ hspoke)) hresult

/-- A round that ends without an output is the rest of the run. -/
theorem run_of_last_round (h : machine.runToOutput budget = some (stopped, result))
    (hresult : result ≠ .ok .afterOutput) : machine.run budget = some (stopped, result) := by
  rw [runToOutput] at h
  rw [run]
  induction budget generalizing machine with
  | zero => cases h
  | succ budget ih =>
    rw [iterate] at h ⊢
    cases hturn : turn endsRunToOutput machine with
    | next after =>
      rw [hturn] at h
      rw [turn_endsRun_of_next hturn]
      exact ih h
    | stop answer =>
      rw [hturn] at h
      cases h
      rw [turn_endsRun_of_stop hturn hresult]

/-- After a round that ends with an output, the run goes on from there with less of the budget. -/
theorem exists_run_after_round (h : machine.runToOutput budget = some (middle, .ok .afterOutput)) :
    ∃ used, 0 < used ∧ used ≤ budget ∧ ∀ more, machine.run (used + more) = middle.run more := by
  induction budget generalizing machine with
  | zero => cases h
  | succ budget ih =>
    rw [runToOutput, iterate] at h
    cases hturn : turn endsRunToOutput machine with
    | next after =>
      rw [hturn] at h
      obtain ⟨used, _, hused, hrun⟩ := ih h
      refine ⟨used + 1, by omega, by omega, ?_⟩
      intro more
      rw [Nat.add_right_comm, run, iterate, turn_endsRun_of_next hturn]
      exact hrun more
    | stop answer =>
      rw [hturn] at h
      cases h
      refine ⟨1, by omega, by omega, ?_⟩
      intro more
      rw [Nat.add_comm, run, iterate, turn_endsRun_of_output hturn]
      rfl

/-- A run that returns has got to the end of its first round. -/
theorem exists_first_round {answer : Machine σ × Except Fault Status}
    (h : machine.run budget = some answer) : ∃ round, machine.runToOutput budget = some round := by
  rw [run] at h
  rw [runToOutput]
  induction budget generalizing machine with
  | zero => cases h
  | succ budget ih =>
    rw [iterate] at h ⊢
    cases hturn : turn endsRunToOutput machine with
    | next after =>
      rw [turn_endsRun_of_next hturn] at h
      exact ih h
    | stop round => exact ⟨round, rfl⟩

/-- A run goes on from the end of its first round if that has put out a word. -/
theorem first_round_of_run (h : machine.run budget = some (stopped, result)) :
    machine.runToOutput budget = some (stopped, result) ∧ result ≠ .ok .afterOutput ∧
      stopped.output = machine.output ∨
    ∃ middle value rest, machine.runToOutput budget = some (middle, .ok .afterOutput) ∧
      middle.output = machine.output ++ [value] ∧ rest < budget ∧
      middle.run rest = some (stopped, result) := by
  obtain ⟨⟨middle, ended⟩, hround⟩ := exists_first_round h
  rcases end_of_round hround with ⟨hstopped, houtput⟩ | ⟨rfl, value, houtput⟩
  · cases h.symm.trans (run_of_last_round hround hstopped.ne_afterOutput)
    exact .inl ⟨hround, hstopped.ne_afterOutput, houtput⟩
  · obtain ⟨used, hpos, hused, hrun⟩ := exists_run_after_round hround
    have hrest := hrun (budget - used)
    rw [Nat.add_sub_cancel' hused, h] at hrest
    have hless : budget - used < budget := by omega
    exact .inr ⟨middle, value, budget - used, hround, houtput, hless, hrest.symm⟩

theorem rounds_of_run (h : machine.run budget = some (stopped, result)) :
    machine.Rounds stopped result := by
  induction budget using Nat.strong_induction_on generalizing machine with
  | h budget ih =>
    rcases first_round_of_run h with ⟨hround, hresult, _⟩ |
      ⟨middle, value, rest, hround, _, hrest, hrun⟩
    · exact .last ⟨budget, hround⟩ hresult
    · exact .more ⟨budget, hround⟩ (ih rest hrest hrun)

/-- Going from round to round comes to the same end as one run. -/
theorem rounds_iff_run : machine.Rounds stopped result ↔
    Returns (fun budget => machine.run budget) (stopped, result) := by
  constructor
  · intro h
    induction h with
    | last hround hresult =>
      obtain ⟨budget, hround⟩ := hround
      exact ⟨budget, run_of_last_round hround hresult⟩
    | more hround _ ih =>
      obtain ⟨budget, hround⟩ := hround
      obtain ⟨used, _, _, hrun⟩ := exists_run_after_round hround
      obtain ⟨rest, hrest⟩ := ih
      exact ⟨used + rest, (hrun rest).trans hrest⟩
  · intro h
    obtain ⟨budget, hrun⟩ := h
    exact rounds_of_run hrun

end Rounds

end Intcode.Machine
