import Intcode.Proofs.Machine.Course

/-!
What a machine puts out, step by step. A run to the next output follows the course of the machine in
silence, up to its end or up to a step that puts out one word.
-/
namespace Intcode.Machine

variable {σ : Type}

theorem pop?_of_output {machine : Machine σ} {value : Word} (h : machine.output = [value]) :
    machine.pop? = some (value, { machine with output := [] }) := by
  rw [pop?, Processor.pop?, h]
  rfl

variable [Store σ]

/-- The words that the next step puts out: one for an output instruction, otherwise none. -/
def emits (machine : Machine σ) : Array Word :=
  (machine.step.1.output.drop machine.output.length).toArray

/-- The words that a run puts out, oldest first. -/
def emitted (ends : Status → Bool) (budget : Nat) (machine : Machine σ) : Array Word :=
  journal (turn ends) emits budget machine #[]

theorem emits_eq_empty {machine : Machine σ} (h : machine.step.1.output = machine.output) :
    machine.emits = #[] := by
  rw [emits, h, List.drop_length]

theorem emits_eq_singleton {machine : Machine σ} {value : Word}
    (h : machine.step.1.output = machine.output ++ [value]) : machine.emits = #[value] := by
  rw [emits, h, List.drop_left]

theorem emits_of_course_stop {machine : Machine σ} {result : Except Fault Status}
    (h : machine.course = .stop result) : machine.emits = #[] := by
  apply emits_eq_empty
  cases machine.stepping with
  | halted _ _ hstep | failed _ _ _ hstep | waited _ _ _ hstep => rw [hstep]
  | silent _ _ _ _ hcourse | spoke _ _ _ _ _ hcourse => cases hcourse.symm.trans h

/-- A step leaves what was in the output queue and puts its word behind it. -/
theorem output_step (machine : Machine σ) :
    machine.step.1.output = machine.output ++ machine.emits.toList := by
  have hsilent (h : machine.step.1.output = machine.output) :
      machine.step.1.output = machine.output ++ machine.emits.toList := by
    rw [emits_eq_empty h, h, List.append_nil]
  cases machine.stepping with
  | halted _ _ hstep | failed _ _ _ hstep | waited _ _ _ hstep => exact hsilent (by rw [hstep])
  | silent _ after _ houtput _ hstep => exact hsilent (by rw [hstep]; exact houtput)
  | spoke _ after _ value houtput _ hstep =>
    have hoffers : machine.step.1.output = machine.output ++ [value] := by
      rw [hstep]
      exact houtput
    rw [emits_eq_singleton hoffers, hoffers]

/-- However a run ends, it has left what was in the output queue and put its words behind it. -/
theorem output_append_emitted {ends : Status → Bool} {budget : Nat} {machine stopped : Machine σ}
    {result : Except Fault Status}
    (h : iterate (turn ends) budget machine = some (stopped, result)) :
    stopped.output = machine.output ++ (machine.emitted ends budget).toList := by
  have hstart : machine.output = machine.output ++ (#[] : Array Word).toList :=
    (List.append_nil _).symm
  refine run_keeps emits (fun state taken => state.output = machine.output ++ taken.toList) ?_ #[]
    hstart h
  intro state taken htaken
  rw [output_step, htaken, Array.toList_append, List.append_assoc]

/-- A machine never takes back what it has put out. -/
theorem prefix_of_course_next {machine next : Machine σ} (h : machine.course = .next next) :
    machine.output <+: next.output := by
  cases machine.stepping with
  | halted _ hcourse | failed _ _ hcourse | waited _ _ hcourse => cases hcourse.symm.trans h
  | silent _ after _ houtput hcourse =>
    cases hcourse.symm.trans h
    exact ⟨[], (List.append_nil _).trans houtput.symm⟩
  | spoke _ after _ value houtput hcourse =>
    cases hcourse.symm.trans h
    exact ⟨[value], houtput.symm⟩

/-- The machine after a number of steps, whether or not they fail. -/
def steps (machine : Machine σ) : Nat → Machine σ
  | 0 => machine
  | count + 1 => (machine.steps count).step.1

theorem rested_step {machine next : Machine σ} (h : machine.course = .next next) :
    machine.step.1.rested = next := by
  cases machine.stepping with
  | halted _ hcourse | failed _ _ hcourse | waited _ _ hcourse => cases hcourse.symm.trans h
  | silent _ after _ _ hcourse hstep | spoke _ after _ _ _ hcourse hstep =>
    rw [hstep]
    exact Turn.next.inj (hcourse.symm.trans h)

/-- A machine gets to every point of its course by single steps. -/
theorem Reaches.exists_steps {machine last : Machine σ} (h : machine.rested.Reaches last) :
    ∃ count, (machine.steps count).rested = last := by
  induction h with
  | refl => exact ⟨0, rfl⟩
  | tail _ hnext ih =>
    obtain ⟨count, rfl⟩ := ih
    rw [course_rested] at hnext
    exact ⟨count + 1, rested_step hnext⟩

/-- The part of the course on which nothing is put out. -/
def ReachesSilently : Machine σ → Machine σ → Prop :=
  Relation.ReflTransGen fun machine next =>
    machine.course = .next next ∧ next.output = machine.output

theorem ReachesSilently.output_eq {machine last : Machine σ} (h : machine.ReachesSilently last) :
    last.output = machine.output := by
  induction h with
  | refl => rfl
  | tail _ hnext ih => exact hnext.2.trans ih

/-- How a run to the next output ends, and what it has put out. -/
inductive RunsToOutput (machine stopped : Machine σ) (result : Except Fault Status) :
    Array Word → Prop
  | ended (hreaches : machine.rested.ReachesSilently stopped.rested)
      (hstopped : stopped.Stopped result) : RunsToOutput machine stopped result #[]
  | spoke {before : Machine σ} {value : Word} (hreaches : machine.rested.ReachesSilently before)
      (hcourse : before.course = .next stopped.rested)
      (houtput : stopped.output = machine.output ++ [value])
      (hstatus : stopped.status = .afterOutput) (hresult : result = .ok .afterOutput) :
      RunsToOutput machine stopped result #[value]

/-- The silence kept by a run before its last turn. -/
def Silent (machine state : Machine σ) (taken : Array Word) : Prop :=
  machine.rested.ReachesSilently state.rested ∧ taken = #[]

theorem Silent.next {machine state after : Machine σ} {taken : Array Word}
    (h : machine.Silent state taken) (hturn : turn endsRunToOutput state = .next after) :
    machine.Silent after (taken ++ state.emits) := by
  obtain ⟨hreaches, rfl⟩ := h
  cases state.stepping with
  | halted hstatus =>
    rw [turn, if_pos hstatus] at hturn
    cases hturn
  | failed hstatus _ _ hstep =>
    rw [turn, if_neg hstatus, hstep] at hturn
    cases hturn
  | waited hstatus _ _ hstep =>
    rw [turn, if_neg hstatus, hstep] at hturn
    cases hturn
  | silent hstatus after' _ houtput hcourse hstep =>
    rw [turn, if_neg hstatus, hstep] at hturn
    dsimp only at hturn
    split at hturn
    · cases hturn
    · cases hturn
      have hnext : state.rested.course = .next after.rested ∧
          after.rested.output = state.rested.output :=
        ⟨state.course_rested.trans hcourse, houtput⟩
      refine ⟨hreaches.tail hnext, ?_⟩
      rw [emits_eq_empty (by rw [hstep]; exact houtput)]
      rfl
  | spoke hstatus after' hafter _ _ _ hstep =>
    rw [turn, if_neg hstatus, hstep, hafter] at hturn
    cases hturn

theorem Silent.stop {machine state : Machine σ} {taken : Array Word}
    {answer : Machine σ × Except Fault Status} (h : machine.Silent state taken)
    (hturn : turn endsRunToOutput state = .stop answer) :
    machine.RunsToOutput answer.1 answer.2 (taken ++ state.emits) := by
  obtain ⟨hreaches, rfl⟩ := h
  cases hcourse : state.course with
  | stop result =>
    obtain ⟨stopped, hstops, hrested, hstopped⟩ :=
      turn_of_course_stop hcourse endsRunToOutput rfl
    cases hstops.symm.trans hturn
    rw [emits_of_course_stop hcourse]
    exact .ended (hrested ▸ hreaches) hstopped
  | next next =>
    cases state.stepping with
    | halted _ hstop | failed _ _ hstop | waited _ _ hstop => cases hstop.symm.trans hcourse
    | silent hstatus after hafter houtput hnext hstep =>
      rw [turn, if_neg hstatus, hstep] at hturn
      rw [emits_eq_empty (by rw [hstep]; exact houtput)]
      have hreaches' : machine.rested.ReachesSilently after.rested :=
        hreaches.tail ⟨state.course_rested.trans hnext, houtput⟩
      rcases hafter with hready | hhalted
      · rw [hready] at hturn
        cases hturn
      · rw [hhalted] at hturn
        cases hturn
        exact .ended hreaches' (stopped_of_halted hhalted)
    | spoke hstatus after hafter value houtput hnext hstep =>
      rw [turn, if_neg hstatus, hstep, hafter] at hturn
      cases hturn
      rw [emits_eq_singleton (by rw [hstep]; exact houtput)]
      have hsilent : state.output = machine.output := hreaches.output_eq
      rw [hsilent] at houtput
      exact .spoke hreaches (state.course_rested.trans hnext) houtput hafter rfl

theorem runToOutput_runs {budget : Nat} {machine stopped : Machine σ}
    {result : Except Fault Status} (h : machine.runToOutput budget = some (stopped, result)) :
    machine.RunsToOutput stopped result (machine.emitted endsRunToOutput budget) := by
  have hstart : machine.Silent machine #[] := ⟨.refl, rfl⟩
  exact iterate_induction emits machine.Silent
    (fun answer taken => machine.RunsToOutput answer.1 answer.2 taken)
    (fun _ _ _ h hturn => h.next hturn) (fun _ _ _ h hturn => h.stop hturn) #[] hstart h

end Intcode.Machine
