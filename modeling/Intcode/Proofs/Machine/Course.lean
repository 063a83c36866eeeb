import Intcode.Machine.Run
import Intcode.Proofs.Process
import Intcode.Proofs.Processor.Framing

/-!
The course of a machine: the machines at rest that it goes through, up to the one at which it halts,
fails or has to wait. A run follows the course to its end, and the course stays the same when words
are put in front of the output or behind the input; only where the machine waited may it go on.
-/
namespace Intcode.Machine

variable {σ : Type}

def rested (machine : Machine σ) : Machine σ :=
  { machine with toProcessor := machine.toProcessor.rested }

def framed (machine : Machine σ) (earlier later : List Word) : Machine σ :=
  { machine with toProcessor := machine.toProcessor.framed earlier later }

/-- A machine that has begun to wait is still at the same point of its course. -/
theorem rested_waiting {machine : Machine σ} (h : machine.status ≠ .halted) :
    ({ machine with status := .awaitingInput } : Machine σ).rested = machine.rested := by
  unfold rested Processor.rested
  rw [if_neg h]
  rfl

theorem rested_framed (machine : Machine σ) (earlier later : List Word) :
    (machine.framed earlier later).rested = machine.rested.framed earlier later := rfl

theorem framed_framed (machine : Machine σ) (earlier later earlier' later' : List Word) :
    (machine.framed earlier later).framed earlier' later' =
      machine.framed (earlier' ++ earlier) (later ++ later') := by
  simp only [framed, Processor.framed, List.append_assoc]

@[simp]
theorem framed_nil (machine : Machine σ) : machine.framed [] [] = machine := by
  simp only [framed, Processor.framed, List.append_nil, List.nil_append]

theorem rested_push (machine : Machine σ) (value : Word) :
    (machine.push value).rested = machine.rested.framed [] [value] := by
  unfold push rested framed
  rw [machine.toProcessor.rested_push value]

theorem rested_pushAll (machine : Machine σ) (values : List Word) :
    (machine.pushAll values).rested = machine.rested.framed [] values := by
  induction values generalizing machine with
  | nil => exact (framed_nil machine.rested).symm
  | cons value values ih =>
    change ((machine.push value).pushAll values).rested = _
    rw [ih, rested_push, framed_framed]
    rfl

variable [Store σ]

/-- Where the machine goes next, or why it stops. -/
def course (machine : Machine σ) : Turn (Machine σ) (Except Fault Status) :=
  if machine.status = .halted then .stop (.ok .halted)
  else
    match machine.move with
    | .error fault => .stop (.error fault)
    | .ok move =>
      if move.processor.status = .awaitingInput then .stop (.ok .awaitingInput)
      else .next (machine.perform move).rested

def Reaches : Machine σ → Machine σ → Prop :=
  Relation.ReflTransGen fun machine next => machine.course = .next next

/-- The course of the machine ends at the last one with the result. -/
def Settles (machine : Machine σ) (result : Except Fault Status) (last : Machine σ) : Prop :=
  machine.Reaches last ∧ last.course = .stop result

/-- What a step does, beside where the course of the machine goes. -/
inductive Stepping (machine : Machine σ) : Prop
  | halted (hstatus : machine.status = .halted) (hcourse : machine.course = .stop (.ok .halted))
      (hstep : machine.step = (machine, .error (.halted machine.pc)))
  | failed (hstatus : machine.status ≠ .halted) (fault : Fault)
      (hcourse : machine.course = .stop (.error fault))
      (hstep : machine.step = (machine, .error fault))
  | waited (hstatus : machine.status ≠ .halted) (hinput : machine.input = [])
      (hcourse : machine.course = .stop (.ok .awaitingInput))
      (hstep : machine.step = ({ machine with status := .awaitingInput }, .ok .awaitingInput))
  | silent (hstatus : machine.status ≠ .halted) (after : Machine σ)
      (hafter : after.status = .ready ∨ after.status = .halted)
      (houtput : after.output = machine.output)
      (hcourse : machine.course = .next after.rested)
      (hstep : machine.step = (after, .ok after.status))
  | spoke (hstatus : machine.status ≠ .halted) (after : Machine σ)
      (hafter : after.status = .afterOutput) (value : Word)
      (houtput : after.output = machine.output ++ [value])
      (hcourse : machine.course = .next after.rested)
      (hstep : machine.step = (after, .ok after.status))

theorem toProcessor_perform (machine : Machine σ) (move : Move) :
    (machine.perform move).toProcessor = move.processor := by
  unfold perform
  cases move.write <;> rfl

theorem toProcessor_step {machine : Machine σ} {move : Move} (h : machine.move = .ok move) :
    machine.step.1.toProcessor = move.processor := by
  rw [step, h]
  exact machine.toProcessor_perform move

theorem stepping_of_move {machine : Machine σ} {move : Move} (hmove : machine.move = .ok move) :
    machine.Stepping := by
  obtain ⟨hstatus, instruction, hfetch, hexecutes⟩ := Processor.executes_of_move hmove
  have hprocessor := machine.toProcessor_perform move
  have hstep : machine.step = (machine.perform move, .ok (machine.perform move).status) := by
    rw [step, hmove, hprocessor]
  have hcourse (hgoes : move.processor.status ≠ .awaitingInput) :
      machine.course = .next (machine.perform move).rested := by
    rw [course, if_neg hstatus, hmove]
    exact if_neg hgoes
  have hsilent (hready : move.processor.status = .ready ∨ move.processor.status = .halted)
      (houtput : move.processor.output = machine.output) : machine.Stepping := by
    have hgoes : move.processor.status ≠ .awaitingInput := by
      rcases hready with h | h <;> rw [h] <;> decide
    rw [← hprocessor] at hready houtput
    exact .silent hstatus _ hready houtput (hcourse hgoes) hstep
  cases hexecutes with
  | combine => exact hsilent (.inl rfl) rfl
  | wait haction hinput =>
    refine .waited hstatus hinput ?_ hstep
    rw [course, if_neg hstatus, hmove]
    rfl
  | input => exact hsilent (.inl rfl) rfl
  | @output source value =>
    exact .spoke hstatus _ (congrArg Processor.status hprocessor) value
      (congrArg Processor.output hprocessor) (hcourse nofun) hstep
  | jump =>
    refine hsilent (.inl ?_) ?_
    · dsimp only
      split <;> rfl
    · dsimp only
      split <;> rfl
  | adjustBase => exact hsilent (.inl rfl) rfl
  | halt => exact hsilent (.inr rfl) rfl

theorem stepping (machine : Machine σ) : machine.Stepping := by
  by_cases hstatus : machine.status = .halted
  · have hmove : machine.move = .error (.halted machine.pc) := by
      rw [Machine.move, Processor.move, if_pos hstatus]
    exact .halted hstatus (by rw [course, if_pos hstatus]) (by rw [step, hmove])
  · cases hmove : machine.move with
    | error fault =>
      exact .failed hstatus fault (by rw [course, if_neg hstatus, hmove]) (by rw [step, hmove])
    | ok move => exact stepping_of_move hmove

/-- A turn of a machine that has not halted is a step, whatever ends the run. -/
theorem turn_cases (ends : Status → Bool) (machine : Machine σ) :
    (machine.status = .halted ∧ turn ends machine = .stop (machine, .ok .halted)) ∨
      (machine.status ≠ .halted ∧ (turn ends machine = .next machine.step.1 ∨
        turn ends machine = .stop machine.step)) := by
  by_cases hstatus : machine.status = .halted
  · exact .inl ⟨hstatus, by rw [turn, if_pos hstatus]⟩
  · refine .inr ⟨hstatus, ?_⟩
    rw [turn, if_neg hstatus]
    obtain ⟨after, result⟩ := machine.step
    cases result with
    | error fault => exact .inr rfl
    | ok status =>
      cases hends : ends status with
      | true => exact .inr (by simp only [hends, if_true])
      | false => exact .inl (by simp only [hends, Bool.false_eq_true, if_false])

section Turns

variable {machine after stopped : Machine σ} {ends : Status → Bool} {result : Except Fault Status}

theorem turn_eq_next_iff : turn ends machine = .next after ↔
    machine.status ≠ .halted ∧ ∃ status, machine.step = (after, .ok status) ∧ ¬ends status := by
  by_cases hstatus : machine.status = .halted
  · simp [turn, hstatus]
  · rw [turn, if_neg hstatus]
    generalize machine.step = stepped
    obtain ⟨next, result⟩ := stepped
    cases result with
    | error fault => simp
    | ok status =>
      by_cases hends : ends status
      · simp [hends]
      · simp [hends, hstatus]

/-- A turn that stops has found the machine halted, or it has taken a step that ends the run. -/
theorem turn_eq_stop_iff : turn ends machine = .stop (stopped, result) ↔
    (machine.status = .halted ∧ (stopped, result) = (machine, .ok .halted)) ∨
      (machine.status ≠ .halted ∧ machine.step = (stopped, result) ∧
        ∀ status, result = .ok status → ends status) := by
  by_cases hstatus : machine.status = .halted
  · rw [turn, if_pos hstatus, Turn.stop.injEq]
    constructor
    · intro h
      exact .inl ⟨hstatus, h.symm⟩
    · intro h
      rcases h with ⟨_, h⟩ | ⟨hnot, _⟩
      · exact h.symm
      · exact absurd hstatus hnot
  · rw [turn, if_neg hstatus]
    generalize machine.step = stepped
    obtain ⟨next, result'⟩ := stepped
    constructor
    · intro h
      refine .inr ⟨hstatus, ?_⟩
      cases result' with
      | error fault =>
        cases h
        refine ⟨rfl, ?_⟩
        intro status hok
        cases hok
      | ok status =>
        dsimp only at h
        split at h
        · next hends =>
          cases h
          refine ⟨rfl, ?_⟩
          intro status' hok
          cases hok
          exact hends
        · cases h
    · intro h
      rcases h with ⟨hhalted, _⟩ | ⟨_, hstep, hends⟩
      · exact absurd hhalted hstatus
      · cases hstep
        cases result with
        | error fault => rfl
        | ok status => exact if_pos (hends status rfl)

end Turns

theorem step_of_halted {machine : Machine σ} (h : machine.status = .halted) :
    machine.step.1 = machine := by
  cases machine.stepping with
  | halted _ _ hstep => rw [hstep]
  | failed hstatus | waited hstatus | silent hstatus | spoke hstatus => exact absurd h hstatus

/-- What every step keeps of the machine and of the notes taken on the way, a whole run keeps. A turn
that finds the machine halted takes no step, but a step would change nothing. -/
theorem run_keeps {ω : Type} (notes : Machine σ → Array ω) (P : Machine σ → Array ω → Prop)
    (hstep : ∀ state taken, P state taken → P state.step.1 (taken ++ notes state))
    {ends : Status → Bool} {budget : Nat} {machine stopped : Machine σ}
    {result : Except Fault Status} (taken : Array ω) (hmachine : P machine taken)
    (hrun : iterate (turn ends) budget machine = some (stopped, result)) :
    P stopped (journal (turn ends) notes budget machine taken) := by
  refine iterate_induction notes P (fun answer taken => P answer.1 taken) ?_ ?_ taken hmachine hrun
  · intro state taken after hstate hturn
    have hafter := hstep state taken hstate
    rcases state.turn_cases ends with ⟨_, hstop⟩ | ⟨_, hnext | hstop⟩
    · cases hstop.symm.trans hturn
    · cases hnext.symm.trans hturn
      exact hafter
    · cases hstop.symm.trans hturn
  · intro state taken answer hstate hturn
    have hafter := hstep state taken hstate
    rcases state.turn_cases ends with ⟨hhalted, hstop⟩ | ⟨_, hnext | hstop⟩
    · cases hstop.symm.trans hturn
      rw [step_of_halted hhalted] at hafter
      exact hafter
    · cases hnext.symm.trans hturn
    · cases hstop.symm.trans hturn
      exact hafter

theorem course_rested (machine : Machine σ) : machine.rested.course = machine.course := by
  have hmove : machine.rested.move = machine.move :=
    Processor.move_rested machine.toProcessor machine.memory
  have hstatus : machine.rested.status = .halted ↔ machine.status = .halted :=
    Processor.status_rested machine.toProcessor
  simp only [course, hmove, hstatus]
  rfl

theorem exists_of_course_next {machine next : Machine σ} (h : machine.course = .next next) :
    machine.status ≠ .halted ∧ ∃ move, machine.move = .ok move ∧
      move.processor.status ≠ .awaitingInput ∧ next = (machine.perform move).rested := by
  rw [course] at h
  split at h
  · cases h
  · next hstatus =>
    refine ⟨hstatus, ?_⟩
    cases hmove : machine.move with
    | error fault =>
      rw [hmove] at h
      cases h
    | ok move =>
      rw [hmove] at h
      dsimp only at h
      split at h
      · cases h
      · next hgoes =>
        cases h
        exact ⟨move, rfl, hgoes, rfl⟩

theorem perform_framed (machine : Machine σ) (move : Move) (earlier later : List Word) :
    (machine.framed earlier later).perform ⟨move.processor.framed earlier later, move.write⟩ =
      (machine.perform move).framed earlier later := by
  unfold perform
  cases move.write <;> rfl

theorem course_framed {machine next : Machine σ} (h : machine.course = .next next)
    (earlier later : List Word) :
    (machine.framed earlier later).course = .next (next.framed earlier later) := by
  obtain ⟨hstatus, move, hmove, hgoes, rfl⟩ := exists_of_course_next h
  obtain ⟨_, instruction, hfetch, hexecutes⟩ := Processor.executes_of_move hmove
  have hmove' : (machine.framed earlier later).move =
      .ok ⟨move.processor.framed earlier later, move.write⟩ :=
    (hexecutes.framed hgoes earlier later).move_eq hstatus hfetch
  have hstatus' : ¬(machine.framed earlier later).status = .halted := hstatus
  rw [course, if_neg hstatus', hmove', ← rested_framed, ← perform_framed]
  exact if_neg hgoes

/-- Only a machine that waits can go on after more input. -/
theorem course_framed_stop {machine : Machine σ} {result : Except Fault Status}
    (h : machine.course = .stop result) (earlier : List Word) {later : List Word}
    (hlater : result = .ok .awaitingInput → later = []) :
    (machine.framed earlier later).course = .stop result := by
  by_cases hstatus : machine.status = .halted
  · have hstatus' : (machine.framed earlier later).status = .halted := hstatus
    rw [course, if_pos hstatus] at h
    rw [course, if_pos hstatus']
    exact h
  · have hstatus' : ¬(machine.framed earlier later).status = .halted := hstatus
    rw [course, if_neg hstatus] at h
    rw [course, if_neg hstatus']
    cases hmove : machine.move with
    | error fault =>
      have hmove' : (machine.framed earlier later).move = .error fault :=
        Processor.move_framed_error hmove earlier later
      rw [hmove] at h
      rw [hmove']
      exact h
    | ok move =>
      rw [hmove] at h
      dsimp only at h
      split at h
      · next hwaits =>
        cases h
        cases hlater rfl
        obtain ⟨_, instruction, hfetch, hexecutes⟩ := Processor.executes_of_move hmove
        have hmove' : (machine.framed earlier []).move =
            .ok ⟨move.processor.framed earlier [], move.write⟩ :=
          (hexecutes.framed_wait hwaits earlier).move_eq hstatus hfetch
        rw [hmove']
        exact if_pos hwaits
      · cases h

theorem Reaches.framed {machine last : Machine σ} (h : machine.Reaches last)
    (earlier later : List Word) :
    (machine.framed earlier later).Reaches (last.framed earlier later) := by
  induction h with
  | refl => exact .refl
  | tail _ hnext ih => exact .tail ih (course_framed hnext earlier later)

/-- Two courses from one machine follow each other. -/
theorem Reaches.settles_iff {machine middle last : Machine σ} {result : Except Fault Status}
    (h : machine.Reaches middle) : machine.Settles result last ↔ middle.Settles result last := by
  constructor
  · rintro ⟨hreaches, hstop⟩
    refine ⟨?_, hstop⟩
    have hunique :
        Relator.RightUnique fun machine next : Machine σ => machine.course = .next next :=
      fun _ _ _ hleft hright => Turn.next.inj (hleft.symm.trans hright)
    rcases Relation.ReflTransGen.total_of_right_unique hunique h hreaches with hafter | hbefore
    · exact hafter
    · rcases Relation.ReflTransGen.cases_head hbefore with heq | ⟨next, hnext, _⟩
      · exact heq ▸ .refl
      · rw [hstop] at hnext
        cases hnext
  · rintro ⟨hreaches, hstop⟩
    exact ⟨Relation.ReflTransGen.trans h hreaches, hstop⟩

theorem Settles.unique {machine last last' : Machine σ} {result result' : Except Fault Status}
    (h : machine.Settles result last) (h' : machine.Settles result' last') :
    result = result' ∧ last = last' := by
  obtain ⟨hreaches, hstop'⟩ := (Reaches.settles_iff h.1).mp h'
  have hstop := h.2
  rcases Relation.ReflTransGen.cases_head hreaches with rfl | ⟨next, hnext, _⟩
  · rw [hstop] at hstop'
    exact ⟨Turn.stop.inj hstop', rfl⟩
  · rw [hstop] at hnext
    cases hnext

theorem Settles.framed {machine last : Machine σ} {result : Except Fault Status}
    (h : machine.Settles result last) (earlier : List Word) :
    (machine.framed earlier []).Settles result (last.framed earlier []) :=
  ⟨h.1.framed earlier [], course_framed_stop h.2 earlier fun _ => rfl⟩

/-- More input makes no course that ends endless. -/
theorem Settles.of_framed {machine last : Machine σ} {earlier later : List Word}
    {result : Except Fault Status} (h : (machine.framed earlier later).Settles result last) :
    ∃ result last, machine.Settles result last := by
  obtain ⟨hreaches, hstop⟩ := h
  generalize hstart : machine.framed earlier later = start at hreaches
  induction hreaches using Relation.ReflTransGen.head_induction_on generalizing machine with
  | refl =>
    cases hcourse : machine.course with
    | stop result => exact ⟨result, machine, .refl, hcourse⟩
    | next next =>
      have hnext := course_framed hcourse earlier later
      rw [hstart, hstop] at hnext
      cases hnext
  | @head start middle hnext _ ih =>
    cases hcourse : machine.course with
    | stop result => exact ⟨result, machine, .refl, hcourse⟩
    | next next =>
      have hframed := course_framed hcourse earlier later
      rw [hstart, hnext] at hframed
      obtain ⟨result, last, hsettles⟩ := ih (Turn.next.inj hframed).symm
      exact ⟨result, last, (Reaches.settles_iff (.single hcourse)).mpr hsettles⟩

theorem course_eq_of_rested {machine other : Machine σ} (h : machine.rested = other.rested) :
    machine.course = other.course := by
  rw [← machine.course_rested, h, other.course_rested]

/-- The machine has come to the end of its course and says so. -/
structure Stopped (machine : Machine σ) (result : Except Fault Status) : Prop where
  course_eq : machine.course = .stop result
  status_eq : ∀ status, result = .ok status → machine.status = status

/-- A course does not end at a machine that is ready. -/
theorem Stopped.halted_or_waiting {machine : Machine σ} {status : Status}
    (h : machine.Stopped (.ok status)) : status = .halted ∨ status = .awaitingInput := by
  have hcourse := h.course_eq
  cases machine.stepping with
  | halted _ hstop =>
    cases hstop.symm.trans hcourse
    exact .inl rfl
  | failed _ _ hstop => cases hstop.symm.trans hcourse
  | waited _ _ hstop =>
    cases hstop.symm.trans hcourse
    exact .inr rfl
  | silent _ _ _ _ hnext | spoke _ _ _ _ _ hnext => cases hnext.symm.trans hcourse

theorem turn_of_course_stop {machine : Machine σ} {result : Except Fault Status}
    (h : machine.course = .stop result) (ends : Status → Bool) (hends : ends .awaitingInput) :
    ∃ stopped, turn ends machine = .stop (stopped, result) ∧ stopped.rested = machine.rested ∧
      stopped.Stopped result := by
  cases machine.stepping with
  | halted hstatus hcourse hstep =>
    cases hcourse.symm.trans h
    refine ⟨machine, by rw [turn, if_pos hstatus], rfl, h, ?_⟩
    rintro status ⟨⟩
    exact hstatus
  | failed hstatus fault hcourse hstep =>
    cases hcourse.symm.trans h
    exact ⟨machine, by rw [turn, if_neg hstatus, hstep], rfl, h, nofun⟩
  | waited hstatus hinput hcourse hstep =>
    cases hcourse.symm.trans h
    have hrested := rested_waiting hstatus
    refine ⟨_, ?_, hrested, (course_eq_of_rested hrested).trans h, ?_⟩
    · rw [turn, if_neg hstatus, hstep]
      exact if_pos hends
    · rintro status ⟨⟩
      rfl
  | silent _ _ _ _ hcourse | spoke _ _ _ _ _ hcourse => cases hcourse.symm.trans h

/-- Whatever ends the run, a machine at the end of its course is run no further. -/
theorem Stopped.turn_eq {machine : Machine σ} {result : Except Fault Status}
    (h : machine.Stopped result) {ends : Status → Bool} (hends : ends .awaitingInput) :
    turn ends machine = .stop (machine, result) := by
  have hcourse := h.course_eq
  cases machine.stepping with
  | halted hstatus hstop =>
    cases hstop.symm.trans hcourse
    rw [turn, if_pos hstatus]
  | failed hstatus _ hstop hstep =>
    cases hstop.symm.trans hcourse
    rw [turn, if_neg hstatus, hstep]
  | waited hstatus _ hstop hstep =>
    cases hstop.symm.trans hcourse
    have hsame : ({ machine with status := .awaitingInput } : Machine σ) = machine := by
      rw [← h.status_eq .awaitingInput rfl]
    rw [turn, if_neg hstatus, hstep, hsame]
    exact if_pos hends
  | silent _ _ _ _ hnext | spoke _ _ _ _ _ hnext => cases hnext.symm.trans hcourse

theorem turn_of_course_next {machine next : Machine σ} (h : machine.course = .next next)
    (ends : Status → Bool) :
    ∃ after, after.rested = next ∧ after.status ≠ .awaitingInput ∧ turn ends machine =
      if ends after.status then .stop (after, .ok after.status) else .next after := by
  cases machine.stepping with
  | halted _ hcourse | failed _ _ hcourse | waited _ _ hcourse => cases hcourse.symm.trans h
  | silent hstatus after hafter _ hcourse hstep =>
    refine ⟨after, Turn.next.inj (hcourse.symm.trans h), ?_, ?_⟩
    · rcases hafter with hafter | hafter <;> rw [hafter] <;> decide
    · rw [turn, if_neg hstatus, hstep]
  | spoke hstatus after hafter _ _ hcourse hstep =>
    refine ⟨after, Turn.next.inj (hcourse.symm.trans h), ?_, ?_⟩
    · rw [hafter]
      decide
    · rw [turn, if_neg hstatus, hstep]

theorem stopped_of_halted {machine : Machine σ} (h : machine.status = .halted) :
    machine.Stopped (.ok .halted) := by
  refine ⟨by rw [course, if_pos h], ?_⟩
  rintro status ⟨⟩
  exact h

theorem halted_of_endsRun {status : Status} (hgoes : status ≠ .awaitingInput)
    (hends : endsRun status) : status = .halted := by
  cases status with
  | halted => rfl
  | awaitingInput => exact absurd rfl hgoes
  | ready | afterOutput => cases hends

/-- A run that returns has followed the course to its end. -/
theorem run_stopped {budget : Nat} {machine stopped : Machine σ} {result : Except Fault Status}
    (h : machine.run budget = some (stopped, result)) :
    machine.rested.Reaches stopped.rested ∧ stopped.Stopped result := by
  have hstart : machine.rested.Reaches machine.rested := .refl
  refine iterate_induction (fun _ => (#[] : Array Unit))
    (fun state _ => machine.rested.Reaches state.rested)
    (fun answer _ => machine.rested.Reaches answer.1.rested ∧ answer.1.Stopped answer.2)
    ?_ ?_ #[] hstart h
  · intro state _ after hreaches hturn
    cases hcourse : state.course with
    | stop result =>
      obtain ⟨stopped, hstops, _⟩ := turn_of_course_stop hcourse endsRun rfl
      cases hstops.symm.trans hturn
    | next next =>
      obtain ⟨after', rfl, _, hgoes⟩ := turn_of_course_next hcourse endsRun
      rw [hgoes] at hturn
      split at hturn
      · cases hturn
      · cases hturn
        exact hreaches.tail (state.course_rested.trans hcourse)
  · intro state _ answer hreaches hturn
    cases hcourse : state.course with
    | stop result =>
      obtain ⟨stopped, hstops, hrested, hstopped⟩ :=
        turn_of_course_stop hcourse endsRun rfl
      cases hstops.symm.trans hturn
      exact ⟨hrested ▸ hreaches, hstopped⟩
    | next next =>
      obtain ⟨after', rfl, hstatus, hgoes⟩ := turn_of_course_next hcourse endsRun
      rw [hgoes] at hturn
      split at hturn
      · next hends =>
        cases hturn
        have hhalted := halted_of_endsRun hstatus hends
        rw [hhalted]
        exact ⟨hreaches.tail (state.course_rested.trans hcourse), stopped_of_halted hhalted⟩
      · cases hturn

/-- A course that ends is followed to its end by a run. -/
theorem Settles.exists_run {machine last : Machine σ} {result : Except Fault Status}
    (h : machine.rested.Settles result last) :
    ∃ stopped, Returns (fun budget => machine.run budget) (stopped, result) ∧
      stopped.rested = last ∧ stopped.Stopped result := by
  obtain ⟨hreaches, hstop⟩ := h
  generalize hstart : machine.rested = start at hreaches
  induction hreaches using Relation.ReflTransGen.head_induction_on generalizing machine with
  | refl =>
    rw [← hstart, course_rested] at hstop
    obtain ⟨stopped, hturn, hrested, hstopped⟩ :=
      turn_of_course_stop hstop endsRun rfl
    refine ⟨stopped, ⟨1, ?_⟩, hrested.trans hstart, hstopped⟩
    dsimp only
    rw [run, iterate, hturn]
  | @head start middle hnext hrest ih =>
    rw [← hstart, course_rested] at hnext
    obtain ⟨after, hafter, hstatus, hturn⟩ := turn_of_course_next hnext endsRun
    by_cases hends : endsRun after.status
    · have hhalted := halted_of_endsRun hstatus hends
      have hstopped := stopped_of_halted hhalted
      have hcourse : middle.course = .stop (.ok .halted) := by
        rw [← hafter, course_rested, hstopped.course_eq]
      rcases Relation.ReflTransGen.cases_head hrest with heq | ⟨next, hmore, _⟩
      · rw [← heq] at hstop
        cases hstop.symm.trans hcourse
        refine ⟨after, ⟨1, ?_⟩, hafter.trans heq, hstopped⟩
        dsimp only
        rw [run, iterate, hturn, if_pos hends, hhalted]
      · cases hcourse.symm.trans hmore
    · obtain ⟨stopped, ⟨budget, hrun⟩, hrested, hstopped⟩ := ih hafter
      refine ⟨stopped, ⟨budget + 1, ?_⟩, hrested, hstopped⟩
      dsimp only
      rw [run, iterate, hturn, if_neg hends]
      exact hrun

end Intcode.Machine
