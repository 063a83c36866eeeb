import Intcode.Circuit.Run
import Intcode.Proofs.Process

/-!
A series of copies of one program. Each stage runs as the program does on its own, on its phase and
the signal before it, so the series hands the signal on from one evaluation of the program to the
next. It answers with the last signal, or with the failure of the first evaluation that gives no
signal, and it does not return if that evaluation does not.
-/
namespace Intcode.Circuit

/-- On its own, for a phase and a signal, the program comes to the result. -/
def Gives (program : List Word) (phase signal : Word) (result : Except Failure (List Word)) :
    Prop :=
  Returns (fun budget => evaluate budget program [phase, signal]) result

/-- The signal that is left when the program has been evaluated for each of the phases in turn, each
time on the last word that it put out the time before. -/
inductive Passes (program : List Word) : Word → List Word → Word → Prop
  | nil (signal : Word) : Passes program signal [] signal
  | cons {phase signal next last : Word} {phases outputs : List Word}
      (hgives : Gives program phase signal (.ok outputs)) (hnext : outputs.getLast? = some next)
      (hrest : Passes program next phases last) : Passes program signal (phase :: phases) last

/-- The failure of a stage whose evaluation gives no signal. -/
def stageFailure? (stage : Nat) : Except Failure (List Word) → Option Failure
  | .ok [] => some .noOutput
  | .ok (_ :: _) => none
  | .error (.stageNotHalted 0 status) => some (.stageNotHalted stage status)
  | .error failure => some failure

/-- The signal gets as far as some stage, and the evaluation there gives this failure. -/
def Fails (program : List Word) (signal : Word) (phases : List Word) (failure : Failure) : Prop :=
  ∃ stage phase middle result, phases[stage]? = some phase ∧
    Passes program signal (phases.take stage) middle ∧ Gives program phase middle result ∧
      stageFailure? stage result = some failure

/-- The signal gets as far as some stage, and the evaluation there does not return. -/
def Hangs (program : List Word) (signal : Word) (phases : List Word) : Prop :=
  ∃ stage phase middle, phases[stage]? = some phase ∧
    Passes program signal (phases.take stage) middle ∧ ¬∃ result, Gives program phase middle result

/-- The copies with these phases, the first of which has the given number, come to the answer. -/
def Answers (program : List Word) (index : Nat) (signal : Word) (phases : List Word)
    (answer : Except Failure Word) : Prop :=
  ∃ circuit, Returns (fun budget => runSeriesFrom budget index signal (ofPhases program phases))
    (circuit, answer)

theorem runSeriesFrom_mono {σ : Type} [Store σ] {budget index : Nat} {signal : Word}
    {stages : Circuit σ} {outcome : Circuit σ × Except Failure Word}
    (h : runSeriesFrom budget index signal stages = some outcome) (more : Nat) :
    runSeriesFrom (budget + more) index signal stages = some outcome := by
  induction stages generalizing index signal outcome with
  | nil => exact h
  | cons stage rest ih =>
    rw [runSeriesFrom] at h ⊢
    cases hrun : (stage.push signal).run budget with
    | none =>
      rw [hrun] at h
      cases h
    | some ended =>
      have hmore : (stage.push signal).run (budget + more) = some ended := iterate_mono hrun more
      rw [hrun] at h
      rw [hmore]
      obtain ⟨stopped, result⟩ := ended
      match result with
      | .error fault => exact h
      | .ok .ready | .ok .awaitingInput | .ok .afterOutput => exact h
      | .ok .halted =>
        dsimp only at h ⊢
        cases hlast : stopped.drain.1.getLast? with
        | none =>
          rw [hlast] at h
          exact h
        | some next =>
          rw [hlast] at h
          obtain ⟨after, hafter, hpair⟩ := Option.map_eq_some_iff.mp h
          dsimp only
          rw [ih hafter]
          exact congrArg some hpair

theorem run_of_runSeriesFrom {σ : Type} [Store σ] {budget index : Nat} {signal : Word}
    {stage : Machine σ} {rest : Circuit σ} {outcome : Circuit σ × Except Failure Word}
    (h : runSeriesFrom budget index signal (stage :: rest) = some outcome) :
    ∃ ended, (stage.push signal).run budget = some ended := by
  rw [runSeriesFrom] at h
  cases hrun : (stage.push signal).run budget with
  | none =>
    rw [hrun] at h
    cases h
  | some ended => exact ⟨ended, rfl⟩

/-- How a series fares at its first stage, with the circuit and the answer that come of it. -/
inductive Staging {σ : Type} [Store σ] (budget index : Nat) (signal : Word) (stage : Machine σ)
    (rest : Circuit σ) : Circuit σ → Except Failure Word → Prop
  | faulty {stopped : Machine σ} {fault : Fault}
      (hrun : (stage.push signal).run budget = some (stopped, .error fault)) :
      Staging budget index signal stage rest (stopped :: rest) (.error (.fault fault))
  | unfinished {stopped : Machine σ} {status : Status}
      (hrun : (stage.push signal).run budget = some (stopped, .ok status))
      (hstatus : status ≠ .halted) :
      Staging budget index signal stage rest (stopped :: rest)
        (.error (.stageNotHalted index status))
  | silent {stopped : Machine σ}
      (hrun : (stage.push signal).run budget = some (stopped, .ok .halted))
      (houtput : stopped.output = []) :
      Staging budget index signal stage rest (stopped.drain.2 :: rest) (.error .noOutput)
  | handedOn {stopped : Machine σ} {next : Word} {after : Circuit σ} {answer : Except Failure Word}
      (hrun : (stage.push signal).run budget = some (stopped, .ok .halted))
      (hnext : stopped.output.getLast? = some next)
      (hrest : runSeriesFrom budget (index + 1) next rest = some (after, answer)) :
      Staging budget index signal stage rest (stopped.drain.2 :: after) answer

theorem staging {σ : Type} [Store σ] {budget index : Nat} {signal : Word} {stage : Machine σ}
    {rest circuit : Circuit σ} {answer : Except Failure Word}
    (h : runSeriesFrom budget index signal (stage :: rest) = some (circuit, answer)) :
    Staging budget index signal stage rest circuit answer := by
  obtain ⟨⟨stopped, result⟩, hrun⟩ := run_of_runSeriesFrom h
  rw [runSeriesFrom, hrun] at h
  match result with
  | .error fault =>
    cases h
    exact .faulty hrun
  | .ok .ready | .ok .awaitingInput | .ok .afterOutput =>
    cases h
    exact .unfinished hrun nofun
  | .ok .halted =>
    dsimp only [Machine.drain] at h
    cases hnext : stopped.output.getLast? with
    | none =>
      rw [hnext] at h
      cases h
      exact .silent hrun (List.getLast?_eq_none_iff.mp hnext)
    | some next =>
      rw [hnext] at h
      obtain ⟨⟨after, answer'⟩, hafter, hpair⟩ := Option.map_eq_some_iff.mp h
      cases hpair
      exact .handedOn hrun hnext hafter

/-- A series ends at its first stage, with a failure, or it goes on with what that stage gives. -/
theorem runSeriesFrom_cons_cases {σ : Type} [Store σ] {budget index : Nat} {signal : Word}
    {stage : Machine σ} {rest circuit : Circuit σ} {answer : Except Failure Word}
    (h : runSeriesFrom budget index signal (stage :: rest) = some (circuit, answer)) :
    (∃ stopped failure, circuit = stopped :: rest ∧ answer = .error failure) ∨
      ∃ stopped next after, (stage.push signal).run budget = some (stopped, .ok .halted) ∧
        stopped.output.getLast? = some next ∧
        runSeriesFrom budget (index + 1) next rest = some (after, answer) ∧
        circuit = stopped.drain.2 :: after := by
  cases staging h with
  | faulty | unfinished | silent => exact .inl ⟨_, _, rfl, rfl⟩
  | handedOn hrun hnext hrest => exact .inr ⟨_, _, _, hrun, hnext, hrest, rfl⟩

/-- What an evaluation makes of the end of its run. -/
def evaluation : Machine Dense × Except Fault Status → Except Failure (List Word)
  | (machine, .ok .halted) => .ok machine.output
  | (_, .ok status) => .error (.stageNotHalted 0 status)
  | (_, .error fault) => .error (.fault fault)

section Stage

variable {program outputs phases : List Word} {phase signal next : Word} {budget index : Nat}
  {ended : Machine Dense × Except Fault Status}

/-- A copy of the program with its phase, given the signal. -/
abbrev copy (program : List Word) (phase signal : Word) : Machine Dense :=
  ((Machine.load program).push phase).push signal

theorem gives_iff {result : Except Failure (List Word)} :
    Gives program phase signal result ↔ ∃ ended,
      Returns (fun budget => (copy program phase signal).run budget) ended ∧
        evaluation ended = result := by
  constructor
  · rintro ⟨budget, hbudget⟩
    obtain ⟨ended, hrun, hresult⟩ := Option.map_eq_some_iff.mp hbudget
    exact ⟨ended, ⟨budget, hrun⟩, hresult⟩
  · rintro ⟨ended, ⟨budget, hrun⟩, hresult⟩
    exact ⟨budget, Option.map_eq_some_iff.mpr ⟨ended, hrun, hresult⟩⟩

theorem runSeriesFrom_copy (hrun : (copy program phase signal).run budget = some ended)
    (hended : evaluation ended = .ok outputs) (hnext : outputs.getLast? = some next) :
    runSeriesFrom budget index signal (ofPhases program (phase :: phases)) =
      (runSeriesFrom budget (index + 1) next (ofPhases program phases)).map fun (rest, answer) =>
        (ended.1.drain.2 :: rest, answer) := by
  obtain ⟨stopped, result⟩ := ended
  match result with
  | .error fault => cases hended
  | .ok .ready | .ok .awaitingInput | .ok .afterOutput => cases hended
  | .ok .halted =>
    cases hended
    have hlast : stopped.drain.1.getLast? = some next := hnext
    simp only [ofPhases, List.map_cons, runSeriesFrom, hrun, hlast]

theorem runSeriesFrom_copy_failure {failure : Failure}
    (hrun : (copy program phase signal).run budget = some ended)
    (hfailure : stageFailure? index (evaluation ended) = some failure) (phases : List Word) :
    ∃ circuit, runSeriesFrom budget index signal (ofPhases program (phase :: phases)) =
      some (circuit, .error failure) := by
  obtain ⟨stopped, result⟩ := ended
  simp only [ofPhases, List.map_cons, runSeriesFrom, hrun]
  match result with
  | .error fault =>
    cases hfailure
    exact ⟨_, rfl⟩
  | .ok .ready | .ok .awaitingInput | .ok .afterOutput =>
    cases hfailure
    exact ⟨_, rfl⟩
  | .ok .halted =>
    rw [evaluation] at hfailure
    dsimp only [Machine.drain]
    cases houtput : stopped.output with
    | nil =>
      rw [houtput] at hfailure
      cases hfailure
      exact ⟨_, rfl⟩
    | cons first rest =>
      rw [houtput] at hfailure
      cases hfailure

/-- A stage whose evaluation gives a signal hands it on. -/
theorem answers_cons_iff (hgives : Gives program phase signal (.ok outputs))
    (hnext : outputs.getLast? = some next) {answer : Except Failure Word} :
    Answers program index signal (phase :: phases) answer ↔
      Answers program (index + 1) next phases answer := by
  obtain ⟨ended, ⟨enough, hrun⟩, hended⟩ := gives_iff.mp hgives
  constructor
  · rintro ⟨circuit, budget, hseries⟩
    obtain ⟨ended', hrun'⟩ := run_of_runSeriesFrom hseries
    cases iterate_unique hrun hrun'
    dsimp only at hseries
    rw [runSeriesFrom_copy hrun' hended hnext] at hseries
    obtain ⟨⟨rest, answer'⟩, hrest, hpair⟩ := Option.map_eq_some_iff.mp hseries
    cases hpair
    exact ⟨rest, budget, hrest⟩
  · rintro ⟨rest, budget, hrest⟩
    -- One budget has to do for the stage and for the stages behind it.
    have hrun' : (copy program phase signal).run (enough + budget) = some ended :=
      iterate_mono hrun budget
    have hrest' := runSeriesFrom_mono hrest enough
    rw [Nat.add_comm] at hrest'
    refine ⟨ended.1.drain.2 :: rest, enough + budget, ?_⟩
    dsimp only
    rw [runSeriesFrom_copy hrun' hended hnext, hrest']
    rfl

/-- A stage whose evaluation gives no signal ends the series with its failure. -/
theorem answers_failure_iff {result : Except Failure (List Word)} {failure : Failure}
    (hgives : Gives program phase signal result)
    (hfailure : stageFailure? index result = some failure) {answer : Except Failure Word} :
    Answers program index signal (phase :: phases) answer ↔ answer = .error failure := by
  obtain ⟨ended, ⟨enough, hrun⟩, rfl⟩ := gives_iff.mp hgives
  constructor
  · rintro ⟨circuit, budget, hseries⟩
    obtain ⟨ended', hrun'⟩ := run_of_runSeriesFrom hseries
    cases iterate_unique hrun hrun'
    obtain ⟨circuit', hseries'⟩ := runSeriesFrom_copy_failure hrun' hfailure phases
    cases hseries.symm.trans hseries'
    rfl
  · rintro rfl
    obtain ⟨circuit, hseries⟩ := runSeriesFrom_copy_failure hrun hfailure phases
    exact ⟨circuit, enough, hseries⟩

/-- A stage whose evaluation does not return keeps the series from returning. -/
theorem not_answers_cons (hnone : ¬∃ result, Gives program phase signal result)
    (answer : Except Failure Word) : ¬Answers program index signal (phase :: phases) answer := by
  rintro ⟨circuit, budget, hseries⟩
  obtain ⟨ended, hrun⟩ := run_of_runSeriesFrom hseries
  exact hnone ⟨_, gives_iff.mpr ⟨ended, ⟨budget, hrun⟩, rfl⟩⟩

end Stage

theorem answers_nil_iff {program : List Word} {index : Nat} {signal : Word}
    {answer : Except Failure Word} :
    Answers program index signal [] answer ↔ answer = .ok signal := by
  constructor
  · rintro ⟨circuit, budget, hseries⟩
    cases hseries
    rfl
  · rintro rfl
    exact ⟨[], 0, rfl⟩

section Fold

variable {program phases : List Word} {signal middle : Word}

/-- As far as the signal gets, the series goes on with it. -/
theorem Passes.answers_iff {before : List Word} (h : Passes program signal before middle)
    (phases : List Word) (index : Nat) (answer : Except Failure Word) :
    Answers program index signal (before ++ phases) answer ↔
      Answers program (index + before.length) middle phases answer := by
  induction h generalizing index with
  | nil => rfl
  | @cons phase signal next last before outputs hgives hnext _ ih =>
    rw [List.cons_append, answers_cons_iff hgives hnext, ih, List.length_cons, Nat.add_right_comm,
      Nat.add_assoc]

/-- The same for a stage in the middle, by its number. -/
theorem Passes.answers_take_iff {stage : Nat} {phase : Word}
    (h : Passes program signal (phases.take stage) middle) (hphase : phases[stage]? = some phase)
    (answer : Except Failure Word) :
    Answers program 0 signal phases answer ↔
      Answers program stage middle (phase :: phases.drop (stage + 1)) answer := by
  obtain ⟨hstage, rfl⟩ := List.getElem?_eq_some_iff.mp hphase
  have hlength : (phases.take stage).length = stage := List.length_take_of_le (Nat.le_of_lt hstage)
  have hiff := h.answers_iff (phases.drop stage) 0 answer
  rwa [List.take_append_drop, Nat.zero_add, hlength, List.drop_eq_getElem_cons hstage] at hiff

/-- An evaluation that gives no signal gives a failure. -/
theorem exists_stageFailure {result : Except Failure (List Word)}
    (h : ∀ outputs next, result = .ok outputs → outputs.getLast? ≠ some next) (stage : Nat) :
    ∃ failure, stageFailure? stage result = some failure := by
  unfold stageFailure?
  split
  · exact ⟨_, rfl⟩
  · next first rest => exact absurd (List.getLast?_cons) (h _ _ rfl)
  · exact ⟨_, rfl⟩
  · exact ⟨_, rfl⟩

theorem Passes.answers_eq {last : Word} (h : Passes program signal phases last)
    {answer : Except Failure Word} :
    Answers program 0 signal phases answer ↔ answer = .ok last := by
  have hiff := h.answers_iff [] 0 answer
  rwa [List.append_nil, answers_nil_iff] at hiff

theorem Fails.answers_eq {failure : Failure} (h : Fails program signal phases failure)
    {answer : Except Failure Word} :
    Answers program 0 signal phases answer ↔ answer = .error failure := by
  obtain ⟨stage, phase, middle, result, hphase, hpasses, hgives, hfailure⟩ := h
  exact (hpasses.answers_take_iff hphase answer).trans (answers_failure_iff hgives hfailure)

theorem Hangs.not_answers (h : Hangs program signal phases) (answer : Except Failure Word) :
    ¬Answers program 0 signal phases answer := by
  obtain ⟨stage, phase, middle, hphase, hpasses, hnone⟩ := h
  intro hanswer
  exact not_answers_cons hnone answer ((hpasses.answers_take_iff hphase answer).mp hanswer)

/-- Either the signal passes through, or there is a first stage whose evaluation gives none. -/
theorem passes_or_stops (program : List Word) (signal : Word) (phases : List Word) :
    (∃ last, Passes program signal phases last) ∨
    ∃ stage phase middle, phases[stage]? = some phase ∧
      Passes program signal (phases.take stage) middle ∧
      ¬∃ outputs next, Gives program phase middle (.ok outputs) ∧
        outputs.getLast? = some next := by
  induction phases generalizing signal with
  | nil => exact .inl ⟨signal, .nil signal⟩
  | cons phase phases ih =>
    by_cases hgives : ∃ outputs next, Gives program phase signal (.ok outputs) ∧
        outputs.getLast? = some next
    · obtain ⟨outputs, next, hgives, hnext⟩ := hgives
      rcases ih next with ⟨last, hpasses⟩ | ⟨stage, phase', middle, hphase, hpasses, hstops⟩
      · exact .inl ⟨last, .cons hgives hnext hpasses⟩
      · exact .inr ⟨stage + 1, phase', middle, hphase, .cons hgives hnext hpasses, hstops⟩
    · exact .inr ⟨0, phase, signal, rfl, .nil signal, hgives⟩

theorem passes_or_fails_or_hangs (program : List Word) (signal : Word) (phases : List Word) :
    (∃ last, Passes program signal phases last) ∨ (∃ failure, Fails program signal phases failure) ∨
      Hangs program signal phases := by
  rcases passes_or_stops program signal phases with
    hpasses | ⟨stage, phase, middle, hphase, hpasses, hstops⟩
  · exact .inl hpasses
  · by_cases hresult : ∃ result, Gives program phase middle result
    · obtain ⟨result, hgives⟩ := hresult
      have hnone (outputs : List Word) (next : Word) (hok : result = .ok outputs) :
          outputs.getLast? ≠ some next := by
        intro hnext
        exact hstops ⟨outputs, next, hok ▸ hgives, hnext⟩
      obtain ⟨failure, hfailure⟩ := exists_stageFailure hnone stage
      exact .inr (.inl ⟨failure, stage, phase, middle, result, hphase, hpasses, hgives, hfailure⟩)
    · exact .inr (.inr ⟨stage, phase, middle, hphase, hpasses, hresult⟩)

theorem answers_ok_iff {last : Word} :
    Answers program 0 signal phases (.ok last) ↔ Passes program signal phases last := by
  constructor
  · intro hanswer
    rcases passes_or_fails_or_hangs program signal phases with
      ⟨last', hpasses⟩ | ⟨failure, hfails⟩ | hhangs
    · cases hpasses.answers_eq.mp hanswer
      exact hpasses
    · cases hfails.answers_eq.mp hanswer
    · exact absurd hanswer (hhangs.not_answers _)
  · intro hpasses
    exact hpasses.answers_eq.mpr rfl

theorem answers_error_iff {failure : Failure} :
    Answers program 0 signal phases (.error failure) ↔ Fails program signal phases failure := by
  constructor
  · intro hanswer
    rcases passes_or_fails_or_hangs program signal phases with
      ⟨last, hpasses⟩ | ⟨failure', hfails⟩ | hhangs
    · cases hpasses.answers_eq.mp hanswer
    · cases hfails.answers_eq.mp hanswer
      exact hfails
    · exact absurd hanswer (hhangs.not_answers _)
  · intro hfails
    exact hfails.answers_eq.mpr rfl

theorem not_answers_iff :
    (¬∃ answer, Answers program 0 signal phases answer) ↔ Hangs program signal phases := by
  constructor
  · intro hnone
    rcases passes_or_fails_or_hangs program signal phases with
      ⟨last, hpasses⟩ | ⟨failure, hfails⟩ | hhangs
    · exact absurd ⟨_, hpasses.answers_eq.mpr rfl⟩ hnone
    · exact absurd ⟨_, hfails.answers_eq.mpr rfl⟩ hnone
    · exact hhangs
  · rintro hhangs ⟨answer, hanswer⟩
    exact hhangs.not_answers answer hanswer

end Fold

/-- A series of copies of a program folds the evaluation of the program over the phases. -/
theorem runSeries_folds_evaluate (program phases : List Word) (signal : Word) :
    let answers (answer : Except Failure Word) := ∃ circuit,
      Returns (fun budget => runSeries budget (ofPhases program phases) signal) (circuit, answer)
    (phases = [] → ∀ answer, answers answer ↔ answer = .error .noStages) ∧
    (phases ≠ [] →
      (∀ last, answers (.ok last) ↔ Passes program signal phases last) ∧
      (∀ failure, answers (.error failure) ↔ Fails program signal phases failure) ∧
      ((¬∃ answer, answers answer) ↔ Hangs program signal phases)) := by
  cases phases with
  | nil =>
    refine ⟨?_, fun hphases => absurd rfl hphases⟩
    intro _ answer
    constructor
    · rintro ⟨circuit, budget, hseries⟩
      cases hseries
      rfl
    · rintro rfl
      exact ⟨[], 0, rfl⟩
  | cons phase phases =>
    refine ⟨nofun, ?_⟩
    intro _
    exact ⟨fun _ => answers_ok_iff, fun _ => answers_error_iff, not_answers_iff⟩

/-- The program passes the signal on unless its phase is zero, when it halts without output. -/
theorem runSeries_folds_evaluate_phases :
    let program : List Word := [3, 10, 1006, 10, 9, 3, 10, 4, 10, 99, 0]
    (∃ circuit, Returns (fun budget => runSeries budget (ofPhases program [1, 2]) 7)
      (circuit, .ok 7)) ∧
    ∃ circuit, Returns (fun budget => runSeries budget (ofPhases program [1, 0]) 7)
      (circuit, .error .noOutput) := by
  intro program
  have hphase : Gives program 1 7 (.ok [7]) := ⟨10, by cbv⟩
  have hphase' : Gives program 2 7 (.ok [7]) := ⟨10, by cbv⟩
  have hzero : Gives program 0 7 (.ok []) := ⟨10, by cbv⟩
  constructor
  · have hpasses : Passes program 7 [1, 2] 7 := .cons hphase rfl (.cons hphase' rfl (.nil 7))
    exact (((runSeries_folds_evaluate program [1, 2] 7).2 (List.cons_ne_nil _ _)).1 7).mpr hpasses
  · have hfails : Fails program 7 [1, 0] .noOutput :=
      ⟨1, 0, 7, .ok [], rfl, .cons hphase rfl (.nil 7), hzero, rfl⟩
    exact (((runSeries_folds_evaluate program [1, 0] 7).2 (List.cons_ne_nil _ _)).2.1 _).mpr hfails

end Intcode.Circuit
