import Intcode.Command.Run
import Intcode.Proofs.Circuit.Series
import Intcode.Proofs.Machine.Rounds
import Intcode.Proofs.Machine.Session

/-!
Plain runs. A plain run goes from round to round and prints the word that each round puts out, so it
prints in the end what one run of its machine leaves in the output, and it succeeds or fails as that
run does. If it starts where a program starts, the program evaluates accordingly.
-/
namespace Intcode

namespace Command.Solo

variable {σ : Type}

/-- What a plain run makes of the machine at the end of its run. -/
def verdict (stopped : Machine σ) : Except Fault Status → Except SoloFailure Unit
  | .ok .halted => .ok ()
  | .ok _ => .error (.starved stopped.drain.2.toProcessor)
  | .error fault => .error (.failure (.fault fault))

/-- The words that have been printed are what the machine would have in front of its output if they
had been left there. -/
def unprinted (solo : Solo σ) : Machine σ := solo.machine.framed solo.printed []

/-- The plain run that has printed all that the machine has in its output. -/
def ofMachine (machine : Machine σ) : Solo σ := ⟨machine.drain.2, machine.output⟩

theorem ofMachine_unprinted {solo : Solo σ} (h : solo.machine.output = []) :
    ofMachine solo.unprinted = solo := by
  have houtput : solo.unprinted.output = solo.printed := by
    change solo.printed ++ solo.machine.output = solo.printed
    rw [h, List.append_nil]
  rw [ofMachine, houtput, unprinted, Machine.drain_framed, Machine.drain_of_empty h]

theorem verdict_unprinted (solo : Solo σ) (result : Except Fault Status) :
    verdict solo.unprinted result = verdict solo.machine result := by
  unfold verdict
  rw [unprinted, Machine.drain_framed]

/-- The word that a round puts out goes from the output to the words that have been printed. -/
theorem unprinted_print {machine : Machine σ} {value : Word} (h : machine.output = [value])
    (printed : List Word) :
    unprinted ⟨machine.drain.2, printed ++ [value]⟩ = unprinted ⟨machine, printed⟩ := by
  have hframed := machine.drain.2.framed_framed [value] [] printed []
  rw [Machine.framed_drain h] at hframed
  exact hframed.symm

variable [Store σ]

section Turns

variable {budget : Nat} {solo after : Solo σ} {answer : Solo σ × Except SoloFailure Unit}
  {stopped : Machine σ} {result : Except Fault Status}

theorem turn_mono (h : turn budget solo ≠ .stop none) (more : Nat) :
    turn (budget + more) solo = turn budget solo := by
  unfold turn at h ⊢
  cases hround : solo.machine.runToOutput budget with
  | none =>
    rw [hround] at h
    exact absurd rfl h
  | some round =>
    have hmore : solo.machine.runToOutput (budget + more) = some round := iterate_mono hround more
    rw [hmore]

theorem iterate_turn_mono {count : Nat} (h : iterate (turn budget) count solo = some (some answer))
    (more more' : Nat) : iterate (turn (budget + more)) (count + more') solo = some (some answer) :=
  iterate_mono_of_turn (fun _ hturn => turn_mono hturn more) h more'

theorem run_mono (h : run budget solo = some answer) (more : Nat) :
    run (budget + more) solo = some answer := by
  rw [run, Option.join_eq_some_iff] at h ⊢
  exact iterate_turn_mono h more more

theorem returns_of_turn_stop (h : turn budget solo = .stop (some answer)) :
    Returns (fun budget => run budget solo) answer := by
  have hends : turn budget solo ≠ .stop none := by simp [h]
  have hturn : turn (budget + 1) solo = .stop (some answer) := by rw [turn_mono hends, h]
  refine ⟨budget + 1, ?_⟩
  dsimp only
  rw [run, iterate, hturn]
  rfl

/-- One budget has to do for the turn and for those that follow. -/
theorem returns_of_turn_next (h : turn budget solo = .next after)
    (hrest : Returns (fun budget => run budget after) answer) :
    Returns (fun budget => run budget solo) answer := by
  obtain ⟨rest, hrest⟩ := hrest
  dsimp only at hrest
  rw [run, Option.join_eq_some_iff] at hrest
  have hsum : rest + budget + 1 = budget + (rest + 1) := by omega
  have hgoes : turn budget solo ≠ .stop none := by simp [h]
  have hturn : turn (rest + budget + 1) solo = .next after := by rw [hsum, turn_mono hgoes, h]
  refine ⟨rest + budget + 1, ?_⟩
  dsimp only
  rw [run, iterate, hturn, Option.join_eq_some_iff]
  exact iterate_turn_mono hrest (budget + 1) budget

/-- A round that ends without an output ends the plain run. -/
theorem turn_of_last_round (hempty : solo.machine.output = [])
    (hround : solo.machine.runToOutput budget = some (stopped, result))
    (hresult : result ≠ .ok .afterOutput) :
    stopped.output = [] ∧
      turn budget solo = .stop (some (⟨stopped, solo.printed⟩, verdict stopped result)) := by
  rcases Machine.end_of_round hround with ⟨hstopped, houtput⟩ | ⟨hspoke, _⟩
  · rw [hempty] at houtput
    refine ⟨houtput, ?_⟩
    rw [turn, hround]
    cases result with
    | error fault => rfl
    | ok status =>
      rcases hstopped.halted_or_waiting with rfl | rfl
      · rfl
      · rw [verdict, Machine.drain_of_empty houtput]
        intro h
        cases h
  · exact absurd hspoke hresult

/-- A round that ends with an output has its word printed. -/
theorem turn_of_round (hempty : solo.machine.output = [])
    (hround : solo.machine.runToOutput budget = some (stopped, .ok .afterOutput)) :
    ∃ value, stopped.output = [value] ∧
      turn budget solo = .next ⟨stopped.drain.2, solo.printed ++ [value]⟩ := by
  rcases Machine.end_of_round hround with ⟨hstopped, _⟩ | ⟨_, value, houtput⟩
  · exact absurd rfl hstopped.ne_afterOutput
  · rw [hempty, List.nil_append] at houtput
    refine ⟨value, houtput, ?_⟩
    rw [turn, hround]
    dsimp only
    rw [Machine.pop?_of_output houtput]
    rfl

end Turns

section Rounds

variable {solo last : Solo σ} {outcome : Except SoloFailure Unit}

theorem rounds_of_iterate {budget count : Nat}
    (h : iterate (turn budget) count solo = some (some (last, outcome)))
    (hempty : solo.machine.output = []) :
    ∃ stopped result, solo.unprinted.Rounds stopped result ∧ last = ofMachine stopped ∧
      outcome = verdict stopped result := by
  induction count generalizing solo with
  | zero => cases h
  | succ count ih =>
    rw [iterate] at h
    cases hround : solo.machine.runToOutput budget with
    | none =>
      rw [turn, hround] at h
      cases h
    | some round =>
      obtain ⟨middle, result⟩ := round
      have hround' : solo.unprinted.runToOutput budget =
          some (unprinted ⟨middle, solo.printed⟩, result) :=
        Machine.iterate_framed rfl hround solo.printed fun _ => rfl
      by_cases hresult : result = .ok .afterOutput
      · subst hresult
        obtain ⟨value, houtput, hturn⟩ := turn_of_round hempty hround
        rw [hturn] at h
        obtain ⟨stopped, result, hrest, hlast⟩ := ih h rfl
        rw [unprinted_print houtput] at hrest
        exact ⟨stopped, result, .more ⟨budget, hround'⟩ hrest, hlast⟩
      · obtain ⟨houtput, hturn⟩ := turn_of_last_round hempty hround hresult
        rw [hturn] at h
        cases h
        have hlast : ofMachine (unprinted ⟨middle, solo.printed⟩) = ⟨middle, solo.printed⟩ :=
          ofMachine_unprinted houtput
        have hverdict := verdict_unprinted ⟨middle, solo.printed⟩ result
        exact ⟨_, result, .last ⟨budget, hround'⟩ hresult, hlast.symm, hverdict.symm⟩

theorem returns_of_rounds {start stopped : Machine σ} {result : Except Fault Status}
    (h : start.Rounds stopped result) (hstart : solo.unprinted = start)
    (hempty : solo.machine.output = []) :
    Returns (fun budget => run budget solo) (ofMachine stopped, verdict stopped result) := by
  have hends : Machine.endsRunToOutput .awaitingInput := rfl
  induction h generalizing solo with
  | @last start stopped result hround hresult =>
    obtain ⟨budget, hround⟩ := hround
    subst hstart
    obtain ⟨stopped', hround', rfl⟩ := (Machine.iterate_framed_iff hends solo.printed).mp hround
    obtain ⟨houtput, hturn⟩ := turn_of_last_round hempty hround' hresult
    have hlast : ofMachine (unprinted ⟨stopped', solo.printed⟩) = ⟨stopped', solo.printed⟩ :=
      ofMachine_unprinted houtput
    have hverdict := verdict_unprinted ⟨stopped', solo.printed⟩ result
    change Returns _ (ofMachine (unprinted ⟨stopped', solo.printed⟩),
      verdict (unprinted ⟨stopped', solo.printed⟩) result)
    rw [hlast, hverdict]
    exact returns_of_turn_stop hturn
  | @more start middle stopped result hround _ ih =>
    obtain ⟨budget, hround⟩ := hround
    subst hstart
    obtain ⟨middle', hround', rfl⟩ := (Machine.iterate_framed_iff hends solo.printed).mp hround
    obtain ⟨value, houtput, hturn⟩ := turn_of_round hempty hround'
    exact returns_of_turn_next hturn (ih (unprinted_print houtput solo.printed) rfl)

/-- A plain run that has printed all its outputs so far ends as the run of its machine does. -/
theorem returns_iff (hempty : solo.machine.output = []) :
    Returns (fun budget => run budget solo) (last, outcome) ↔ ∃ stopped result,
      Returns (fun budget => solo.unprinted.run budget) (stopped, result) ∧
        last = ofMachine stopped ∧ outcome = verdict stopped result := by
  constructor
  · intro h
    obtain ⟨budget, hrun⟩ := h
    dsimp only at hrun
    rw [run, Option.join_eq_some_iff] at hrun
    obtain ⟨stopped, result, hrounds, hlast⟩ := rounds_of_iterate hrun hempty
    exact ⟨stopped, result, Machine.rounds_iff_run.mp hrounds, hlast⟩
  · intro h
    obtain ⟨stopped, result, hrun, rfl, rfl⟩ := h
    exact returns_of_rounds (Machine.rounds_iff_run.mpr hrun) rfl hempty

end Rounds

end Command.Solo

namespace Machine

variable {σ τ : Type}

theorem output_pushAll (machine : Machine σ) (values : List Word) :
    (machine.pushAll values).output = machine.output := by
  induction values generalizing machine with
  | nil => rfl
  | cons value values ih => exact ih (machine.push value)

variable [Store σ] [Store τ]

theorem Alike.pushAll {machine : Machine σ} {other : Machine τ} (h : machine.Alike other)
    (values : List Word) : (machine.pushAll values).Alike (other.pushAll values) := by
  induction values generalizing machine other with
  | nil => exact h
  | cons value values ih =>
    apply ih
    unfold push
    rw [h.processor_eq]
    exact h.withProcessor _

/-- A program evaluates to what a machine with the program and the inputs comes to, whatever its
store. -/
theorem evaluates_of_run [LawfulStore σ] {program inputs : List Word} {stopped : Machine σ}
    {result : Except Fault Status}
    (h : Returns (fun budget => ((load program : Machine σ).pushAll inputs).run budget)
      (stopped, result)) :
    ∃ stopped' : Machine Dense, stopped'.output = stopped.output ∧
      Returns (fun budget => evaluate budget program inputs)
        (Circuit.evaluation (stopped', result)) := by
  obtain ⟨budget, hrun⟩ := h
  have halike : (load program : Machine σ).Alike (load (program ++ []) : Machine Dense) :=
    load_alike program 0
  rw [List.append_nil] at halike
  have hrel := (halike.pushAll inputs).run endsRun budget
  dsimp only at hrun
  rw [Machine.run] at hrun
  rw [hrun] at hrel
  obtain ⟨⟨stopped', result'⟩, hrun', hstopped, hresult⟩ := exists_of_rel_some hrel
  cases hresult
  refine ⟨stopped', congrArg Processor.output hstopped.processor_eq.symm, budget, ?_⟩
  dsimp only
  rw [evaluate, run, hrun']
  rfl

end Machine

namespace Command

variable {σ : Type}

/-- Words on lines of their own. -/
def wordLines (words : List Word) : String := String.join (words.map wordLine)

/-- What a plain run prints besides the outputs. -/
def dumped [Dump σ] (options : Options) (last : Solo σ) : Except SoloFailure Unit → String
  | .ok () => if options.dump then Dump.dump last.machine.store else ""
  | .error _ => ""

/-- How the run of a machine ends, with the plain run and the evaluation that come to the same. -/
inductive EndsAlike (stopped : Machine σ) (last : Solo σ) :
    Except Fault Status → Except SoloFailure Unit → Except Failure (List Word) → Prop
  | halted (hmachine : last.machine = { stopped with output := [] }) :
      EndsAlike stopped last (.ok .halted) (.ok ()) (.ok stopped.output)
  | starved {cause : SoloFailure}
      (hmessage : cause.message = "program wants more input than was given (" ++
        ({ stopped with output := [] } : Machine σ).text ++ ")") :
      EndsAlike stopped last (.ok .awaitingInput) (.error cause)
        (.error (.stageNotHalted 0 .awaitingInput))
  | failed (fault : Fault) :
      EndsAlike stopped last (.error fault) (.error (.failure (.fault fault)))
        (.error (.fault fault))

variable [Store σ]

theorem EndsAlike.of_stopped {stopped : Machine σ} {result : Except Fault Status}
    (h : stopped.Stopped result) (machine : Machine Dense)
    (houtput : machine.output = stopped.output) :
    EndsAlike stopped (.ofMachine stopped) result (Solo.verdict stopped result)
      (Circuit.evaluation (machine, result)) := by
  cases result with
  | error fault => exact .failed fault
  | ok status =>
    rcases h.halted_or_waiting with rfl | rfl
    · rw [Circuit.evaluation, houtput]
      exact .halted rfl
    · exact .starved rfl

/-- The run of a machine ends as its plain run does, and as the evaluation of the program does if
the run starts where the program starts. -/
theorem exists_endsAlike [LawfulStore σ] (program : List Word) (options : Options)
    {stopped : Machine σ} {result : Except Fault Status}
    (hreturns : Returns (fun budget =>
      (Machine.pushAll { (Machine.load program : Machine σ) with pc := options.entry.getD 0 }
        options.inputs).run budget) (stopped, result)) :
    ∃ evaluated, EndsAlike stopped (.ofMachine stopped) result (Solo.verdict stopped result)
        evaluated ∧
      (options.entry = none →
        Returns (fun budget => evaluate budget program options.inputs) evaluated) := by
  have hstopped : stopped.Stopped result := by
    obtain ⟨budget, hrun⟩ := hreturns
    exact (Machine.run_stopped hrun).2
  cases hentry : options.entry with
  | some address =>
    -- There is no evaluation to compare with, so any machine with the same output will do.
    refine ⟨_, .of_stopped hstopped { stopped with store := Store.ofList [] } rfl, ?_⟩
    intro hnone
    cases hnone
  | none =>
    rw [hentry] at hreturns
    obtain ⟨stopped', houtput, hevaluates⟩ := Machine.evaluates_of_run hreturns
    exact ⟨_, .of_stopped hstopped stopped' houtput, fun _ => hevaluates⟩

/-- Every output is on a line of its own. -/
theorem output_runSolo [Parking σ] [Dump σ] (budget : Nat) (threshold : Option Log.Level)
    (options : Options) (machine : Machine σ) :
    (runSolo budget threshold options machine).map Transcript.output =
      ((Solo.start machine options.entry options.inputs).run budget).map fun ended =>
        wordLines ended.1.printed ++ dumped options ended.1 ended.2 := by
  rw [runSolo, Option.map_map]
  congr 1
  funext ended
  obtain ⟨last, outcome⟩ := ended
  cases outcome with
  | error cause => rfl
  | ok => rfl

/-- A plain run that returns has printed its outputs and then what it dumps. -/
theorem printed_iff [Parking σ] [Dump σ] (threshold : Option Log.Level) {options : Options}
    {machine : Machine σ} {last : Solo σ} {outcome : Except SoloFailure Unit}
    (h : Returns (fun budget => (Solo.start machine options.entry options.inputs).run budget)
      (last, outcome)) (output : String) :
    Returns (fun budget => (runSolo budget threshold options machine).map Transcript.output)
        output ↔
      output = wordLines last.printed ++ dumped options last outcome := by
  simp only [output_runSolo]
  revert output
  apply Returns.iff_eq
  · intro budget answer hprinted more
    obtain ⟨ended, hrun, heq⟩ := Option.map_eq_some_iff.mp hprinted
    rw [Solo.run_mono hrun more, Option.map_some, heq]
  · obtain ⟨budget, hrun⟩ := h
    dsimp only at hrun
    refine ⟨budget, ?_⟩
    dsimp only
    rw [hrun, Option.map_some]

/-- A plain run prints what one run of its machine puts out, and ends in the same way; and so does
the evaluation of the program, unless the run starts elsewhere in it. -/
theorem solo_agrees_with_run [LawfulStore σ] [Parking σ] [Dump σ] (program : List Word)
    (options : Options) :
    let machine : Machine σ :=
      Machine.pushAll { (Machine.load program : Machine σ) with pc := options.entry.getD 0 }
        options.inputs
    let solo : Solo σ := .start (Machine.load program) options.entry options.inputs
    ((∃ answer, Returns (fun budget => solo.run budget) answer) ↔
      ∃ answer, Returns (fun budget => machine.run budget) answer) ∧
    ∀ {stopped : Machine σ} {result : Except Fault Status} {last : Solo σ}
      {outcome : Except SoloFailure Unit},
      Returns (fun budget => machine.run budget) (stopped, result) →
      Returns (fun budget => solo.run budget) (last, outcome) →
      last.printed = stopped.output ∧
      (∀ threshold output,
        Returns (fun budget => (runSolo budget threshold options
          (Machine.load program : Machine σ)).map Transcript.output) output ↔
        output = wordLines stopped.output ++ dumped options last outcome) ∧
      ∃ evaluated, EndsAlike stopped last result outcome evaluated ∧
        (options.entry = none →
          Returns (fun budget => evaluate budget program options.inputs) evaluated) := by
  intro machine solo
  have hempty : solo.machine.output = [] := Machine.output_pushAll _ _
  have hmachine : solo.unprinted = machine := Machine.framed_nil machine
  have hiff (last : Solo σ) (outcome : Except SoloFailure Unit) :
      Returns (fun budget => solo.run budget) (last, outcome) ↔ ∃ stopped result,
        Returns (fun budget => machine.run budget) (stopped, result) ∧
          last = .ofMachine stopped ∧ outcome = Solo.verdict stopped result :=
    hmachine ▸ Solo.returns_iff hempty
  refine ⟨⟨?_, ?_⟩, ?_⟩
  · intro h
    obtain ⟨⟨last, outcome⟩, hsolo⟩ := h
    obtain ⟨stopped, result, hrun, _⟩ := (hiff last outcome).mp hsolo
    exact ⟨(stopped, result), hrun⟩
  · intro h
    obtain ⟨⟨stopped, result⟩, hrun⟩ := h
    exact ⟨_, (hiff _ _).mpr ⟨stopped, result, hrun, rfl, rfl⟩⟩
  · intro stopped result last outcome hreturns hsolo
    obtain ⟨budget, hrun⟩ := hreturns
    obtain ⟨stopped', result', ⟨budget', hrun'⟩, hlast, houtcome⟩ := (hiff last outcome).mp hsolo
    cases iterate_unique hrun hrun'
    have hprinted : last.printed = stopped.output := by rw [hlast, Solo.ofMachine]
    refine ⟨hprinted, ?_, ?_⟩
    · rw [← hprinted]
      exact fun threshold => printed_iff threshold hsolo
    · rw [hlast, houtcome]
      exact exists_endsAlike program options ⟨budget, hrun⟩

/-- A program that puts one word out and then asks for an input that is not there. -/
theorem solo_agrees_with_run_starved :
    let machine : Machine Dense := Machine.load [104, 5, 3, 9, 99]
    let solo : Solo Dense := .start machine none []
    ∃ stopped last outcome,
      Returns (fun budget => machine.run budget) (stopped, .ok .awaitingInput) ∧
      Returns (fun budget => solo.run budget) (last, outcome) ∧
      last.printed = [5] ∧ outcome ≠ .ok () ∧
      Returns (fun budget => evaluate budget [104, 5, 3, 9, 99] [])
        (.error (.stageNotHalted 0 .awaitingInput)) := by
  intro machine solo
  have hrun : (machine.run 5).map (fun ended => (ended.1.output, ended.2)) =
      some ([5], .ok .awaitingInput) := by cbv
  obtain ⟨⟨stopped, result⟩, hstopped, hended⟩ := Option.map_eq_some_iff.mp hrun
  obtain ⟨houtput, rfl⟩ := Prod.mk.inj hended
  have hagrees := solo_agrees_with_run (σ := Dense) [104, 5, 3, 9, 99] {}
  obtain ⟨⟨last, outcome⟩, hsolo⟩ := hagrees.1.mpr ⟨_, 5, hstopped⟩
  obtain ⟨hprinted, _, evaluated, hends, hevaluates⟩ := hagrees.2 ⟨5, hstopped⟩ hsolo
  refine ⟨stopped, last, outcome, ⟨5, hstopped⟩, hsolo, hprinted.trans houtput, ?_, ?_⟩
  · cases hends with
    | starved =>
      intro h
      cases h
  · have hevaluated := hevaluates rfl
    cases hends with
    | starved => exact hevaluated

end Command

end Intcode
