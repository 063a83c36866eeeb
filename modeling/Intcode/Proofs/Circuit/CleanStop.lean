import Intcode.Proofs.Circuit.Deadlock
import Intcode.Proofs.Circuit.Finished
import Intcode.Proofs.Machine.Failure
import Intcode.Proofs.Machine.History

/-!
A series that fails. It breaks off at one stage. The stages before it have halted, and each has
handed its last word on, with nothing left in its output; the stage itself has been given the one
word that came to it and has run to where it cannot go on, with all that it has put out; and the
stages after it have not been touched.
-/
namespace Intcode

variable {σ : Type} [Store σ]

namespace Machine

/-- The machine runs to this end, and what it puts out on the way is still there, behind what was in
its output before. -/
def EndsPending (machine stopped : Machine σ) (result : Except Fault Status) : Prop :=
  ∃ budget, machine.run budget = some (stopped, result) ∧
    stopped.output = machine.output ++ (machine.told endsRun budget).toList

theorem endsPending_of_run {machine stopped : Machine σ} {budget : Nat}
    {result : Except Fault Status} (h : machine.run budget = some (stopped, result)) :
    machine.EndsPending stopped result :=
  ⟨budget, h, output_append_told h⟩

end Machine

namespace Circuit

/-- A signal goes through the stages: each takes the word that comes to it, halts, and hands on the
last of the words that are then taken out of its output. -/
inductive HandsOn : Word → Circuit σ → Circuit σ → Word → Prop
  | nil (signal : Word) : HandsOn signal [] [] signal
  | cons {signal next last : Word} {stage stopped drained : Machine σ} {outputs : List Word}
      {before passed : Circuit σ}
      (hrun : Returns (fun budget => (stage.push signal).run budget) (stopped, .ok .halted))
      (hdrain : stopped.drain = (outputs, drained)) (hnext : outputs.getLast? = some next)
      (hrest : HandsOn next before passed last) :
      HandsOn signal (stage :: before) (drained :: passed) last

/-- The run of the stage with this number ends in a way that breaks the series, and how the failure
tells. -/
inductive Breaks (index : Nat) (given stopped : Machine σ) : Failure → Prop
  | waiting (hrun : given.EndsPending stopped (.ok .awaitingInput))
      (hstatus : stopped.status = .awaitingInput) (hinput : stopped.input = []) :
      Breaks index given stopped (.stageNotHalted index .awaitingInput)
  | silent (hrun : given.EndsPending stopped (.ok .halted)) (hspent : stopped.Spent) :
      Breaks index given stopped .noOutput
  | faulty {fault : Fault} (hrun : given.EndsPending stopped (.error fault))
      (hstep : stopped.step = (stopped, .error fault)) :
      Breaks index given stopped (.fault fault)

theorem HandsOn.spent {signal last : Word} {before passed : Circuit σ}
    (h : HandsOn signal before passed last) : ∀ machine ∈ passed, machine.Spent := by
  induction h with
  | nil => simp
  | @cons _ _ _ _ stopped _ _ _ _ hrun hdrain _ _ ih =>
    obtain ⟨budget, hrun⟩ := hrun
    have hhalted : stopped.status = .halted := (Machine.run_stopped hrun).2.status_eq _ rfl
    cases hdrain
    exact List.forall_mem_cons.mpr ⟨⟨hhalted, rfl⟩, ih⟩

section Stage

variable {budget index : Nat} {given stopped : Machine σ}

theorem breaks_of_unfinished {status : Status}
    (hrun : given.run budget = some (stopped, .ok status)) (hstatus : status ≠ .halted) :
    Breaks index given stopped (.stageNotHalted index status) := by
  have hstopped := (Machine.run_stopped hrun).2
  rcases hstopped.halted_or_waiting with rfl | rfl
  · exact absurd rfl hstatus
  · have hwaits := hstopped.status_eq _ rfl
    rcases hstopped.halted_or_starved with hhalted | ⟨_, hinput⟩
    · cases hwaits.symm.trans hhalted
    · exact .waiting (Machine.endsPending_of_run hrun) hwaits hinput

theorem breaks_of_silent (hrun : given.run budget = some (stopped, .ok .halted))
    (houtput : stopped.output = []) : Breaks index given stopped .noOutput := by
  have hhalted := (Machine.run_stopped hrun).2.status_eq _ rfl
  exact .silent (Machine.endsPending_of_run hrun) ⟨hhalted, houtput⟩

theorem breaks_of_faulty {fault : Fault} (hrun : given.run budget = some (stopped, .error fault)) :
    Breaks index given stopped (.fault fault) :=
  .faulty (Machine.endsPending_of_run hrun) (Machine.fails_of_iterate hrun).2.1

end Stage

/-- A series that fails has one stage at which it breaks off. -/
theorem exists_break {budget index : Nat} {signal : Word} {circuit after : Circuit σ}
    {failure : Failure}
    (h : runSeriesFrom budget index signal circuit = some (after, .error failure)) :
    ∃ before stage rest passed stopped word, circuit = before ++ stage :: rest ∧
      after = passed ++ stopped :: rest ∧ HandsOn signal before passed word ∧
      Breaks (index + before.length) (stage.push word) stopped failure := by
  induction circuit generalizing index signal after with
  | nil => cases h
  | cons stage rest ih =>
    cases staging h with
    | faulty hrun =>
      exact ⟨[], stage, rest, [], _, signal, rfl, rfl, .nil signal, breaks_of_faulty hrun⟩
    | unfinished hrun hstatus =>
      exact ⟨[], stage, rest, [], _, signal, rfl, rfl, .nil signal,
        breaks_of_unfinished hrun hstatus⟩
    | silent hrun houtput =>
      rw [Machine.drain_of_empty houtput]
      exact ⟨[], stage, rest, [], _, signal, rfl, rfl, .nil signal, breaks_of_silent hrun houtput⟩
    | handedOn hrun hnext hrest =>
      obtain ⟨before, last, others, passed, stopped, word, rfl, rfl, hhands, hbreaks⟩ := ih hrest
      rw [Nat.add_assoc, Nat.add_comm 1] at hbreaks
      exact ⟨stage :: before, last, others, _, stopped, word, rfl, rfl,
        .cons ⟨budget, hrun⟩ rfl hnext hhands, hbreaks⟩

/-- A series without stages fails as such. Any other series that fails does so at one of its stages,
and leaves the stages before it spent, the stage itself at the point where its run ends, and the
stages after it as they were. -/
theorem broken_series_stops_cleanly (signal : Word) :
    (∀ outcome : Circuit σ × Except Failure Word,
      Returns (fun budget => runSeries budget [] signal) outcome ↔
        outcome = ([], .error .noStages)) ∧
    ∀ {circuit after : Circuit σ} {failure : Failure}, circuit ≠ [] →
      Returns (fun budget => runSeries budget circuit signal) (after, .error failure) →
      ∃ before stage rest passed stopped word, circuit = before ++ stage :: rest ∧
        after = passed ++ stopped :: rest ∧ HandsOn signal before passed word ∧
        (∀ machine ∈ passed, machine.Spent) ∧
        Breaks before.length (stage.push word) stopped failure := by
  constructor
  · intro outcome
    constructor
    · rintro ⟨budget, hseries⟩
      cases hseries
      rfl
    · rintro rfl
      exact ⟨0, rfl⟩
  · rintro circuit after failure hne ⟨budget, hseries⟩
    obtain ⟨first, others, rfl⟩ := List.exists_cons_of_ne_nil hne
    obtain ⟨before, stage, rest, passed, stopped, word, hcircuit, hafter, hhands, hbreaks⟩ :=
      exists_break hseries
    rw [Nat.zero_add] at hbreaks
    exact ⟨before, stage, rest, passed, stopped, word, hcircuit, hafter, hhands, hhands.spent,
      hbreaks⟩

/-- The first machine passes the word on, the second puts it out and wants another one. The third
one is not reached. -/
theorem broken_series_stops_cleanly_blocked :
    let echo : Machine Dense := .load [3, 0, 4, 0, 99]
    let greedy : Machine Dense := .load [3, 0, 4, 0, 3, 0, 99]
    ∃ first second, Returns (fun budget => runSeries budget [echo, greedy, echo] 7)
        ([first, second, echo], .error (.stageNotHalted 1 .awaitingInput)) ∧
      first.Spent ∧ second.status = .awaitingInput ∧ second.input = [] ∧ second.output = [7] := by
  intro echo greedy
  have hanswer : (runSeries 10 [echo, greedy, echo] 7).map Prod.snd =
      some (.error (.stageNotHalted 1 .awaitingInput)) := by cbv
  have houtputs : (runSeries 10 [echo, greedy, echo] 7).map
      (fun ended => ended.1.map fun stage => stage.output) = some [[], [7], []] := by cbv
  obtain ⟨⟨after, answer⟩, hrun, rfl⟩ := Option.map_eq_some_iff.mp hanswer
  rw [hrun] at houtputs
  obtain ⟨before, stage, rest, passed, stopped, word, hcircuit, rfl, hhands, hspent, hbreaks⟩ :=
    (broken_series_stops_cleanly 7).2 (List.cons_ne_nil _ _) ⟨10, hrun⟩
  generalize hindex : before.length = index at hbreaks
  cases hbreaks with
  | waiting hends hstatus hinput =>
    obtain ⟨first, rfl⟩ := List.length_eq_one_iff.mp hindex
    cases hcircuit
    cases hhands with
    | @cons _ _ _ _ _ drained _ _ _ _ _ _ hrest =>
      cases hrest
      have houtput : stopped.output = [7] :=
        (List.cons.inj (List.cons.inj (Option.some.inj houtputs)).2).1
      exact ⟨drained, stopped, ⟨10, hrun⟩, hspent drained List.mem_cons_self, hstatus, hinput,
        houtput⟩

end Circuit

end Intcode
