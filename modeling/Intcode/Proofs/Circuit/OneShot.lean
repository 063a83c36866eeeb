import Intcode.Proofs.Circuit.Series
import Intcode.Proofs.Circuit.Visit
import Intcode.Proofs.Machine.Rounds

/-!
Stages that each put out one word. In a row such a stage is run to its end at once; in a ring it is
interrupted after its word and run to its end in the second lap, when the first stage has a word
more behind its input. Both wirings come to the same answer, and that word is all that they leave
different.
-/
namespace Intcode

variable {σ : Type}

namespace Machine

theorem push_eq_framed {machine : Machine σ} (h : machine.status ≠ .awaitingInput) (value : Word) :
    machine.push value = machine.framed [] [value] := by
  simp only [push, Processor.push, framed, Processor.framed, if_neg h, List.nil_append]

variable [Store σ]

/-- Given the signal, the machine puts out the answer, and once this has been taken from its queue,
it halts with nothing more to say. -/
structure Shot (budget : Nat) (machine spoken last : Machine σ) (signal answer : Word) : Prop where
  speaks : (machine.push signal).runToOutput budget = some (spoken, .ok .afterOutput)
  output_eq : spoken.output = [answer]
  halts : spoken.drain.2.runToOutput budget = some (last, .ok .halted)

variable {machine spoken last : Machine σ} {budget : Nat} {signal answer : Word}

theorem Shot.mono (h : machine.Shot budget spoken last signal answer) (more : Nat) :
    machine.Shot (budget + more) spoken last signal answer where
  speaks := iterate_mono h.speaks more
  output_eq := h.output_eq
  halts := iterate_mono h.halts more

/-- A run that halts after its only output has two rounds. -/
theorem exists_shot {stopped : Machine σ} (hempty : machine.output = [])
    (hrun : (machine.push signal).run budget = some (stopped, .ok .halted))
    (hone : ((machine.push signal).emitted endsRun budget).toList.length = 1) :
    ∃ spoken answer, stopped.output = [answer] ∧
      machine.Shot budget spoken stopped.drain.2 signal answer := by
  have hpush : (machine.push signal).output = [] := hempty
  obtain ⟨answer, hanswer⟩ := List.length_eq_one_iff.mp hone
  have hstopped : stopped.output = [answer] := by
    rw [output_append_emitted hrun, hpush, hanswer, List.nil_append]
  rcases first_round_of_run hrun with ⟨_, _, hsilent⟩ |
    ⟨spoken, value, rest, hspeaks, houtput, hrest, hrun'⟩
  · rw [hstopped, hpush] at hsilent
    cases hsilent
  rw [hpush, List.nil_append] at houtput
  -- The word of the first round is the only one, so the second round is the last.
  have hlast := output_append_emitted hrun'
  rw [hstopped, houtput, List.singleton_append, List.cons.injEq] at hlast
  obtain ⟨rfl, _⟩ := hlast
  rcases first_round_of_run hrun' with ⟨hround, _⟩ | ⟨next, value, rest', _, houtput', _, hrun''⟩
  · have hround' : spoken.runToOutput budget = some (stopped, .ok .halted) := by
      rw [← Nat.add_sub_cancel' hrest.le]
      exact iterate_mono hround _
    rw [← framed_drain houtput] at hround'
    obtain ⟨last, hhalts, rfl⟩ := (iterate_framed_iff rfl [answer]).mp hround'
    have hsilent : last.output = [] := List.append_cancel_left hstopped
    rw [drain_framed, drain_of_empty hsilent]
    exact ⟨spoken, answer, hstopped, hspeaks, houtput, hhalts⟩
  · have hmore := congrArg List.length (output_append_emitted hrun'')
    rw [hstopped, houtput', houtput, List.length_append, List.length_append] at hmore
    simp only [List.length_cons, List.length_nil] at hmore
    omega

end Machine

namespace Loop

variable {n : Nat}

/-- The loop after the given number of visits of its first lap: the stages visited have spoken, the
next one has been given its signal, and the others are as they were. -/
structure FirstLap (origin : Ring σ n) (spoken : Fin (n + 1) → Machine σ) (signals : Nat → Word)
    (visits : Nat) (loop : Loop σ n) : Prop where
  cursor_eq : loop.cursor.val = visits
  spoken_eq : ∀ stage : Fin (n + 1), stage.val < visits →
    loop.ring[stage] = (spoken stage).drain.2
  due_eq : loop.ring[loop.cursor] = origin[loop.cursor].push (signals visits)
  fresh_eq : ∀ stage : Fin (n + 1), visits < stage.val → loop.ring[stage] = origin[stage]

/-- The machine with the answer behind its input, if it is that of the first stage. -/
def answered (value : Word) (stage : Fin (n + 1)) (machine : Machine σ) : Machine σ :=
  machine.framed [] (if stage = 0 then [value] else [])

/-- The loop after the given number of visits of its second lap: the stages visited have halted, and
the first one has the answer behind its input. -/
structure SecondLap (last : Ring σ n) (spoken : Fin (n + 1) → Machine σ) (value : Word)
    (visits : Nat) (loop : Loop σ n) : Prop where
  cursor_eq : loop.cursor.val = visits
  answer_eq : loop.answer = some value
  halted_eq : ∀ stage : Fin (n + 1), stage.val < visits →
    loop.ring[stage] = answered value stage last[stage]
  spoken_eq : ∀ stage : Fin (n + 1), visits ≤ stage.val →
    loop.ring[stage] = answered value stage (spoken stage).drain.2

variable {origin last : Ring σ n} {spoken : Fin (n + 1) → Machine σ} {signals : Nat → Word}
  {budget visits : Nat} {value : Word} {loop : Loop σ n}

theorem firstLap_start (origin : Ring σ n) (spoken : Fin (n + 1) → Machine σ)
    (signals : Nat → Word) : FirstLap origin spoken signals 0 (start origin (signals 0)) where
  cursor_eq := rfl
  spoken_eq stage h := absurd h (Nat.not_lt_zero _)
  due_eq := by
    change (origin.send 0 (signals 0))[(0 : Fin (n + 1))] = _
    rw [Ring.getElem_send, if_pos rfl]
    rfl
  fresh_eq stage h := by
    have hne : stage ≠ 0 := Fin.val_ne_zero_iff.mp (Nat.pos_iff_ne_zero.mp h)
    change (origin.send 0 (signals 0))[stage] = _
    rw [Ring.getElem_send, if_neg hne]

theorem getElem_passOn (loop : Loop σ n) (machine : Machine σ) (value : Word)
    (stage : Fin (n + 1)) :
    (loop.passOn machine value).ring[stage] =
      if stage = loop.cursor + 1 then
        (if stage = loop.cursor then machine else loop.ring[stage]).push value
      else if stage = loop.cursor then machine else loop.ring[stage] := by
  rw [passOn, Ring.getElem_send, Ring.getElem_set]

theorem SecondLap.set_eq (h : SecondLap last spoken value visits loop) (stage : Fin (n + 1))
    (hstage : stage.val < visits + 1) :
    (loop.ring.set loop.cursor (answered value loop.cursor last[loop.cursor]))[stage] =
      answered value stage last[stage] := by
  rw [Ring.getElem_set]
  split
  · next heq => rw [heq]
  · next hne =>
    have hval := Fin.val_ne_of_ne hne
    have hcursor := h.cursor_eq
    exact h.halted_eq stage (by omega)

theorem toList_of_answered {after : Ring σ n}
    (h : ∀ stage : Fin (n + 1), after[stage] = answered value stage last[stage]) :
    ∃ first rest, last.toList = first :: rest ∧
      after.toList = { first with input := first.input ++ [value] } :: rest := by
  have hafter : after = last.set 0 (last[(0 : Fin (n + 1))].framed [] [value]) := by
    apply Ring.eq_of_getElem
    intro stage
    rw [h stage, Ring.getElem_set, answered]
    split
    · next hfirst => rw [hfirst]
    · exact Machine.framed_nil _
  obtain ⟨⟨stages⟩, hsize⟩ := last
  cases stages with
  | nil => cases hsize
  | cons first rest =>
    refine ⟨first, rest, rfl, ?_⟩
    rw [hafter, Ring.set, Vector.toList_set]
    rfl

variable [Store σ]

variable (hshots : ∀ stage : Fin (n + 1), origin[stage].Shot budget (spoken stage) last[stage]
  (signals stage) (signals (stage + 1)))
include hshots

theorem FirstLap.visit_eq (h : FirstLap origin spoken signals visits loop) :
    loop.visit budget =
      .next (loop.passOn (spoken loop.cursor).drain.2 (signals (visits + 1))) := by
  have hshot := hshots loop.cursor
  rw [h.cursor_eq] at hshot
  refine visit_of_spoken ?_ hshot.output_eq
  rw [h.due_eq]
  exact hshot.speaks

theorem FirstLap.next (h : FirstLap origin spoken signals visits loop) (hvisits : visits < n) :
    ∃ after, loop.visit budget = .next after ∧
      FirstLap origin spoken signals (visits + 1) after := by
  have hcursor := h.cursor_eq
  have hafter := val_cursor_add_one hcursor hvisits
  refine ⟨_, h.visit_eq hshots, hafter, ?_, ?_, ?_⟩
  · intro stage hstage
    have hother : stage ≠ loop.cursor + 1 := Fin.ne_of_val_ne (by omega)
    rw [getElem_passOn, if_neg hother]
    split
    · next heq => rw [heq]
    · next hne =>
      have hval := Fin.val_ne_of_ne hne
      exact h.spoken_eq stage (by omega)
  · have hother : loop.cursor + 1 ≠ loop.cursor := Fin.ne_of_val_ne (by omega)
    change (loop.passOn _ _).ring[loop.cursor + 1] = _
    rw [getElem_passOn, if_pos rfl, if_neg hother, h.fresh_eq _ (by omega)]
    rfl
  · intro stage hstage
    have hother : stage ≠ loop.cursor + 1 := Fin.ne_of_val_ne (by omega)
    have hlater : stage ≠ loop.cursor := Fin.ne_of_val_ne (by omega)
    rw [getElem_passOn, if_neg hother, if_neg hlater]
    exact h.fresh_eq stage (by omega)

/-- The last visit of the first lap gives the answer to the first stage. -/
theorem FirstLap.turn (h : FirstLap origin spoken signals n loop) :
    ∃ after, loop.visit budget = .next after ∧
      SecondLap last spoken (signals (n + 1)) 0 after := by
  have hlast : loop.cursor = Fin.last n := Fin.ext h.cursor_eq
  have hafter : loop.cursor + 1 = 0 := by rw [hlast, Fin.last_add_one]
  refine ⟨_, h.visit_eq hshots, ?_, ?_, ?_, ?_⟩
  · exact congrArg Fin.val hafter
  · exact if_pos hlast
  · intro stage hstage
    exact absurd hstage (Nat.not_lt_zero _)
  · intro stage _
    have hspoken : (if stage = loop.cursor then (spoken loop.cursor).drain.2
        else loop.ring[stage]) = (spoken stage).drain.2 := by
      split
      · next heq => rw [heq]
      · next hne =>
        have hval := Fin.val_ne_of_ne hne
        have hcursor := h.cursor_eq
        exact h.spoken_eq stage (by omega)
    rw [getElem_passOn, hafter, hspoken, answered]
    split
    · have hstatus : (spoken stage).status = .afterOutput :=
        Machine.status_of_round (hshots stage).speaks
      exact Machine.push_eq_framed (by simp [Machine.drain, hstatus]) _
    · exact (Machine.framed_nil _).symm

/-- In the second lap every stage runs to its end. -/
theorem SecondLap.run_eq {value : Word} (h : SecondLap last spoken value visits loop) :
    loop.ring[loop.cursor].status = .afterOutput ∧
    loop.ring[loop.cursor].runToOutput budget =
      some (answered value loop.cursor last[loop.cursor], .ok .halted) := by
  have hshot := hshots loop.cursor
  rw [h.spoken_eq loop.cursor (Nat.le_of_eq h.cursor_eq.symm)]
  have hspoken : (spoken loop.cursor).status = .afterOutput := Machine.status_of_round hshot.speaks
  exact ⟨hspoken, Machine.iterate_framed rfl hshot.halts [] (by simp)⟩

theorem SecondLap.next (h : SecondLap last spoken value visits loop) (hvisits : visits < n) :
    ∃ after, loop.visit budget = .next after ∧ SecondLap last spoken value (visits + 1) after := by
  obtain ⟨hstatus, hrun⟩ := h.run_eq hshots
  have hcursor := h.cursor_eq
  have hother : loop.cursor ≠ Fin.last n := by
    intro hlast
    rw [hlast, Fin.val_last] at hcursor
    omega
  have hvisit := visit_of_halted hother (by simp [hstatus]) hrun
  refine ⟨_, hvisit, val_cursor_add_one hcursor hvisits, h.answer_eq, h.set_eq, ?_⟩
  intro stage hstage
  have hlater : stage ≠ loop.cursor := Fin.ne_of_val_ne (by omega)
  rw [Ring.getElem_set, if_neg hlater]
  exact h.spoken_eq stage (by omega)

/-- The last visit of the second lap ends the loop. -/
theorem SecondLap.stop (h : SecondLap last spoken value n loop) :
    ∃ after : Ring σ n, loop.visit budget = .stop (some (after, .ok value)) ∧
      ∀ stage : Fin (n + 1), after[stage] = answered value stage last[stage] := by
  obtain ⟨_, hrun⟩ := h.run_eq hshots
  have hlast : loop.cursor = Fin.last n := Fin.ext h.cursor_eq
  refine ⟨_, ?_, fun stage => h.set_eq stage stage.isLt⟩
  rw [visit_of_finished hlast hrun, finish, h.answer_eq]

/-- Two laps take the loop to its end. -/
theorem exists_two_laps {value : Word} (hvalue : signals (n + 1) = value) :
    ∃ after : Ring σ n,
      iterate (visit budget) (2 * (n + 1)) (start origin (signals 0)) =
        some (some (after, .ok value)) ∧
      ∀ stage : Fin (n + 1), after[stage] = answered value stage last[stage] := by
  subst hvalue
  obtain ⟨turning, hturning, hfirst⟩ :=
    exists_iterate_of_next (FirstLap origin spoken signals)
      (fun visits loop hvisits h => h.next hshots hvisits)
      (firstLap_start origin spoken signals)
  obtain ⟨second, hvisit, hsecond⟩ := hturning.turn hshots
  obtain ⟨ending, hending, hlap⟩ :=
    exists_iterate_of_next (SecondLap last spoken (signals (n + 1)))
      (fun visits loop hvisits h => h.next hshots hvisits) hsecond
  obtain ⟨after, hstop, hafter⟩ := hending.stop hshots
  refine ⟨after, ?_, hafter⟩
  have hsum : 2 * (n + 1) = n + (n + 1 + 1) := by omega
  rw [hsum, hfirst, iterate, hvisit]
  dsimp only
  rw [hlap, iterate, hstop]

end Loop

namespace Circuit

variable [Store σ]

/-- The words that the stages put out while the circuit runs as a series, stage by stage, as far as
the signal gets. -/
def seriesOutputs (budget : Nat) (signal : Word) : Circuit σ → List (List Word)
  | [] => []
  | stage :: rest =>
    let words := ((stage.push signal).emitted Machine.endsRun budget).toList
    match (stage.push signal).run budget with
    | some (stopped, .ok .halted) =>
      match stopped.output.getLast? with
      | some next => words :: seriesOutputs budget next rest
      | none => [words]
    | _ => [words]

/-- In a series that answers, each stage takes the signal before it and gives the next one. -/
theorem exists_signals {budget index : Nat} {signal value : Word} {stages circuit : Circuit σ}
    (h : runSeriesFrom budget index signal stages = some (circuit, .ok value))
    (hempty : ∀ stage ∈ stages, stage.output = [])
    (hone : ∀ words ∈ seriesOutputs budget signal stages, words.length = 1) :
    ∃ signals : Nat → Word, signals 0 = signal ∧ signals stages.length = value ∧
      circuit.length = stages.length ∧
      ∀ (k : Nat) (stage last : Machine σ), stages[k]? = some stage → circuit[k]? = some last →
        ∃ spoken, stage.Shot budget spoken last (signals k) (signals (k + 1)) := by
  induction stages generalizing index signal circuit with
  | nil =>
    cases h
    refine ⟨fun _ => value, rfl, rfl, rfl, ?_⟩
    intro k stage last hstage
    cases hstage
  | cons stage rest ih =>
    rcases runSeriesFrom_cons_cases h with ⟨_, _, _, hanswer⟩ |
      ⟨stopped, next, after, hrun, hnext, hafter, rfl⟩
    · cases hanswer
    rw [seriesOutputs, hrun] at hone
    dsimp only at hone
    rw [hnext] at hone
    obtain ⟨hlength, hothers⟩ := List.forall_mem_cons.mp hone
    obtain ⟨hstage, hrest⟩ := List.forall_mem_cons.mp hempty
    obtain ⟨spoken, answer, hstopped, hshot⟩ := Machine.exists_shot hstage hrun hlength
    rw [hstopped] at hnext
    cases hnext
    obtain ⟨signals, hfirst, hvalue, hsize, hshots⟩ := ih hafter hrest hothers
    refine ⟨fun k => k.casesOn signal signals, rfl, hvalue, congrArg (· + 1) hsize, ?_⟩
    intro k stage' last hstage' hlast
    cases k with
    | zero =>
      cases hstage'
      cases hlast
      dsimp only
      rw [hfirst]
      exact ⟨spoken, hshot⟩
    | succ k => exact hshots k stage' last hstage' hlast

/-- If every stage puts out one word in a series that answers, the loop comes to the same answer and
leaves the same circuit, but that the answer stands behind the input of the first stage. -/
theorem one_shot_wirings_agree {stages circuit : Circuit σ} {budget : Nat} {signal value : Word}
    (hempty : ∀ stage ∈ stages, stage.output = [])
    (h : runSeries budget stages signal = some (circuit, .ok value))
    (hone : ∀ words ∈ seriesOutputs budget signal stages, words.length = 1) :
    ∃ first rest, circuit = first :: rest ∧ ∀ outcome,
      Returns (fun budget => runLoop budget stages signal) outcome ↔
        outcome = ({ first with input := first.input ++ [value] } :: rest, .ok value) := by
  cases stages with
  | nil => cases h
  | cons stage others =>
    let origin : Ring σ others.length := ⟨(stage :: others).toArray, Ring.size_toArray stage others⟩
    obtain ⟨signals, hsignal, hvalue, hsize, hshots⟩ := exists_signals h hempty hone
    let last : Ring σ others.length := ⟨circuit.toArray, hsize⟩
    have hshots' (stage : Fin (others.length + 1)) : ∃ spoken, origin[stage].Shot budget spoken
        last[stage] (signals stage) (signals (stage + 1)) :=
      hshots stage _ _ (origin.getElem?_toList stage) (last.getElem?_toList stage)
    choose spoken hspoken using hshots'
    have hlaps := Loop.exists_two_laps (fun stage => (hspoken stage).mono (2 * (others.length + 1)))
      hvalue
    obtain ⟨after, hloop, hafter⟩ := hlaps
    obtain ⟨first, rest, hlast, hlist⟩ := Loop.toList_of_answered hafter
    refine ⟨first, rest, hlast, Returns.iff_eq (fun h more => runLoop_mono h more) ?_⟩
    refine ⟨budget + 2 * (others.length + 1), ?_⟩
    rw [hsignal] at hloop
    have hends := iterate_mono hloop budget
    rw [Nat.add_comm (2 * (others.length + 1)) budget] at hends
    dsimp only
    rw [runLoop, hends, ← hlist]
    rfl

/-- Two machines that pass one word on. -/
theorem one_shot_wirings_agree_pair :
    let stage : Machine Dense := .load [3, 0, 4, 0, 99]
    ∃ first rest, runSeries 4 [stage, stage] 7 = some (first :: rest, .ok 7) ∧
      Returns (fun budget => runLoop budget [stage, stage] 7)
        ({ first with input := first.input ++ [7] } :: rest, .ok 7) := by
  intro stage
  have hempty : ∀ machine ∈ [stage, stage], machine.output = [] := by decide
  have hone : ∀ words ∈ seriesOutputs 4 7 [stage, stage], words.length = 1 := by
    have houtputs : seriesOutputs 4 7 [stage, stage] = [[7], [7]] := by cbv
    rw [houtputs]
    decide
  have hanswer : (runSeries 4 [stage, stage] 7).map Prod.snd = some (.ok 7) := by cbv
  obtain ⟨⟨circuit, answer⟩, hrun, rfl⟩ := Option.map_eq_some_iff.mp hanswer
  obtain ⟨first, rest, rfl, hloop⟩ := one_shot_wirings_agree hempty hrun hone
  exact ⟨first, rest, hrun, (hloop _).mpr rfl⟩

end Circuit

end Intcode
