import Intcode.Proofs.Circuit.Series
import Intcode.Proofs.Circuit.Visit
import Intcode.Proofs.Machine.Rounds

/-!
Circuits whose last stage has halted. A run that answers leaves such a circuit, with nothing left in
the output of its last stage. No run takes a stage back from its halt or makes it put out a word, so
no further run has an answer, whatever runs there have been in between. After a series every stage
has halted, and a further run does no more than to push its signal.
-/
namespace Intcode

variable {σ : Type}

namespace Machine

/-- The machine has halted, and nothing is left in its output. -/
structure Spent (machine : Machine σ) : Prop where
  halted : machine.status = .halted
  output_eq : machine.output = []

variable {machine : Machine σ}

theorem Spent.push_eq (h : machine.Spent) (value : Word) :
    machine.push value = { machine with input := machine.input ++ [value] } := by
  have hgoes : machine.status ≠ .awaitingInput := by simp [h.halted]
  rw [push, Processor.push, if_neg hgoes]

theorem Spent.push (h : machine.Spent) (value : Word) : (machine.push value).Spent := by
  rw [h.push_eq]
  exact ⟨h.halted, h.output_eq⟩

variable [Store σ] {ends : Status → Bool}

theorem Spent.iterate_eq (h : machine.Spent) (budget : Nat) :
    iterate (turn ends) (budget + 1) machine = some (machine, .ok .halted) := by
  rw [iterate, turn, if_pos h.halted]

theorem Spent.eq_of_iterate (h : machine.Spent) {budget : Nat} {stopped : Machine σ}
    {result : Except Fault Status}
    (hrun : iterate (turn ends) budget machine = some (stopped, result)) :
    stopped = machine ∧ result = .ok .halted :=
  Prod.mk.inj (iterate_unique hrun (h.iterate_eq 0))

end Machine

namespace Loop

variable {n : Nat}

/-- A turn that leaves the last stage spent and gives no answer. -/
def StaysSpent : Turn (Loop σ n) (Outcome σ n) → Prop
  | .next after => after.ring[Fin.last n].Spent ∧ after.answer = none
  | .stop none => True
  | .stop (some (ring, answer)) => ring[Fin.last n].Spent ∧ ∀ value, answer ≠ .ok value

variable {loop : Loop σ n}

theorem spent_set {ring : Ring σ n} (h : ring[Fin.last n].Spent) {stage : Fin (n + 1)}
    (hstage : stage ≠ Fin.last n) (machine : Machine σ) :
    (ring.set stage machine)[Fin.last n].Spent := by
  rw [Ring.getElem_set, if_neg hstage.symm]
  exact h

theorem spent_send {ring : Ring σ n} (h : ring[Fin.last n].Spent) (stage : Fin (n + 1))
    (value : Word) : (ring.send stage value)[Fin.last n].Spent := by
  rw [Ring.getElem_send]
  split
  · exact h.push value
  · exact h

theorem staysSpent_settle (h : loop.ring[Fin.last n].Spent) (hanswer : loop.answer = none) :
    StaysSpent loop.settle := by
  unfold settle
  split
  · refine ⟨h, ?_⟩
    simp
  · exact ⟨h, hanswer⟩

variable [Store σ]

theorem staysSpent_visit (h : loop.ring[Fin.last n].Spent) (hanswer : loop.answer = none)
    (budget : Nat) : StaysSpent (loop.visit budget) := by
  -- The last stage only halts once more; the other stages are of no account.
  have hlast {stopped : Machine σ} {result : Except Fault Status}
      (hcursor : loop.cursor = Fin.last n)
      (hrun : loop.ring[loop.cursor].runToOutput budget = some (stopped, result)) :
      stopped = loop.ring[Fin.last n] ∧ result = .ok .halted := by
    rw [hcursor] at hrun
    exact h.eq_of_iterate hrun
  cases loop.visiting budget with
  | endless _ hvisit =>
    rw [hvisit]
    exact trivial
  | failed stopped fault hrun _ _ hvisit =>
    have hother : loop.cursor ≠ Fin.last n := by
      intro hcursor
      cases (hlast hcursor hrun).2
    rw [hvisit]
    refine ⟨spent_set h hother stopped, ?_⟩
    simp
  | handedOn before stopped value first rest hrun _ _ _ _ _ hvisit =>
    have hother : loop.cursor ≠ Fin.last n := by
      intro hcursor
      cases (hlast hcursor hrun).2
    rw [hvisit]
    refine ⟨spent_send (spent_set h hother _) _ _, ?_⟩
    rw [passOn, if_neg hother]
    exact hanswer
  | finished stopped hcursor hrun _ _ _ hvisit =>
    have hstopped := (hlast hcursor hrun).1
    rw [hvisit, finish, hanswer]
    refine ⟨?_, by simp⟩
    rw [Ring.getElem_set, if_pos hcursor.symm, hstopped]
    exact h
  | halted stopped hother _ _ _ _ _ hvisit =>
    rw [hvisit]
    exact ⟨spent_set h hother stopped, hanswer⟩
  | idle stopped status hrun hidles _ _ _ hvisit =>
    have hother : loop.cursor ≠ Fin.last n := by
      intro hcursor
      cases (hlast hcursor hrun).2
      exact hidles.ne_halted hcursor rfl
    rw [hvisit]
    exact staysSpent_settle (spent_set h hother stopped) hanswer

/-- The loop after the given number of visits, if all its stages are spent. -/
structure Resting (ring : Ring σ n) (visits : Nat) (loop : Loop σ n) : Prop where
  ring_eq : loop.ring = ring
  cursor_eq : loop.cursor.val = visits
  idle_eq : loop.idle = visits
  answer_eq : loop.answer = none

variable {ring : Ring σ n} {visits budget : Nat}

theorem Resting.next (h : Resting ring visits loop)
    (hspent : ∀ stage : Fin (n + 1), ring[stage].Spent) (hvisits : visits < n) :
    ∃ after, loop.visit (budget + 1) = .next after ∧ Resting ring (visits + 1) after := by
  obtain ⟨rfl, hcursor, hidle, hanswer⟩ := h
  have hstage := hspent loop.cursor
  have hother : loop.cursor ≠ Fin.last n := by
    intro hlast
    rw [hlast, Fin.val_last] at hcursor
    omega
  have hturns : ¬n < loop.idle + 1 := by omega
  refine ⟨{ loop with idle := loop.idle + 1, cursor := loop.cursor + 1 }, ?_, rfl,
    val_cursor_add_one hcursor hvisits, congrArg (· + 1) hidle, hanswer⟩
  rw [visit_of_idle (.inr ⟨rfl, hstage.halted, hother⟩) (hstage.iterate_eq budget), settle,
    Ring.set_getElem, if_neg hturns]

theorem Resting.stop (h : Resting ring n loop)
    (hspent : ∀ stage : Fin (n + 1), ring[stage].Spent) :
    loop.visit (budget + 1) = .stop (some (ring, .error .noOutput)) := by
  obtain ⟨rfl, hcursor, _, hanswer⟩ := h
  have hlast : loop.cursor = Fin.last n := Fin.ext hcursor
  rw [visit_of_finished hlast ((hspent loop.cursor).iterate_eq budget), Ring.set_getElem, finish,
    hanswer]

/-- If all stages are spent, the loop ends after one lap. -/
theorem iterate_of_spent (hspent : ∀ stage : Fin (n + 1), ring[stage].Spent) (signal : Word) :
    iterate (visit (n + 1)) (n + 1) (start ring signal) =
      some (some (ring.send 0 signal, .error .noOutput)) := by
  have hpushed (stage : Fin (n + 1)) : (ring.send 0 signal)[stage].Spent := by
    rw [Ring.getElem_send]
    split
    · exact (hspent stage).push signal
    · exact hspent stage
  have hstart : Resting (ring.send 0 signal) 0 (start ring signal) := ⟨rfl, rfl, rfl, rfl⟩
  obtain ⟨last, hlast, hlap⟩ := exists_iterate_of_next (Resting (ring.send 0 signal))
    (fun visits loop hvisits h => h.next hpushed hvisits) hstart
  rw [hlap 1, iterate, hlast.stop hpushed]

end Loop

namespace Circuit

/-- The last stage of the circuit is spent. -/
def Finished (circuit : Circuit σ) : Prop :=
  ∃ machine, circuit.getLast? = some machine ∧ machine.Spent

theorem Finished.cons {circuit : Circuit σ} (h : circuit.Finished) (stage : Machine σ) :
    Finished (stage :: circuit) := by
  obtain ⟨machine, hlast, hspent⟩ := h
  refine ⟨machine, ?_, hspent⟩
  rw [List.getLast?_cons, hlast]
  rfl

theorem finished_toList_iff {n : Nat} {ring : Ring σ n} :
    Finished ring.toList ↔ ring[Fin.last n].Spent := by
  have hlast : ring.toList.getLast? = some ring[Fin.last n] := by
    rw [List.getLast?_eq_getElem?, Vector.length_toList]
    exact ring.getElem?_toList (Fin.last n)
  constructor
  · intro h
    obtain ⟨machine, hmachine, hspent⟩ := h
    cases hlast.symm.trans hmachine
    exact hspent
  · intro hspent
    exact ⟨_, hlast, hspent⟩

theorem exists_ring {circuit : Circuit σ} (h : circuit ≠ []) :
    ∃ (n : Nat) (ring : Ring σ n), circuit = ring.toList := by
  obtain ⟨first, rest, rfl⟩ := List.exists_cons_of_ne_nil h
  exact ⟨rest.length, ⟨(first :: rest).toArray, Ring.size_toArray first rest⟩, rfl⟩

theorem finished_of_spent {circuit : Circuit σ} (hne : circuit ≠ [])
    (h : ∀ stage ∈ circuit, stage.Spent) : circuit.Finished :=
  ⟨_, List.getLast?_eq_some_getLast hne, h _ (List.getLast_mem hne)⟩

theorem Finished.ne_nil {circuit : Circuit σ} (h : circuit.Finished) : circuit ≠ [] := by
  intro hnil
  obtain ⟨machine, hlast, _⟩ := h
  rw [hnil] at hlast
  cases hlast

variable [Store σ] {circuit after : Circuit σ} {budget index : Nat} {signal : Word}
  {answer : Except Failure Word}

/-- A series ends at once at a stage that is spent. -/
theorem runSeriesFrom_spent {stage : Machine σ} (h : stage.Spent) (rest : Circuit σ) :
    runSeriesFrom (budget + 1) index signal (stage :: rest) =
      some (stage.push signal :: rest, .error .noOutput) := by
  have hpush := h.push signal
  have hrun : (stage.push signal).run (budget + 1) = some (stage.push signal, .ok .halted) :=
    hpush.iterate_eq budget
  rw [runSeriesFrom, hrun]
  dsimp only
  rw [Machine.drain_of_empty hpush.output_eq, Machine.drain, hpush.output_eq]
  rfl

theorem Finished.runSeriesFrom (h : circuit.Finished)
    (hrun : runSeriesFrom budget index signal circuit = some (after, answer)) :
    after.Finished ∧ ∀ value, answer ≠ .ok value := by
  induction circuit generalizing index signal after with
  | nil => exact absurd rfl h.ne_nil
  | cons stage rest ih =>
    obtain ⟨machine, hlast, hspent⟩ := h
    cases rest with
    | nil =>
      cases hlast
      have hstage : stage.Spent := hspent
      have hmore := runSeriesFrom_mono hrun 1
      rw [runSeriesFrom_spent hstage] at hmore
      cases hmore
      refine ⟨⟨_, rfl, hstage.push signal⟩, ?_⟩
      simp
    | cons next others =>
      rw [List.getLast?_cons_cons] at hlast
      rcases runSeriesFrom_cons_cases hrun with ⟨stopped, failure, rfl, rfl⟩ |
        ⟨stopped, next', after', _, _, hrest, rfl⟩
      · refine ⟨Finished.cons ⟨machine, hlast, hspent⟩ stopped, ?_⟩
        simp
      · obtain ⟨hafter, hanswer⟩ := ih ⟨machine, hlast, hspent⟩ hrest
        exact ⟨hafter.cons _, hanswer⟩

theorem Finished.runLoop (h : circuit.Finished)
    (hrun : circuit.runLoop budget signal = some (after, answer)) :
    after.Finished ∧ ∀ value, answer ≠ .ok value := by
  obtain ⟨n, ring, rfl⟩ := exists_ring h.ne_nil
  obtain ⟨last, rfl, hloop⟩ := exists_of_runLoop hrun
  have hspent := Loop.spent_send (finished_toList_iff.mp h) 0 signal
  have hstart : Loop.StaysSpent (.next (Loop.start ring signal)) := ⟨hspent, rfl⟩
  rw [finished_toList_iff]
  refine iterate_keeps (fun _ => (#[] : Array Unit)) (fun _ => Loop.StaysSpent) ?_ #[] hstart hloop
  intro loop _ hloop
  exact Loop.staysSpent_visit hloop.1 hloop.2 budget

/-- Once the last stage is spent, no run of either wiring answers, and it stays so. -/
theorem Finished.run {wiring : Wiring} (h : circuit.Finished)
    (hrun : circuit.run budget wiring signal = some (after, answer)) :
    after.Finished ∧ ∀ value, answer ≠ .ok value := by
  cases wiring with
  | loop => exact h.runLoop hrun
  | series =>
    obtain ⟨first, rest, rfl⟩ := List.exists_cons_of_ne_nil h.ne_nil
    exact h.runSeriesFrom hrun

/-- A series that answers has emptied the output of all stages, which have halted. -/
theorem spent_of_series {value : Word}
    (hrun : runSeriesFrom budget index signal circuit = some (after, .ok value)) :
    after.length = circuit.length ∧ ∀ stage ∈ after, stage.Spent := by
  induction circuit generalizing index signal after with
  | nil =>
    cases hrun
    refine ⟨rfl, ?_⟩
    simp
  | cons stage rest ih =>
    rcases runSeriesFrom_cons_cases hrun with ⟨_, _, _, hanswer⟩ |
      ⟨stopped, next, after', hstage, _, hrest, rfl⟩
    · cases hanswer
    · obtain ⟨hlength, hspent⟩ := ih hrest
      have hhalted : stopped.status = .halted := (Machine.run_stopped hstage).2.status_eq _ rfl
      refine ⟨congrArg (· + 1) hlength, ?_⟩
      exact List.forall_mem_cons.mpr ⟨⟨hhalted, rfl⟩, hspent⟩

theorem ne_nil_of_run {wiring : Wiring} {value : Word}
    (hrun : circuit.run budget wiring signal = some (after, .ok value)) : circuit ≠ [] := by
  intro hnil
  rw [hnil] at hrun
  cases wiring <;> cases hrun

/-- A run that answers leaves the last stage spent, if no output was pending before. -/
theorem finished_of_run {wiring : Wiring} {value : Word}
    (hempty : ∀ stage ∈ circuit, stage.output = [])
    (hrun : circuit.run budget wiring signal = some (after, .ok value)) : after.Finished := by
  have hne := ne_nil_of_run hrun
  cases wiring with
  | series =>
    obtain ⟨first, rest, rfl⟩ := List.exists_cons_of_ne_nil hne
    obtain ⟨hlength, hspent⟩ := spent_of_series hrun
    exact finished_of_spent (List.ne_nil_of_length_eq_add_one hlength) hspent
  | loop =>
    obtain ⟨n, ring, rfl⟩ := exists_ring hne
    have hpending (stage : Fin (n + 1)) : ring[stage].output = [] :=
      hempty _ (List.mem_of_getElem? (ring.getElem?_toList stage))
    obtain ⟨last, rfl, hends⟩ := runLoop_ends hpending hrun
    exact finished_toList_iff.mpr ⟨(hends.ok value rfl).1, hends.output_eq _⟩

/-- Runs made one after another, each with a wiring and a signal of its own and on the circuit that
the run before has left, with their answers. -/
inductive Reruns : Circuit σ → List (Except Failure Word) → Circuit σ → Prop
  | nil (circuit : Circuit σ) : Reruns circuit [] circuit
  | cons {circuit after last : Circuit σ} {wiring : Wiring} {signal : Word}
      {answer : Except Failure Word} {answers : List (Except Failure Word)}
      (hrun : Returns (fun budget => circuit.run budget wiring signal) (after, answer))
      (hrest : Reruns after answers last) : Reruns circuit (answer :: answers) last

theorem Finished.reruns {answers : List (Except Failure Word)} {last : Circuit σ}
    (h : circuit.Finished) (hruns : circuit.Reruns answers last) :
    ∀ answer ∈ answers, ∀ value, answer ≠ .ok value := by
  induction hruns with
  | nil => simp
  | cons hrun _ ih =>
    obtain ⟨budget, hrun⟩ := hrun
    obtain ⟨hafter, hanswer⟩ := h.run hrun
    exact List.forall_mem_cons.mpr ⟨hanswer, ih hafter⟩

theorem runSeries_mono {outcome : Circuit σ × Except Failure Word}
    (h : circuit.runSeries budget signal = some outcome) (more : Nat) :
    circuit.runSeries (budget + more) signal = some outcome := by
  cases circuit with
  | nil => exact h
  | cons first rest => exact runSeriesFrom_mono h more

theorem run_mono {wiring : Wiring} {outcome : Circuit σ × Except Failure Word}
    (h : circuit.run budget wiring signal = some outcome) (more : Nat) :
    circuit.run (budget + more) wiring signal = some outcome := by
  cases wiring with
  | series => exact runSeries_mono h more
  | loop => exact runLoop_mono h more

/-- If all stages are spent, a run of either wiring only pushes the signal. -/
theorem returns_iff_of_spent {first : Machine σ} {rest : Circuit σ} (wiring : Wiring)
    (h : ∀ stage ∈ first :: rest, stage.Spent) (signal : Word)
    (outcome : Circuit σ × Except Failure Word) :
    Returns (fun budget => Circuit.run budget wiring (first :: rest) signal) outcome ↔
      outcome = ({ first with input := first.input ++ [signal] } :: rest, .error .noOutput) := by
  have hfirst := h first List.mem_cons_self
  revert outcome
  refine Returns.iff_eq (fun h more => run_mono h more) ?_
  rw [← hfirst.push_eq]
  cases wiring with
  | series => exact ⟨1, runSeriesFrom_spent hfirst rest⟩
  | loop =>
    let ring : Ring σ rest.length := ⟨(first :: rest).toArray, Ring.size_toArray first rest⟩
    have hspent (stage : Fin (rest.length + 1)) : ring[stage].Spent :=
      h _ (List.mem_of_getElem? (ring.getElem?_toList stage))
    refine ⟨rest.length + 1, ?_⟩
    dsimp only
    rw [Circuit.run, runLoop, Loop.iterate_of_spent hspent]
    rfl

/-- Runs of a circuit with spent stages leave such a circuit. -/
theorem spent_of_reruns {answers : List (Except Failure Word)} {last : Circuit σ}
    (hne : circuit ≠ []) (h : ∀ stage ∈ circuit, stage.Spent)
    (hruns : circuit.Reruns answers last) : last ≠ [] ∧ ∀ stage ∈ last, stage.Spent := by
  induction hruns with
  | nil => exact ⟨hne, h⟩
  | @cons circuit after last wiring signal answer answers hrun _ ih =>
    obtain ⟨first, rest, rfl⟩ := List.exists_cons_of_ne_nil hne
    cases (returns_iff_of_spent wiring h signal _).mp hrun
    obtain ⟨hfirst, hrest⟩ := List.forall_mem_cons.mp h
    apply ih (List.cons_ne_nil _ _)
    rw [← hfirst.push_eq]
    exact List.forall_mem_cons.mpr ⟨hfirst.push signal, hrest⟩

/-- After a run that has answered, no further run does, whatever runs there have been in between;
and after a series that has answered, a further run only pushes its signal. -/
theorem finished_circuit_never_answers {wiring : Wiring} {value : Word}
    (hempty : ∀ stage ∈ circuit, stage.output = [])
    (h : Returns (fun budget => circuit.run budget wiring signal) (after, .ok value))
    {answers : List (Except Failure Word)} {last : Circuit σ} (hruns : after.Reruns answers last) :
    (∀ answer ∈ answers, ∀ value, answer ≠ .ok value) ∧
    (wiring = .series → ∃ first rest, last = first :: rest ∧ ∀ wiring signal outcome,
      Returns (fun budget => last.run budget wiring signal) outcome ↔
        outcome = ({ first with input := first.input ++ [signal] } :: rest, .error .noOutput)) := by
  obtain ⟨budget, hrun⟩ := h
  refine ⟨(finished_of_run hempty hrun).reruns hruns, ?_⟩
  intro hseries
  subst hseries
  obtain ⟨start, others, rfl⟩ := List.exists_cons_of_ne_nil (ne_nil_of_run hrun)
  obtain ⟨hlength, hspent⟩ := spent_of_series hrun
  have hne : after ≠ [] := List.ne_nil_of_length_eq_add_one hlength
  obtain ⟨hlast, hspent'⟩ := spent_of_reruns hne hspent hruns
  obtain ⟨first, rest, rfl⟩ := List.exists_cons_of_ne_nil hlast
  exact ⟨first, rest, rfl, fun wiring signal outcome =>
    returns_iff_of_spent wiring hspent' signal outcome⟩

/-- A machine that has passed one word on and is run twice more, in either wiring. -/
theorem finished_circuit_never_answers_twice :
    let stage : Machine Dense := .load [3, 0, 4, 0, 99]
    ∃ first rest first' rest' last,
      Returns (fun budget => Circuit.run budget .series [stage] 7) (first :: rest, .ok 7) ∧
      Returns (fun budget => Circuit.run budget .loop (first :: rest) 8)
        (first' :: rest', .error .noOutput) ∧
      Returns (fun budget => Circuit.run budget .series (first' :: rest') 9)
        (last, .error .noOutput) := by
  intro stage
  have hempty : ∀ machine ∈ [stage], machine.output = [] := by decide
  have hanswer : (Circuit.run 4 .series [stage] 7).map Prod.snd = some (.ok 7) := by cbv
  obtain ⟨⟨after, answer⟩, hrun, rfl⟩ := Option.map_eq_some_iff.mp hanswer
  have hreturns : Returns (fun budget => Circuit.run budget .series [stage] 7) (after, .ok 7) :=
    ⟨4, hrun⟩
  obtain ⟨first, rest, rfl, hfirst⟩ :=
    (finished_circuit_never_answers hempty hreturns (.nil after)).2 rfl
  have hsecond := (hfirst .loop 8 _).mpr rfl
  obtain ⟨first', rest', heq, hthird⟩ :=
    (finished_circuit_never_answers hempty hreturns (.cons hsecond (.nil _))).2 rfl
  rw [heq] at hsecond hthird
  exact ⟨first, rest, first', rest', _, hreturns, hsecond, (hthird .series 9 _).mpr rfl⟩

end Circuit

end Intcode
