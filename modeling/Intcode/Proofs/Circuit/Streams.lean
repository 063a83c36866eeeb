import Intcode.Proofs.Circuit.Visit

/-!
The streams of a ring. Each stage of a network is a machine that has been given, from the start, all
that the stage behind it has put out so far. So a loop over copies of one program solves the
equations between what its stages are given and what the program, run on its own, puts out.
-/
namespace Intcode

namespace Network

variable {σ : Type} [Store σ] {n : Nat}

/-- A stage is given what the one behind it puts out. -/
theorem output_advance {network : Network σ n} {stage : Fin (n + 1)} {next : Machine σ}
    (h : (network stage).course = .next next) (other : Fin (n + 1)) :
    (network.advance stage next (other - 1)).output =
      (network (other - 1)).output ++ network.heard stage next other := by
  by_cases hbehind : other - 1 = stage
  · obtain ⟨words, hwords⟩ := Machine.prefix_of_course_next h
    have hheard : network.heard stage next other = words := by
      rw [heard, if_pos (sub_eq_iff_eq_add.mp hbehind), said, ← hwords, List.drop_left]
    rw [hheard, hbehind, advance_self]
    exact hwords.symm
  · rw [advance_of_ne network hbehind, network.heard_of_ne hbehind, List.append_nil]
    rfl

/-- Whatever the order of the steps, each stage is on the course that it would take if it were given
at once all that the stage behind it has put out. -/
theorem Leads.reaches {start after : Network σ n} (h : start.Leads after)
    (hempty : ∀ stage, (start stage).output = []) (stage : Fin (n + 1)) :
    ((start stage).framed [] (after (stage - 1)).output).Reaches (after stage) := by
  induction h with
  | refl =>
    rw [hempty, Machine.framed_nil]
    exact .refl
  | @tail middle after _ hfires ih =>
    obtain ⟨moved, next, hnext, rfl⟩ := hfires
    have hframed := ih.framed [] (middle.heard moved next stage)
    rw [Machine.framed_framed, List.append_nil, ← output_advance hnext] at hframed
    by_cases hmoved : stage = moved
    · subst hmoved
      rw [advance_self]
      exact hframed.tail (Machine.course_framed hnext [] _)
    · rwa [advance_of_ne middle hmoved]

end Network

namespace Circuit

section Inputs

variable {σ : Type} [Store σ] {n : Nat}

/-- The words that a stage is given while the circuit runs as a loop. -/
def loopInputs (budget : Nat) (circuit : Circuit σ) (signal : Word) : Nat → List Word
  | 0 => signal :: loopOutputs budget circuit signal (circuit.length - 1)
  | stage + 1 => loopOutputs budget circuit signal stage

theorem loopInputs_toList (ring : Ring σ n) (budget : Nat) (signal : Word) (stage : Fin (n + 1)) :
    loopInputs budget ring.toList signal stage =
      (if stage = 0 then [signal] else []) ++
        loopOutputs budget ring.toList signal (stage - 1 : Fin (n + 1)) := by
  by_cases hstage : stage = 0
  · subst hstage
    rw [if_pos rfl, zero_sub, Fin.coe_neg_one, Fin.val_zero, loopInputs, Vector.length_toList]
    rfl
  · obtain ⟨behind, hbehind⟩ := Nat.exists_eq_succ_of_ne_zero (Fin.val_ne_zero_iff.mpr hstage)
    rw [if_neg hstage, Fin.val_sub_one_of_ne_zero hstage, hbehind]
    rfl

end Inputs

variable {n : Nat}

/-- A copy of the program for each phase, in a ring. -/
def ringOfPhases (program : List Word) (phases : Vector Word (n + 1)) : Ring Dense n :=
  phases.map (Machine.load program : Machine Dense).push

theorem toList_ringOfPhases (program : List Word) (phases : Vector Word (n + 1)) :
    (ringOfPhases program phases).toList = ofPhases program phases.toList :=
  Vector.toList_map

theorem getElem_ringOfPhases (program : List Word) (phases : Vector Word (n + 1))
    (stage : Fin (n + 1)) :
    (ringOfPhases program phases)[stage] =
      (Machine.load program : Machine Dense).push phases[stage] :=
  Vector.getElem_map _ _

theorem empty_ringOfPhases (program : List Word) (phases : Vector Word (n + 1))
    (stage : Fin (n + 1)) : (ringOfPhases program phases)[stage].output = [] := by
  rw [getElem_ringOfPhases]
  rfl

/-- A stage of the network, given more words, is the program given its phase and all its words. -/
theorem network_ringOfPhases (program : List Word) (phases : Vector Word (n + 1)) (signal : Word)
    (stage : Fin (n + 1)) (words : List Word) :
    (Ring.network (Ring.send (ringOfPhases program phases) 0 signal) #[] stage).framed [] words =
      ((Machine.load program : Machine Dense).pushAll
        (phases[stage] :: ((if stage = 0 then [signal] else []) ++ words))).rested := by
  rw [Ring.network, Ring.rested_send, getElem_ringOfPhases, Machine.rested_push,
    Machine.rested_pushAll, Machine.framed_framed, Machine.framed_framed, Machine.framed_framed]
  rfl

/-- A program that halts on its own returns all that it has put out. -/
theorem evaluate_of_settles {program inputs : List Word} {last : Machine Dense}
    (h : ((Machine.load program : Machine Dense).pushAll inputs).rested.Settles (.ok .halted)
      last) :
    Returns (fun budget => evaluate budget program inputs) (.ok last.output) := by
  obtain ⟨stopped, ⟨budget, hrun⟩, rfl, _⟩ := h.exists_run
  refine ⟨budget, ?_⟩
  dsimp only at hrun ⊢
  rw [evaluate, hrun]
  rfl

/-- A loop over copies of a program solves the equations between the inputs and the outputs of its
stages. A stage that has not halted has got as far as its outputs say. -/
theorem runLoop_solves_streams (program : List Word) (phases : Vector Word (n + 1)) (signal : Word)
    {budget : Nat} {circuit : Circuit Dense} {value : Word}
    (h : runLoop budget (ofPhases program phases.toList) signal = some (circuit, .ok value)) :
    let outputs := loopOutputs budget (ofPhases program phases.toList) signal
    let inputs := loopInputs budget (ofPhases program phases.toList) signal
    (outputs n).getLast? = some value ∧
    Returns (fun budget => evaluate budget program (phases[Fin.last n] :: inputs n))
      (.ok (outputs n)) ∧
    ∀ stage : Fin (n + 1), ∃ machine, circuit[stage.val]? = some machine ∧
      (machine.status = .halted →
        Returns (fun budget => evaluate budget program (phases[stage] :: inputs stage))
          (.ok (outputs stage))) ∧
      (machine.status ≠ .halted → ∃ count,
        (((Machine.load program : Machine Dense).pushAll (phases[stage] :: inputs stage)).steps
          count).output = outputs stage) := by
  rw [← toList_ringOfPhases] at h ⊢
  obtain ⟨after, rfl, hends⟩ := runLoop_ends (empty_ringOfPhases program phases) h
  intro outputs inputs
  have houtputs (stage : Fin (n + 1)) :
      (after.network ((ringOfPhases program phases).loopTraffic budget signal) stage).output =
        outputs stage := by
    rw [Ring.output_network (hends.output_eq stage)]
    exact (loopOutputs_toList _ _ _ _).symm
  have hreaches (stage : Fin (n + 1)) :
      ((Machine.load program : Machine Dense).pushAll
        (phases[stage] :: inputs stage)).rested.Reaches
          (after.network ((ringOfPhases program phases).loopTraffic budget signal) stage) := by
    have hempty := Ring.empty_send (empty_ringOfPhases program phases) 0 signal
    have hstage := hends.leads.reaches
      (fun stage => Ring.output_network (hempty stage) #[]) stage
    rwa [houtputs, network_ringOfPhases, ← loopInputs_toList] at hstage
  have hevaluates : ∀ stage : Fin (n + 1), after[stage].status = .halted →
      Returns (fun budget => evaluate budget program (phases[stage] :: inputs stage))
        (.ok (outputs stage)) := by
    intro stage hhalted
    rw [← houtputs stage]
    refine evaluate_of_settles ⟨hreaches stage, ?_⟩
    rw [Machine.course, if_pos ((Ring.halted_network _ _ _).mpr hhalted)]
  obtain ⟨hhalted, hlast⟩ := hends.ok value rfl
  refine ⟨?_, hevaluates (Fin.last n) hhalted, ?_⟩
  · exact (congrArg List.getLast? (loopOutputs_toList _ _ _ n)).trans hlast
  · intro stage
    refine ⟨_, Ring.getElem?_toList after stage, hevaluates stage, ?_⟩
    intro _
    obtain ⟨count, hcount⟩ := (hreaches stage).exists_steps
    refine ⟨count, ?_⟩
    rw [← houtputs, ← hcount]
    rfl

/-- The first stage passes on every word that it is given, the last stage only one. -/
theorem runLoop_solves_streams_pair :
    let program : List Word := [3, 16, 3, 17, 4, 17, 1005, 16, 2, 99]
    ∃ circuit, runLoop 20 (ofPhases program [1, 0]) 7 = some (circuit, .ok 7) ∧
      Returns (fun budget => evaluate budget program [0, 7, 7]) (.ok [7]) ∧
      ∃ count, (((Machine.load program : Machine Dense).pushAll [1, 7, 7]).steps count).output =
        [7, 7] := by
  intro program
  have hanswer : (runLoop 20 (ofPhases [3, 16, 3, 17, 4, 17, 1005, 16, 2, 99] [1, 0]) 7).map
      (fun answer => (answer.1.map (·.status), answer.2)) =
        some ([.afterOutput, .halted], .ok 7) := by cbv
  have hfirst : loopOutputs 20 (ofPhases [3, 16, 3, 17, 4, 17, 1005, 16, 2, 99] [1, 0]) 7 0 =
      [7, 7] := by cbv
  have hlast : loopOutputs 20 (ofPhases [3, 16, 3, 17, 4, 17, 1005, 16, 2, 99] [1, 0]) 7 1 =
      [7] := by cbv
  obtain ⟨⟨circuit, answer⟩, hrun, hanswer⟩ := Option.map_eq_some_iff.mp hanswer
  obtain ⟨hstatus, rfl⟩ := Prod.mk.inj hanswer
  obtain ⟨_, hevaluates, hstages⟩ := runLoop_solves_streams program #v[1, 0] 7 hrun
  obtain ⟨machine, hmachine, _, hgoes⟩ := hstages 0
  refine ⟨circuit, hrun, ?_, ?_⟩
  · have hreturns : Returns
        (fun budget => evaluate budget program (0 :: loopOutputs 20 (ofPhases program [1, 0]) 7 0))
        (.ok (loopOutputs 20 (ofPhases program [1, 0]) 7 1)) := hevaluates
    rwa [hfirst, hlast] at hreturns
  · have hfound : circuit[0]? = some machine := hmachine
    have hafter : (circuit.map (·.status))[0]? = some .afterOutput := by
      rw [hstatus]
      rfl
    rw [List.getElem?_map, hfound] at hafter
    have hwaits : machine.status = .afterOutput := Option.some.inj hafter
    obtain ⟨count, hcount⟩ := hgoes (by rw [hwaits]; decide)
    have houtput : (((Machine.load program : Machine Dense).pushAll
        (1 :: 7 :: loopOutputs 20 (ofPhases program [1, 0]) 7 1)).steps count).output =
          loopOutputs 20 (ofPhases program [1, 0]) 7 0 := hcount
    rw [hfirst, hlast] at houtput
    exact ⟨count, houtput⟩

end Circuit

end Intcode
