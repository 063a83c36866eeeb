import Intcode.Proofs.Circuit.Visit

/-!
Schedules of a ring. A schedule says which stage takes the next step, in any order and with no
regard to which of them can go on. The loop is one order among them, and none of them makes the last
stage halt with other words put out than the loop does.
-/
namespace Intcode

namespace Ring

variable {σ : Type} [Store σ] {n : Nat}

/-- One step of a stage, unless it has halted. A word that it puts out goes to the next stage. -/
def tick (ring : Ring σ n) (stage : Fin (n + 1)) : Ring σ n :=
  if ring[stage].status = .halted then ring
  else
    match ring[stage].step with
    | (machine, .ok .afterOutput) =>
      match machine.pop? with
      | some (value, machine) => send (ring.set stage machine) (stage + 1) value
      | none => ring.set stage machine
    | (machine, _) => ring.set stage machine

/-- The ring after each stage of the schedule has had its step. -/
def follow (ring : Ring σ n) (schedule : List (Fin (n + 1))) : Ring σ n := schedule.foldl tick ring

/-- The words that the stages put out on the way. -/
def scheduleTraffic (ring : Ring σ n) : List (Fin (n + 1)) → Traffic n
  | [] => #[]
  | stage :: schedule =>
    .ofStage stage ring[stage].emits ++ (ring.tick stage).scheduleTraffic schedule

/-- The network goes by steps from one ring to the other and puts the words out on the way. -/
structure Yields (ring after : Ring σ n) (words : Traffic n) : Prop where
  output_eq : ∀ stage : Fin (n + 1), after[stage].output = []
  leads : ∀ traffic, (ring.network traffic).Leads (after.network (traffic ++ words))

theorem yields_of_silent {ring : Ring σ n} (hempty : ∀ stage : Fin (n + 1), ring[stage].output = [])
    {stage : Fin (n + 1)} {after : Machine σ}
    (hreaches : ring[stage].rested.ReachesSilently after.rested) :
    ring.Yields (ring.set stage after) (.ofStage stage #[]) where
  output_eq := empty_set hempty stage (hreaches.output_eq.trans (hempty stage))
  leads traffic := by
    rw [Traffic.append_ofStage_empty, network_set]
    exact Network.leads_of_silent rfl hreaches

theorem yields_of_spoke {ring : Ring σ n} (hempty : ∀ stage : Fin (n + 1), ring[stage].output = [])
    {stage : Fin (n + 1)} {after : Machine σ} {value : Word}
    (hcourse : ring[stage].course = .next after.rested) (houtput : after.output = [value]) :
    ring.Yields (send (ring.set stage { after with output := [] }) (stage + 1) value)
      (.ofStage stage #[value]) where
  output_eq := empty_send (empty_set hempty stage rfl) (stage + 1) value
  leads traffic := by
    rw [network_handOn (hempty stage) houtput]
    refine .single ⟨stage, _, Machine.course_framed ?_ _ _, rfl⟩
    rw [Machine.course_rested, hcourse]

/-- A step by any stage is at most one step of the network. -/
theorem tick_yields {ring : Ring σ n} (hempty : ∀ stage : Fin (n + 1), ring[stage].output = [])
    (stage : Fin (n + 1)) :
    ring.Yields (ring.tick stage) (.ofStage stage ring[stage].emits) := by
  cases ring[stage].stepping with
  | halted hstatus hcourse _ =>
    rw [tick, if_pos hstatus, Machine.emits_of_course_stop hcourse]
    refine ⟨hempty, ?_⟩
    intro traffic
    rw [Traffic.append_ofStage_empty]
    exact .refl
  | failed hstatus fault hcourse hstep =>
    rw [tick, if_neg hstatus, Machine.emits_of_course_stop hcourse, hstep]
    exact yields_of_silent hempty .refl
  | waited hstatus _ hcourse hstep =>
    rw [tick, if_neg hstatus, Machine.emits_of_course_stop hcourse, hstep]
    refine yields_of_silent hempty ?_
    rw [Machine.rested_waiting hstatus]
    exact .refl
  | silent hstatus after hafter houtput hcourse hstep =>
    have htick : ring.tick stage = ring.set stage after := by
      rw [tick, if_neg hstatus, hstep]
      rcases hafter with hafter | hafter <;> rw [hafter]
    rw [htick, Machine.emits_eq_empty (hstep ▸ houtput)]
    refine yields_of_silent hempty (.single ⟨?_, houtput⟩)
    rw [Machine.course_rested, hcourse]
  | spoke hstatus after hafter value houtput hcourse hstep =>
    have hemits : ring[stage].emits = #[value] :=
      Machine.emits_eq_singleton (hstep ▸ houtput)
    rw [hempty stage, List.nil_append] at houtput
    have htick : ring.tick stage =
        send (ring.set stage { after with output := [] }) (stage + 1) value := by
      simp only [tick, if_neg hstatus, hstep, hafter, Machine.pop?_of_output houtput]
    rw [hemits, htick]
    exact yields_of_spoke hempty hcourse houtput

/-- Whatever the schedule, it is a number of steps of the network. -/
theorem follow_yields {ring : Ring σ n} (hempty : ∀ stage : Fin (n + 1), ring[stage].output = [])
    (schedule : List (Fin (n + 1))) :
    ring.Yields (ring.follow schedule) (ring.scheduleTraffic schedule) := by
  induction schedule generalizing ring with
  | nil =>
    refine ⟨hempty, ?_⟩
    intro traffic
    rw [scheduleTraffic, Array.append_empty]
    exact .refl
  | cons stage schedule ih =>
    have hfirst := tick_yields hempty stage
    have hrest := ih hfirst.output_eq
    refine ⟨hrest.output_eq, ?_⟩
    intro traffic
    rw [scheduleTraffic, ← Array.append_assoc]
    exact (hfirst.leads traffic).trans (hrest.leads _)

end Ring

namespace Circuit

variable {σ : Type} [Store σ] {n : Nat}

/-- Every schedule that makes the last stage halt makes it put out what the loop does, and there is
none after a deadlock. -/
theorem schedules_agree_with_runLoop {ring : Ring σ n} {signal : Word}
    (hempty : ∀ stage : Fin (n + 1), ring[stage].output = []) {budget : Nat} {circuit : Circuit σ}
    {answer : Except Failure Word}
    (h : runLoop budget ring.toList signal = some (circuit, answer))
    (schedule : List (Fin (n + 1))) :
    let outputs := ((ring.send 0 signal).scheduleTraffic schedule).putOut n
    let halts := ((ring.send 0 signal).follow schedule)[Fin.last n].status = .halted
    (∀ value, answer = .ok value → halts →
      outputs = loopOutputs budget ring.toList signal n ∧ outputs.getLast? = some value) ∧
    (answer = .error .noOutput → halts →
      outputs = loopOutputs budget ring.toList signal n ∧ outputs = []) ∧
    ∀ stage, answer = .error (.deadlock stage) → ¬halts := by
  obtain ⟨after, _, hends⟩ := runLoop_ends hempty h
  obtain ⟨hfinal, hyields⟩ := Ring.follow_yields (Ring.empty_send hempty 0 signal) schedule
  have hleads := hyields #[]
  rw [Array.empty_append] at hleads
  -- Both ends belong to the same network, so only their last stages are left to compare.
  have hsame (hhalted : after[Fin.last n].status = .halted)
      (hhalts : ((ring.send 0 signal).follow schedule)[Fin.last n].status = .halted) :
      ((ring.send 0 signal).scheduleTraffic schedule).putOut n =
        (ring.loopTraffic budget signal).putOut n := by
    have heq := Network.output_eq_of_halted hleads hends.leads
      ((Ring.halted_network _ _ _).mpr hhalts) ((Ring.halted_network _ _ _).mpr hhalted)
    rwa [Ring.output_network (hfinal _), Ring.output_network (hends.output_eq _)] at heq
  rw [loopOutputs_toList]
  refine ⟨?_, ?_, ?_⟩
  · intro value hanswer hhalts
    obtain ⟨hhalted, hlast⟩ := hends.ok value hanswer
    have heq := hsame hhalted hhalts
    exact ⟨heq, (congrArg List.getLast? heq).trans hlast⟩
  · intro hanswer hhalts
    obtain ⟨hhalted, hnone⟩ := hends.noOutput hanswer
    have heq := hsame hhalted hhalts
    exact ⟨heq, heq.trans hnone⟩
  · intro stage hanswer hhalts
    obtain ⟨hwaits, hstuck⟩ := hends.deadlock stage hanswer
    have hwaits' : (after.network (ring.loopTraffic budget signal) (Fin.last n)).status ≠
        .halted := by
      rwa [Ne, Ring.halted_network]
    exact hstuck.not_halted hends.leads hleads hwaits' ((Ring.halted_network _ _ _).mpr hhalts)

/-- Two machines that pass one word on, the second of which is tried too early. -/
theorem schedules_agree_with_runLoop_pair :
    let ring : Ring Dense 1 := Vector.replicate 2 (.load [3, 0, 4, 0, 99])
    let schedule : List (Fin 2) := [1, 0, 0, 1, 1, 1]
    ∃ circuit, runLoop 10 ring.toList 7 = some (circuit, .ok 7) ∧
      ((ring.send 0 7).follow schedule)[Fin.last 1].status = .halted ∧
      ((ring.send 0 7).scheduleTraffic schedule).putOut 1 = loopOutputs 10 ring.toList 7 1 ∧
      (((ring.send 0 7).scheduleTraffic schedule).putOut 1).getLast? = some 7 := by
  have hempty (stage : Fin 2) :
      (Vector.replicate 2 (.load [3, 0, 4, 0, 99]) : Ring Dense 1)[stage].output = [] := by
    change (Vector.replicate 2 (.load [3, 0, 4, 0, 99]) : Ring Dense 1)[stage.val].output = []
    rw [Vector.getElem_replicate]
    rfl
  have hanswer : (runLoop 10 (Vector.replicate 2 (.load [3, 0, 4, 0, 99]) : Ring Dense 1).toList
      7).map Prod.snd = some (.ok 7) := by cbv
  have hhalts : ((Ring.send (Vector.replicate 2 (.load [3, 0, 4, 0, 99]) : Ring Dense 1) 0
      7).follow [1, 0, 0, 1, 1, 1])[Fin.last 1].status = .halted := by cbv
  obtain ⟨⟨circuit, answer⟩, hrun, rfl⟩ := Option.map_eq_some_iff.mp hanswer
  exact ⟨circuit, hrun, hhalts,
    (schedules_agree_with_runLoop hempty hrun [1, 0, 0, 1, 1, 1]).1 7 rfl hhalts⟩

end Circuit

end Intcode
