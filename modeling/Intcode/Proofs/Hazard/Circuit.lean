import Intcode.Circuit.Run
import Intcode.Command.Solo
import Intcode.Proofs.Circuit.Finished
import Intcode.Proofs.Hazard.Machine

/-!
Circuits and plain runs with their hazards. A loop keeps its stages in an array and counts the place
that it is at and the idle visits, and a plain run takes it for impossible that a run to the next
output ends with a machine that is ready. As long as the number of stages is a size, nothing comes
to a hazard: the place is always taken modulo the number of stages, and the idle visits are never
more than the stages.
-/
namespace Intcode

/-- A loop whose stages stand in an array. -/
structure Lap (ρ : Type) where
  stages : Array (Machine ρ)
  cursor : Nat
  idle : Nat
  answer : Option Word

namespace Risky

variable {ρ : Type}

abbrev Ending (ρ : Type) := Circuit ρ × Except Failure Word

/-- The place behind the one that is visited. -/
def following (lap : Lap ρ) : Risky Nat := do mod (← add lap.cursor 1) lap.stages.size

def settle (lap : Lap ρ) : Risky (Turn (Lap ρ) (Ending ρ)) :=
  if lap.stages.size ≤ lap.idle then
    .ok (.stop (lap.stages.toList, .error (.deadlock lap.cursor)))
  else do
    return .next { lap with cursor := ← following lap }

def settleIdle (lap : Lap ρ) : Risky (Turn (Lap ρ) (Ending ρ)) := do
  settle { lap with idle := ← add lap.idle 1 }

def handOn (lap : Lap ρ) : Risky (Turn (Lap ρ) (Ending ρ)) := do
  match (← get lap.stages lap.cursor).pop? with
  | none => return .stop (lap.stages.toList, .error .noOutput)
  | some (value, stage) =>
    let stages ← put lap.stages lap.cursor stage
    let place ← following lap
    let receiver ← get stages place
    let stages ← put stages place (receiver.push value)
    let answer := if lap.cursor + 1 = lap.stages.size then some value else lap.answer
    settle { lap with stages, idle := 0, answer }

def finish (lap : Lap ρ) : Risky (Turn (Lap ρ) (Ending ρ)) :=
  match lap.answer with
  | none => .ok (.stop (lap.stages.toList, .error .noOutput))
  | some value => .ok (.stop (lap.stages.toList, .ok value))

/-- What follows from the end of the run that the visited stage has made. -/
def conclude (lap : Lap ρ) (before : Status) : Except Fault Status →
    Risky (Turn (Lap ρ) (Ending ρ))
  | .error fault => .ok (.stop (lap.stages.toList, .error (.fault fault)))
  | .ok .afterOutput => handOn lap
  | .ok .halted =>
    if lap.cursor + 1 = lap.stages.size then finish lap
    else if before = .halted then settleIdle lap
    else settle { lap with idle := 0 }
  | .ok .awaitingInput | .ok .ready => settleIdle lap

variable [RiskyStore ρ]

def visit (budget : Nat) (lap : Lap ρ) : Option (Risky (Turn (Lap ρ) (Ending ρ))) :=
  match get lap.stages lap.cursor with
  | .error hazard => some (.error hazard)
  | .ok stage => (runToOutput budget stage).map fun ended => do
    let (after, result) ← ended
    let stages ← put lap.stages lap.cursor after
    conclude { lap with stages } stage.status result

/-- A hazard ends the loop. -/
def toTurn : Risky (Turn (Lap ρ) (Ending ρ)) → Turn (Lap ρ) (Option (Risky (Ending ρ)))
  | .error hazard => .stop (some (.error hazard))
  | .ok (.next lap) => .next lap
  | .ok (.stop ending) => .stop (some (.ok ending))

def visitTurn (budget : Nat) (lap : Lap ρ) : Turn (Lap ρ) (Option (Risky (Ending ρ))) :=
  match visit budget lap with
  | none => .stop none
  | some visited => toTurn visited

/-- A loop whose first stage has been given the signal. -/
def startLap (stages : Array (Machine ρ)) (signal : Word) : Risky (Lap ρ) := do
  let first ← get stages 0
  return ⟨← put stages 0 (first.push signal), 0, 0, none⟩

def runLoop (budget : Nat) (circuit : Circuit ρ) (signal : Word) : Option (Risky (Ending ρ)) :=
  if circuit.length = 0 then some (.ok (circuit, .error .noStages))
  else
    match startLap circuit.toArray signal with
    | .error hazard => some (.error hazard)
    | .ok lap => (iterate (visitTurn budget) budget lap).join

def runSeriesFrom (budget index : Nat) (signal : Word) : Circuit ρ → Option (Risky (Ending ρ))
  | [] => some (.ok ([], .ok signal))
  | stage :: rest =>
    match run budget (stage.push signal) with
    | none => none
    | some (.error hazard) => some (.error hazard)
    | some (.ok (stage, .error fault)) => some (.ok (stage :: rest, .error (.fault fault)))
    | some (.ok (stage, .ok .halted)) =>
      let (outputs, stage) := stage.drain
      match outputs.getLast? with
      | none => some (.ok (stage :: rest, .error .noOutput))
      | some signal => (runSeriesFrom budget (index + 1) signal rest).map fun ended => do
        let (rest, answer) ← ended
        return (stage :: rest, answer)
    | some (.ok (stage, .ok status)) =>
      some (.ok (stage :: rest, .error (.stageNotHalted index status)))

def runSeries (budget : Nat) (circuit : Circuit ρ) (signal : Word) : Option (Risky (Ending ρ)) :=
  match circuit with
  | [] => some (.ok ([], .error .noStages))
  | stages => runSeriesFrom budget 0 signal stages

def runCircuit (budget : Nat) (wiring : Wiring) (circuit : Circuit ρ) (signal : Word) :
    Option (Risky (Ending ρ)) :=
  match wiring with
  | .series => runSeries budget circuit signal
  | .loop => runLoop budget circuit signal

open Command

/-- Runs to the next output and prints it. -/
def soloTurn (budget : Nat) (solo : Solo ρ) :
    Turn (Solo ρ) (Option (Risky (Solo ρ × Except SoloFailure Unit))) :=
  match runToOutput budget solo.machine with
  | none => .stop none
  | some (.error hazard) => .stop (some (.error hazard))
  | some (.ok (machine, result)) =>
    let solo := { solo with machine }
    match result with
    | .error fault => .stop (some (.ok (solo, .error (.failure (.fault fault)))))
    | .ok .afterOutput =>
      match machine.pop? with
      | none => .stop (some (.ok (solo, .error (.failure .noOutput))))
      | some (value, machine) => .next ⟨machine, solo.printed ++ [value]⟩
    | .ok .halted => .stop (some (.ok (solo, .ok ())))
    | .ok .awaitingInput => .stop (some (.ok (solo, .error (.starved machine.toProcessor))))
    | .ok .ready => .stop (some (.error .unreachable))

def runSolo (budget : Nat) (solo : Solo ρ) : Option (Risky (Solo ρ × Except SoloFailure Unit)) :=
  (iterate (soloTurn budget) budget solo).join

end Risky

/-- The plain run with the store of its machine in another form. -/
def Command.Solo.inForm {σ ρ : Type} (form : σ → ρ) (solo : Solo σ) : Solo ρ :=
  ⟨solo.machine.inForm form, solo.printed⟩

theorem Command.Solo.start_inForm {σ ρ : Type} (form : σ → ρ) (machine : Machine σ)
    (entry : Option Word) (inputs : List Word) :
    start (machine.inForm form) entry inputs = (start machine entry inputs).inForm form := by
  rw [start, inForm, start, ← Machine.pushAll_inForm]
  rfl

namespace Ring

variable {σ ρ : Type} {n : Nat}

/-- The stages in an array, with their stores in another form. -/
def stages (form : σ → ρ) (ring : Ring σ n) : Array (Machine ρ) :=
  ring.toArray.map (Machine.inForm form)

theorem size_stages (form : σ → ρ) (ring : Ring σ n) : (ring.stages form).size = n + 1 := by
  rw [stages, Array.size_map, Vector.size_toArray]

theorem toList_stages (form : σ → ρ) (ring : Ring σ n) :
    (ring.stages form).toList = ring.toList.map (Machine.inForm form) := Array.toList_map

theorem get_stages (form : σ → ρ) (ring : Ring σ n) (stage : Fin (n + 1)) :
    Risky.get (ring.stages form) stage = .ok (ring[stage].inForm form) := by
  rw [Risky.get_of_lt (by rw [size_stages]; exact stage.isLt)]
  simp only [stages, Array.getElem_map]
  rfl

theorem put_stages (form : σ → ρ) (ring : Ring σ n) (stage : Fin (n + 1)) (machine : Machine σ) :
    Risky.put (ring.stages form) stage (machine.inForm form) =
      .ok ((ring.set stage machine).stages form) := by
  rw [Risky.put_of_lt (by rw [size_stages]; exact stage.isLt)]
  simp only [stages, Ring.set, Vector.toArray_set, Array.map_set]

end Ring

namespace Loop

variable {σ ρ : Type} {n : Nat} {form : σ → ρ}

def lap (form : σ → ρ) (loop : Loop σ n) : Lap ρ :=
  ⟨loop.ring.stages form, loop.cursor, loop.idle, loop.answer⟩

/-- A lap of a loop that has not had too many idle visits. -/
def OnLap (form : σ → ρ) (loop : Loop σ n) (lap : Lap ρ) : Prop :=
  lap = loop.lap form ∧ loop.idle ≤ n

def ending (form : σ → ρ) (outcome : Outcome σ n) : Option (Risky (Risky.Ending ρ)) :=
  outcome.map fun (ring, answer) => .ok (ring.toList.map (Machine.inForm form), answer)

/-- Both ways to go on with a loop lead to the same. -/
def Agrees (form : σ → ρ) (turn : Turn (Loop σ n) (Outcome σ n))
    (risky : Turn (Lap ρ) (Option (Risky (Risky.Ending ρ)))) : Prop :=
  turn.Matches (OnLap form) (fun outcome other => other = ending form outcome) risky

theorem size_lap (loop : Loop σ n) : (loop.lap form).stages.size = n + 1 :=
  Ring.size_stages form loop.ring

theorem at_end_iff (loop : Loop σ n) :
    (loop.lap form).cursor + 1 = (loop.lap form).stages.size ↔ loop.cursor = Fin.last n := by
  rw [size_lap, Fin.ext_iff, Fin.val_last, Nat.add_right_cancel_iff]
  rfl

theorem startLap_stages (ring : Ring σ n) (signal : Word) :
    Risky.startLap (ring.stages form) signal = .ok ((start ring signal).lap form) := by
  have hget : Risky.get (ring.stages form) 0 = .ok (ring[(0 : Fin (n + 1))].inForm form) :=
    ring.get_stages form 0
  have hput (machine : Machine σ) : Risky.put (ring.stages form) 0 (machine.inForm form) =
      .ok ((ring.set 0 machine).stages form) := ring.put_stages form 0 machine
  rw [Risky.startLap, hget, Risky.ok_bind, Machine.push_inForm, hput]
  rfl

theorem stop_agrees (loop : Loop σ n) (answer : Except Failure Word) :
    Agrees form (.stop (some (loop.ring, answer)))
      (Risky.toTurn (.ok (.stop ((loop.lap form).stages.toList, answer)))) := by
  refine .stop ?_
  rw [lap, Ring.toList_stages]
  rfl

theorem finish_agrees (loop : Loop σ n) :
    Agrees form loop.finish (Risky.toTurn (Risky.finish (loop.lap form))) := by
  unfold finish Risky.finish
  change Agrees form _ (Risky.toTurn (match loop.answer with
    | none => .ok (.stop (_, .error .noOutput))
    | some value => .ok (.stop (_, .ok value))))
  cases loop.answer with
  | none => exact loop.stop_agrees _
  | some value => exact loop.stop_agrees _

section Turns

variable (hn : n + 1 < 2 ^ 64)

include hn

theorem following_lap (loop : Loop σ n) :
    Risky.following (loop.lap form) = .ok (loop.cursor + 1 : Fin (n + 1)).val := by
  have hcursor := loop.cursor.isLt
  have hadd : loop.cursor.val + 1 < 2 ^ 64 := by omega
  rw [Risky.following, size_lap, lap, Risky.add_of_lt hadd, Risky.ok_bind,
    Risky.mod_of_pos (Nat.succ_pos n), Fin.val_add, Fin.val_one', Nat.add_mod_mod]

theorem settle_agrees (loop : Loop σ n) :
    Agrees form loop.settle (Risky.toTurn (Risky.settle (loop.lap form))) := by
  unfold settle Risky.settle
  rw [size_lap]
  by_cases hidle : n < loop.idle
  · have hidle' : n + 1 ≤ (loop.lap form).idle := hidle
    rw [if_pos hidle, if_pos hidle']
    exact loop.stop_agrees _
  · have hidle' : ¬n + 1 ≤ (loop.lap form).idle := hidle
    rw [if_neg hidle, if_neg hidle', following_lap hn]
    exact .next ⟨rfl, Nat.not_lt.mp hidle⟩

theorem settleIdle_agrees {loop : Loop σ n} (hidle : loop.idle ≤ n) :
    Agrees form (settle { loop with idle := loop.idle + 1 })
      (Risky.toTurn (Risky.settleIdle (loop.lap form))) := by
  have hadd : (loop.lap form).idle + 1 < 2 ^ 64 := Nat.lt_of_le_of_lt (Nat.succ_le_succ hidle) hn
  rw [Risky.settleIdle, Risky.add_of_lt hadd, Risky.ok_bind]
  exact settle_agrees hn _

theorem handOn_agrees (loop : Loop σ n) :
    Agrees form loop.handOn (Risky.toTurn (Risky.handOn (loop.lap form))) := by
  have hget : Risky.get (loop.lap form).stages (loop.lap form).cursor =
      .ok (loop.ring[loop.cursor].inForm form) := Ring.get_stages form loop.ring loop.cursor
  unfold handOn Risky.handOn
  rw [hget, Risky.ok_bind, Machine.pop?_inForm]
  cases hpop : loop.ring[loop.cursor].pop? with
  | none => exact loop.stop_agrees _
  | some popped =>
    obtain ⟨value, stage⟩ := popped
    have hput : Risky.put (loop.lap form).stages (loop.lap form).cursor (stage.inForm form) =
        .ok ((loop.ring.set loop.cursor stage).stages form) :=
      Ring.put_stages form loop.ring loop.cursor stage
    simp only [Option.map_some]
    rw [hput, Risky.ok_bind, following_lap hn, Risky.ok_bind, Ring.get_stages, Risky.ok_bind,
      Machine.push_inForm, Ring.put_stages, Risky.ok_bind, if_congr loop.at_end_iff rfl rfl]
    exact settle_agrees hn _

theorem conclude_agrees {loop : Loop σ n} (hidle : loop.idle ≤ n) (before : Status)
    (result : Except Fault Status) :
    Agrees form
      (match result with
        | .error fault => .stop (some (loop.ring, .error (.fault fault)))
        | .ok .afterOutput => loop.handOn
        | .ok .halted =>
          if loop.cursor = Fin.last n then loop.finish
          else settle { loop with idle := if before = .halted then loop.idle + 1 else 0 }
        | .ok .awaitingInput | .ok .ready => settle { loop with idle := loop.idle + 1 })
      (Risky.toTurn (Risky.conclude (loop.lap form) before result)) := by
  cases result with
  | error fault => exact loop.stop_agrees _
  | ok status =>
    cases status with
    | afterOutput => exact handOn_agrees hn loop
    | awaitingInput | ready => exact settleIdle_agrees hn hidle
    | halted =>
      simp only [Risky.conclude]
      rw [if_congr loop.at_end_iff rfl rfl]
      by_cases hlast : loop.cursor = Fin.last n
      · rw [if_pos hlast, if_pos hlast]
        exact loop.finish_agrees
      · rw [if_neg hlast, if_neg hlast]
        by_cases hbefore : before = .halted
        · rw [if_pos hbefore, if_pos hbefore]
          exact settleIdle_agrees hn hidle
        · rw [if_neg hbefore, if_neg hbefore]
          exact settle_agrees hn _

theorem visit_agrees [Store σ] [RiskyStore ρ] (hform : SafeForm form) (budget : Nat)
    {loop : Loop σ n} {lap : Lap ρ} (h : OnLap form loop lap) :
    Agrees form (loop.visit budget) (Risky.visitTurn budget lap) := by
  obtain ⟨rfl, hidle⟩ := h
  have hget : Risky.get (loop.lap form).stages (loop.lap form).cursor =
      .ok (loop.ring[loop.cursor].inForm form) := Ring.get_stages form loop.ring loop.cursor
  unfold visit Risky.visitTurn Risky.visit
  rw [hget]
  dsimp only
  rw [Risky.runToOutput_inForm hform]
  cases hrun : loop.ring[loop.cursor].runToOutput budget with
  | none => exact .stop rfl
  | some ended =>
    obtain ⟨stage, result⟩ := ended
    have hput : Risky.put (loop.lap form).stages (loop.lap form).cursor (stage.inForm form) =
        .ok ((loop.ring.set loop.cursor stage).stages form) :=
      Ring.put_stages form loop.ring loop.cursor stage
    let visited : Loop σ n := { loop with ring := loop.ring.set loop.cursor stage }
    have hvisited : visited.idle ≤ n := hidle
    simp only [Option.map_some, Risky.ok_bind]
    rw [hput, Risky.ok_bind]
    exact conclude_agrees hn hvisited _ result

end Turns

end Loop

namespace Circuit

variable {σ : Type} [Store σ] {budget : Nat} {circuit after : Circuit σ} {signal : Word}
  {answer : Except Failure Word}

theorem length_runSeriesFrom {index : Nat}
    (h : runSeriesFrom budget index signal circuit = some (after, answer)) :
    after.length = circuit.length := by
  induction circuit generalizing index signal after with
  | nil =>
    cases h
    rfl
  | cons stage rest ih =>
    rcases runSeriesFrom_cons_cases h with ⟨_, _, rfl, _⟩ | ⟨_, _, _, _, _, hrest, rfl⟩
    · rfl
    · exact congrArg (· + 1) (ih hrest)

/-- A run gives back as many stages as there are. -/
theorem length_run {wiring : Wiring} (h : circuit.run budget wiring signal = some (after, answer)) :
    after.length = circuit.length := by
  by_cases hnil : circuit = []
  · subst hnil
    cases wiring <;> cases h <;> rfl
  obtain ⟨n, ring, rfl⟩ := exists_ring hnil
  cases wiring with
  | loop =>
    obtain ⟨last, rfl, _⟩ := exists_of_runLoop h
    rw [Vector.length_toList, Vector.length_toList]
  | series =>
    obtain ⟨first, rest, hcons⟩ := List.exists_cons_of_ne_nil hnil
    rw [hcons] at h ⊢
    exact length_runSeriesFrom h

end Circuit

namespace Risky

variable {σ ρ : Type} [Store σ] [RiskyStore ρ] {form : σ → ρ} (hform : SafeForm form)

include hform

theorem runLoop_inForm (budget : Nat) {circuit : Circuit σ} (hsize : circuit.length < 2 ^ 64)
    (signal : Word) : runLoop budget (circuit.map (Machine.inForm form)) signal =
      (circuit.runLoop budget signal).map fun ended =>
        .ok (ended.1.map (Machine.inForm form), ended.2) := by
  unfold runLoop Circuit.runLoop
  cases circuit with
  | nil => rfl
  | cons first rest =>
    let ring : Ring σ rest.length := ⟨(first :: rest).toArray, Ring.size_toArray first rest⟩
    have hstages : ((first :: rest).map (Machine.inForm form)).toArray = ring.stages form := by
      rw [Ring.stages, List.map_toArray]
    have hstart : (Loop.start ring signal).idle ≤ rest.length := Nat.zero_le _
    have hloop := iterate_matches (fun _ _ h => Loop.visit_agrees hsize hform budget h) budget
      (⟨rfl, hstart⟩ : Loop.OnLap form (Loop.start ring signal) _)
    rw [if_neg (by simp), hstages, Loop.startLap_stages]
    dsimp only
    rw [eq_map_of_rel hloop]
    cases iterate (Loop.visit budget) budget (Loop.start ring signal) with
    | none => rfl
    | some outcome => cases outcome <;> rfl

theorem runSeriesFrom_inForm (budget index : Nat) (signal : Word) (circuit : Circuit σ) :
    runSeriesFrom budget index signal (circuit.map (Machine.inForm form)) =
      (circuit.runSeriesFrom budget index signal).map fun ended =>
        .ok (ended.1.map (Machine.inForm form), ended.2) := by
  induction circuit generalizing index signal with
  | nil => rfl
  | cons stage rest ih =>
    rw [List.map_cons, runSeriesFrom, Circuit.runSeriesFrom, Machine.push_inForm, run_inForm hform]
    cases (stage.push signal).run budget with
    | none => rfl
    | some ended =>
      obtain ⟨stopped, result⟩ := ended
      cases result with
      | error fault => rfl
      | ok status =>
        cases status with
        | ready | awaitingInput | afterOutput => rfl
        | halted =>
          have houtput : (stopped.inForm form).drain.1 = stopped.drain.1 := rfl
          simp only [Option.map_some, houtput]
          cases stopped.drain.1.getLast? with
          | none => rfl
          | some signal =>
            simp only
            rw [ih, Option.map_map, Option.map_map]
            rfl

theorem runCircuit_inForm (budget : Nat) (wiring : Wiring) {circuit : Circuit σ}
    (hsize : circuit.length < 2 ^ 64) (signal : Word) :
    runCircuit budget wiring (circuit.map (Machine.inForm form)) signal =
      (circuit.run budget wiring signal).map fun ended =>
        .ok (ended.1.map (Machine.inForm form), ended.2) := by
  cases wiring with
  | loop => exact runLoop_inForm hform budget hsize signal
  | series =>
    cases circuit with
    | nil => rfl
    | cons first rest => exact runSeriesFrom_inForm hform budget 0 signal (first :: rest)

open Command

theorem soloTurn_inForm (budget : Nat) (solo : Solo σ) :
    (solo.turn budget).Matches (fun solo other => other = solo.inForm form)
      (fun outcome other => other = outcome.map fun ended => .ok (ended.1.inForm form, ended.2))
      (soloTurn budget (solo.inForm form)) := by
  have hrun : runToOutput budget (solo.inForm form).machine = _ :=
    runToOutput_inForm hform budget solo.machine
  unfold Solo.turn soloTurn
  rw [hrun]
  cases hround : solo.machine.runToOutput budget with
  | none => exact .stop rfl
  | some ended =>
    obtain ⟨stopped, result⟩ := ended
    cases result with
    | error fault => exact .stop rfl
    | ok status =>
      cases status with
      | halted | awaitingInput => exact .stop rfl
      | afterOutput =>
        simp only [Option.map_some, Machine.pop?_inForm]
        cases stopped.pop? with
        | none => exact .stop rfl
        | some popped => exact .next rfl
      | ready => exact absurd rfl (Machine.ne_ready_of_round hround)

theorem runSolo_inForm (budget : Nat) (solo : Solo σ) :
    runSolo budget (solo.inForm form) =
      (solo.run budget).map fun ended => .ok (ended.1.inForm form, ended.2) := by
  have hturn (solo : Solo σ) (other : Solo ρ) (h : other = solo.inForm form) :
      (solo.turn budget).Matches (fun solo other => other = solo.inForm form)
        (fun outcome other => other = outcome.map fun ended => .ok (ended.1.inForm form, ended.2))
        (soloTurn budget other) := by
    rw [h]
    exact soloTurn_inForm hform budget solo
  rw [runSolo, Solo.run, eq_map_of_rel (iterate_matches hturn budget rfl)]
  cases iterate (Solo.turn budget) budget solo with
  | none => rfl
  | some outcome => cases outcome <;> rfl

end Risky

end Intcode
