import Intcode.Circuit.Run
import Intcode.Log.Machine

/-!
The events of a circuit's runs. The events of a stage's own run come before what the circuit does
with its output.
-/
namespace Intcode.Log

variable {σ : Type} [Store σ] [Parking σ]

def seriesEvents (threshold : Option Level) (budget index : Nat) (signal : Word) :
    Circuit σ → Array Event
  | [] => #[]
  | stage :: rest =>
    let pushed := stage.push signal
    let events := keep threshold (pushEvents stage signal) ++ runEvents threshold budget pushed
    match pushed.run budget with
    | some (stage, .ok .halted) =>
      match stage.output.getLast? with
      | none => events
      | some signal =>
        events ++ keep threshold #[.produced index signal] ++
          seriesEvents threshold budget (index + 1) signal rest
    | _ => events

variable {n : Nat}

/-- The events of handing on the oldest output of a ring's stage. -/
def handOnEvents (ring : Ring σ n) (stage : Fin (n + 1)) : Array Event :=
  match ring[stage].pop? with
  | none => #[]
  | some (value, popped) =>
    #[.handedOn stage (stage + 1 : Fin (n + 1)) value] ++
      pushEvents (ring.set stage popped)[stage + 1] value

def visitEvents (threshold : Option Level) (budget : Nat) (loop : Loop σ n) : Array Event :=
  let events := runToOutputEvents threshold budget loop.ring[loop.cursor]
  match loop.ring[loop.cursor].runToOutput budget with
  | some (stage, .ok .afterOutput) =>
    events ++ keep threshold (handOnEvents (loop.ring.set loop.cursor stage) loop.cursor)
  | _ =>
    match Loop.visit budget loop with
    | .stop (some (_, .error (.deadlock stage))) => events ++ keep threshold #[.stuck stage]
    | _ => events

def circuitEvents (threshold : Option Level) (budget : Nat) (wiring : Wiring) (circuit : Circuit σ)
    (signal : Word) : Array Event :=
  match wiring, circuit with
  | _, [] => #[]
  | .series, stages => seriesEvents threshold budget 0 signal stages
  | .loop, first :: rest =>
    let ring : Ring σ rest.length := ⟨(first :: rest).toArray, Ring.size_toArray first rest⟩
    journal (Loop.visit budget) (visitEvents threshold budget) budget (Loop.start ring signal)
      (keep threshold (pushEvents first signal))

end Intcode.Log
