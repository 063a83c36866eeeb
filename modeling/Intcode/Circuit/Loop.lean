import Intcode.Circuit.Basic

/-!
Stages in a ring. They are visited in turn: a stage runs to its next output, which goes to the
following stage, and the last stage hands on to the first. The loop ends when the last stage has
halted, and the answer is the last word that it handed on. A visit is idle if it moves no word and
does not see its stage halt for the first time; when a whole lap of visits has been idle, no stage
can go on.
-/
namespace Intcode

-- The number of stages is not zero because it is a successor; no other reason is to be looked for.
attribute [instance (1100)] Nat.instNeZeroSucc

abbrev Ring (σ : Type) (n : Nat) := Vector (Machine σ) (n + 1)

structure Loop (σ : Type) (n : Nat) where
  ring : Ring σ n
  /-- The stage to be visited. -/
  cursor : Fin (n + 1)
  /-- The number of idle visits since the last one that was not. -/
  idle : Nat
  /-- The word that the last stage handed on most recently. -/
  answer : Option Word

namespace Ring

variable {σ : Type} {n : Nat}

/-- Every stage has its place in the ring, so no proof goes with looking it up. -/
instance : GetElem (Ring σ n) (Fin (n + 1)) (Machine σ) fun _ _ => True where
  getElem ring stage _ := ring.get stage

def set (ring : Ring σ n) (stage : Fin (n + 1)) (machine : Machine σ) : Ring σ n :=
  Vector.set ring stage machine stage.isLt

theorem size_toArray (first : Machine σ) (rest : List (Machine σ)) :
    (first :: rest).toArray.size = rest.length + 1 := rfl

def send (ring : Ring σ n) (stage : Fin (n + 1)) (value : Word) : Ring σ n :=
  ring.set stage (ring[stage].push value)

end Ring

namespace Loop

variable {σ : Type} {n : Nat}

abbrev Outcome (σ : Type) (n : Nat) := Option (Ring σ n × Except Failure Word)

/-- A loop whose first stage has been given the signal and is to be visited. -/
def start (ring : Ring σ n) (signal : Word) : Loop σ n := ⟨ring.send 0 signal, 0, 0, none⟩

/-- Ends a visit: after a lap of idle visits the loop is stuck, otherwise the next stage is due. -/
def settle (loop : Loop σ n) : Turn (Loop σ n) (Outcome σ n) :=
  if n < loop.idle then .stop (some (loop.ring, .error (.deadlock loop.cursor)))
  else .next { loop with cursor := loop.cursor + 1 }

/-- Takes the oldest output of the visited stage to the following stage. -/
def handOn (loop : Loop σ n) : Turn (Loop σ n) (Outcome σ n) :=
  match loop.ring[loop.cursor].pop? with
  | none => .stop (some (loop.ring, .error .noOutput))
  | some (value, stage) =>
    settle
      { loop with
        ring := Ring.send (loop.ring.set loop.cursor stage) (loop.cursor + 1) value
        idle := 0
        answer := if loop.cursor = Fin.last n then some value else loop.answer }

/-- Ends the loop once the last stage has halted. -/
def finish (loop : Loop σ n) : Turn (Loop σ n) (Outcome σ n) :=
  match loop.answer with
  | none => .stop (some (loop.ring, .error .noOutput))
  | some value => .stop (some (loop.ring, .ok value))

variable [Store σ]

/-- Visits one stage; the budget is for its run. -/
def visit (budget : Nat) (loop : Loop σ n) : Turn (Loop σ n) (Outcome σ n) :=
  let before := loop.ring[loop.cursor].status
  match loop.ring[loop.cursor].runToOutput budget with
  | none => .stop none
  | some (stage, result) =>
    let loop := { loop with ring := loop.ring.set loop.cursor stage }
    match result with
    | .error fault => .stop (some (loop.ring, .error (.fault fault)))
    | .ok .afterOutput => loop.handOn
    | .ok .halted =>
      if loop.cursor = Fin.last n then loop.finish
      else settle { loop with idle := if before = .halted then loop.idle + 1 else 0 }
    | .ok .awaitingInput | .ok .ready => settle { loop with idle := loop.idle + 1 }

end Loop

namespace Circuit

variable {σ : Type} [Store σ]

/-- The circuit after the run, with the answer. The budget bounds the number of visits and the run
made by each. -/
def runLoop (budget : Nat) (circuit : Circuit σ) (signal : Word) :
    Option (Circuit σ × Except Failure Word) :=
  match circuit with
  | [] => some ([], .error .noStages)
  | first :: rest =>
    let ring : Ring σ rest.length := ⟨(first :: rest).toArray, Ring.size_toArray first rest⟩
    (iterate (Loop.visit budget) budget (Loop.start ring signal)).join.map fun (ring, answer) =>
      (ring.toList, answer)

end Circuit

end Intcode
