/-!
A process goes from state to state until it stops with an answer. It may never stop, so a run of it
has a budget of turns, and no answer within the budget is told apart from every answer.
-/
namespace Intcode

inductive Turn (α : Type u) (β : Type v) where
  | next (state : α)
  | stop (answer : β)

variable {α : Type u} {β : Type v} {ω : Type w}

/-- The answer of a process, if it comes within the budget. -/
@[specialize]
def iterate (turn : α → Turn α β) : Nat → α → Option β
  | 0, _ => none
  | budget + 1, state =>
    match turn state with
    | .next state => iterate turn budget state
    | .stop answer => some answer

/-- The notes taken on each state from which a turn is made, in order. -/
@[specialize]
def journal (turn : α → Turn α β) (notes : α → Array ω) : Nat → α → Array ω → Array ω
  | 0, _, taken => taken
  | budget + 1, state, taken =>
    let taken := taken ++ notes state
    match turn state with
    | .next state => journal turn notes budget state taken
    | .stop _ => taken

/-- A process that has answered gives the same answer on a larger budget. -/
theorem iterate_mono {turn : α → Turn α β} {budget : Nat} {state : α} {answer : β}
    (answered : iterate turn budget state = some answer) (more : Nat) :
    iterate turn (budget + more) state = some answer := by
  induction budget generalizing state with
  | zero => simp [iterate] at answered
  | succ budget ih =>
    rw [Nat.succ_add, iterate]
    rw [iterate] at answered
    split at answered
    · exact ih answered
    · exact answered

/-- A process has at most one answer, whatever the budgets. -/
theorem iterate_unique {turn : α → Turn α β} {budget other : Nat} {state : α} {answer wanted : β}
    (answered : iterate turn budget state = some answer)
    (again : iterate turn other state = some wanted) : answer = wanted := by
  have left := iterate_mono answered other
  have right := iterate_mono again budget
  rw [Nat.add_comm, left] at right
  exact Option.some.inj right

end Intcode
