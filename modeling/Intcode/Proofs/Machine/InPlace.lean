import Intcode.Machine.Basic
import Intcode.Proofs.Processor.Framing
import Intcode.Proofs.Machine.Course

/-!
A step in place: the machine is changed bit by bit, the store first, then the queues and the base,
then the program counter and the status, and work that fails keeps what it has changed by then. All
checks come before the first change, so such a step ends like one that computes the machine after it
as a whole: where it fails, nothing has been changed.
-/
namespace Intcode

/-- Work on a machine that is changed as the work goes on. A failure does not undo the changes. -/
abbrev Work (σ : Type) := EStateM Fault (Machine σ)

namespace Work

variable {σ α β : Type}

/-- The outcome of work that leaves the machine with the result. -/
def outcome : Machine σ × Except Fault α → EStateM.Result Fault (Machine σ) α
  | (machine, .ok value) => .ok value machine
  | (machine, .error fault) => .error fault machine

/-- Looks something up in the machine. -/
def look (find : Machine σ → Except Fault α) : Work σ α := fun machine =>
  outcome (machine, find machine)

section Sequence

variable {machine after : Machine σ} {fault : Fault} {value : α}

theorem outcome_eq_error_iff {ended : Machine σ × Except Fault α} :
    outcome ended = .error fault after ↔ ended = (after, .error fault) := by
  obtain ⟨machine, result⟩ := ended
  cases result with
  | ok value => exact ⟨nofun, nofun⟩
  | error cause =>
    constructor <;>
    · intro h
      cases h
      rfl

theorem look_ok {find : Machine σ → Except Fault α} (h : find machine = .ok value) :
    look find machine = .ok value machine := by
  rw [look, h]
  rfl

theorem look_error {find : Machine σ → Except Fault α} (h : find machine = .error fault) :
    look find machine = .error fault machine := by
  rw [look, h]
  rfl

theorem bind_ok {work : Work σ α} (h : work machine = .ok value after) (rest : α → Work σ β) :
    (work >>= rest) machine = rest value after := by
  simp only [bind, EStateM.bind, h]

theorem bind_error {work : Work σ α} (h : work machine = .error fault after)
    (rest : α → Work σ β) : (work >>= rest) machine = .error fault after := by
  simp only [bind, EStateM.bind, h]

end Sequence

variable [Store σ]

abbrev operand (parameter : Parameter) : Work σ Word :=
  look fun machine => parameter.value machine.base machine.memory

/-- Writes a word where the target parameter points to. -/
def assign (instruction : Instruction) (target : Parameter) (value : Word) : Work σ Unit := do
  let address ← look fun machine =>
    match target.address? machine.base with
    | none => .error (.immediateTarget machine.pc instruction.word)
    | some address => .ok address
  let cell ← look fun _ => address.cell
  modify fun machine => { machine with store := Store.write machine.store cell value }

/-- Carries the instruction out but for the program counter and the status, whose new values are the
result. -/
def carryOut (instruction : Instruction) : Work σ (Word × Status) := do
  let machine ← get
  let past := machine.pc + Int64.ofNat instruction.length
  match instruction.action with
  | .combine combination left right target =>
    let a ← operand left
    let b ← operand right
    assign instruction target (combination.apply a b)
    return (past, .ready)
  | .input target =>
    match machine.input with
    | [] => return (machine.pc, .awaitingInput)
    | value :: rest =>
      assign instruction target value
      modify fun machine => { machine with input := rest }
      return (past, .ready)
  | .output source =>
    let value ← operand source
    modify fun machine => { machine with output := machine.output ++ [value] }
    return (past, .afterOutput)
  | .jump condition subject destination =>
    let a ← operand subject
    let b ← operand destination
    return (if condition.holds a then b else past, .ready)
  | .adjustBase offset =>
    let distance ← operand offset
    modify fun machine => { machine with base := machine.base + distance }
    return (past, .ready)
  | .halt => return (machine.pc, .halted)

/-- One step in place. -/
def step : Work σ Status := do
  let machine ← get
  if machine.status = .halted then
    throw (.halted machine.pc)
  else
    let instruction ← look Machine.fetch
    let (pc, status) ← carryOut instruction
    modify fun machine => { machine with pc, status }
    return status

variable {machine : Machine σ} {instruction : Instruction} {fault : Fault}

theorem assign_ok {target : Parameter} {cell : Nat}
    (h : machine.target instruction target = .ok cell) (value : Word) :
    assign instruction target value machine =
      .ok () { machine with store := Store.write machine.store cell value } := by
  unfold Processor.target at h
  unfold assign
  cases haddress : target.address? machine.base with
  | none =>
    rw [haddress] at h
    cases h
  | some address =>
    rw [haddress] at h
    rw [bind_ok (look_ok (by rw [haddress])), bind_ok (look_ok h)]
    rfl

/-- Both the mode and the address of the target are checked before the store is written. -/
theorem assign_error {target : Parameter} (h : machine.target instruction target = .error fault)
    (value : Word) : assign instruction target value machine = .error fault machine := by
  unfold Processor.target at h
  unfold assign
  cases haddress : target.address? machine.base with
  | none =>
    rw [haddress] at h
    cases h
    rw [bind_error (look_error (by rw [haddress]))]
  | some address =>
    rw [haddress] at h
    rw [bind_ok (look_ok (by rw [haddress])), bind_error (look_error h)]

theorem carryOut_ok {move : Move} (h : machine.Executes machine.memory instruction move) :
    carryOut instruction machine = .ok (move.processor.pc, move.processor.status)
      { machine.perform move with pc := machine.pc, status := machine.status } := by
  have hget : (get : Work σ (Machine σ)) machine = .ok machine machine := rfl
  rw [carryOut, bind_ok hget]
  cases h with
  | combine haction hleft hright htarget =>
    simp only [haction]
    rw [bind_ok (look_ok hleft), bind_ok (look_ok hright), bind_ok (assign_ok htarget _)]
    rfl
  | wait haction hinput =>
    simp only [haction, hinput, Machine.perform]
    rw [← hinput]
    rfl
  | input haction hinput htarget =>
    simp only [haction, hinput]
    rw [bind_ok (assign_ok htarget _)]
    rfl
  | output haction hsource =>
    simp only [haction]
    rw [bind_ok (look_ok hsource)]
    rfl
  | @jump condition subject destination a b haction hsubject hdestination =>
    simp only [haction]
    rw [bind_ok (look_ok hsubject), bind_ok (look_ok hdestination)]
    cases condition.holds a with
    | true => rfl
    | false => rfl
  | adjustBase haction hoffset =>
    simp only [haction]
    rw [bind_ok (look_ok hoffset)]
    rfl
  | halt haction =>
    simp only [haction]
    rfl

/-- Whichever check fails, the machine is still unchanged. -/
theorem carryOut_error (h : machine.execute machine.memory instruction = .error fault) :
    carryOut instruction machine = .error fault machine := by
  have hget : (get : Work σ (Machine σ)) machine = .ok machine machine := rfl
  rw [carryOut, bind_ok hget]
  cases haction : instruction.action with
  | combine combination left right target =>
    simp only [Processor.execute, haction, bind_eq_error_iff] at h ⊢
    rcases h with hleft | ⟨a, hleft, hright | ⟨b, hright, htarget | ⟨cell, _, hdone⟩⟩⟩
    · rw [bind_error (look_error hleft)]
    · rw [bind_ok (look_ok hleft), bind_error (look_error hright)]
    · rw [bind_ok (look_ok hleft), bind_ok (look_ok hright), bind_error (assign_error htarget _)]
    · cases hdone
  | input target =>
    cases hinput : machine.input with
    | nil =>
      simp only [Processor.execute, haction, hinput] at h
      cases h
    | cons value rest =>
      simp only [Processor.execute, haction, hinput, bind_eq_error_iff] at h ⊢
      rcases h with htarget | ⟨cell, _, hdone⟩
      · rw [bind_error (assign_error htarget _)]
      · cases hdone
  | output source =>
    simp only [Processor.execute, haction, bind_eq_error_iff] at h ⊢
    rcases h with hsource | ⟨value, _, hdone⟩
    · rw [bind_error (look_error hsource)]
    · cases hdone
  | jump condition subject destination =>
    simp only [Processor.execute, haction, bind_eq_error_iff] at h ⊢
    rcases h with hsubject | ⟨a, hsubject, hdestination | ⟨b, _, hdone⟩⟩
    · rw [bind_error (look_error hsubject)]
    · rw [bind_ok (look_ok hsubject), bind_error (look_error hdestination)]
    · cases hdone
  | adjustBase offset =>
    simp only [Processor.execute, haction, bind_eq_error_iff] at h ⊢
    rcases h with hoffset | ⟨distance, _, hdone⟩
    · rw [bind_error (look_error hoffset)]
    · cases hdone
  | halt =>
    simp only [Processor.execute, haction] at h
    cases h

/-- A step in place ends like a step as a whole. -/
theorem step_eq (machine : Machine σ) : step machine = outcome machine.step := by
  have hget : (get : Work σ (Machine σ)) machine = .ok machine machine := rfl
  rw [step, bind_ok hget, Machine.step]
  cases hmove : machine.move with
  | error fault =>
    by_cases hstatus : machine.status = .halted
    · rw [Machine.move, Processor.move, if_pos hstatus] at hmove
      cases hmove
      rw [if_pos hstatus]
      rfl
    · rw [Machine.move, Processor.move, if_neg hstatus, bind_eq_error_iff] at hmove
      rw [if_neg hstatus]
      rcases hmove with hfetch | ⟨instruction, hfetch, hexecute⟩
      · rw [bind_error (look_error hfetch)]
        rfl
      · rw [bind_ok (look_ok hfetch), bind_error (carryOut_error hexecute)]
        rfl
  | ok move =>
    obtain ⟨hstatus, instruction, hfetch, hexecutes⟩ := Processor.executes_of_move hmove
    have hprocessor := machine.toProcessor_perform move
    have hpc : (machine.perform move).pc = move.processor.pc := congrArg Processor.pc hprocessor
    have hdone : (machine.perform move).status = move.processor.status :=
      congrArg Processor.status hprocessor
    rw [if_neg hstatus, bind_ok (look_ok hfetch), bind_ok (carryOut_ok hexecutes)]
    dsimp only [outcome]
    rw [← hpc, ← hdone]
    rfl

end Work

end Intcode
