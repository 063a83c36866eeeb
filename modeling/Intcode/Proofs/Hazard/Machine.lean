import Intcode.Proofs.Hazard.Store
import Intcode.Proofs.Instruction.Packed
import Intcode.Proofs.Machine.Rounds
import Intcode.Proofs.Machine.Session

/-!
A machine with its hazards. The parameters of an instruction stand in an array with three places,
and the instruction looks them up by number; a run gives the status that it finds in the machine
when it has ended. Nothing that is asked of a machine comes to a hazard, whatever its state, and a
run ends in no other status than it may.
-/
namespace Intcode

theorem Opcode.arity_le (opcode : Opcode) : opcode.arity ≤ 3 := by
  cases opcode <;> simp [arity]

namespace Risky

/-- The array with the parameters; an instruction need not use every place. -/
def places (instruction : Instruction) : Array Parameter :=
  Array.ofFn fun place : Fin 3 => instruction.parameters.getD place ⟨.position, 0⟩

/-- The parameters of the instruction alone, as a listing shows them. -/
def listed (instruction : Instruction) : Risky (Array Parameter) :=
  front (places instruction) instruction.opcode.arity

section Execute

variable (processor : Processor) (memory : Memory) (instruction : Instruction)

/-- The value of the parameter with this number. -/
def value (place : Nat) : Attempt Word := do
  let parameter ← .risk (get (places instruction) place)
  .safe (parameter.value processor.base memory)

/-- The cell that the parameter with this number refers to. -/
def target (place : Nat) : Attempt Nat := do
  let parameter ← .risk (get (places instruction) place)
  .safe (processor.target instruction parameter)

def execute : Attempt Move :=
  let next := processor.advance instruction
  match instruction.opcode with
  | .combine combination => do
    let a ← value processor memory instruction 0
    let b ← value processor memory instruction 1
    let cell ← target processor instruction 2
    return ⟨next, some (cell, combination.apply a b)⟩
  | .input =>
    match processor.input with
    | [] => return ⟨{ processor with status := .awaitingInput }, none⟩
    | value :: rest => do
      let cell ← target processor instruction 0
      return ⟨{ next with input := rest }, some (cell, value)⟩
  | .output => do
    let value ← value processor memory instruction 0
    return ⟨{ next with output := processor.output ++ [value], status := .afterOutput }, none⟩
  | .jump condition => do
    let a ← value processor memory instruction 0
    let b ← value processor memory instruction 1
    return ⟨if condition.holds a then { next with pc := b } else next, none⟩
  | .adjustBase => do
    let distance ← value processor memory instruction 0
    return ⟨{ next with base := processor.base + distance }, none⟩
  | .halt => return ⟨{ processor with status := .halted }, none⟩

end Execute

section Machine

variable {ρ : Type} [RiskyStore ρ]

def perform (machine : Machine ρ) (move : Move) : Risky (Machine ρ) :=
  match move.write with
  | none => .ok { machine with toProcessor := move.processor }
  | some (cell, value) => do
    return ⟨move.processor, ← RiskyStore.write machine.store cell value⟩

/-- Carries out an instruction that has been fetched, once a record of it has been made. -/
def carryOut (machine : Machine ρ) (instruction : Instruction) :
    Risky (Machine ρ × Except Fault Status) := do
  let _ ← listed instruction
  match ← (execute machine.toProcessor (RiskyStore.memory machine.store) instruction).run with
  | .error fault => return (machine, .error fault)
  | .ok move => return (← perform machine move, .ok move.processor.status)

def step (machine : Machine ρ) : Risky (Machine ρ × Except Fault Status) :=
  if machine.status = .halted then .ok (machine, .error (.halted machine.pc))
  else
    match Instruction.fetch (RiskyStore.memory machine.store) machine.pc with
    | .error fault => .ok (machine, .error fault)
    | .ok instruction => carryOut machine instruction

/-- A run breaks off after a step with one of these statuses. -/
def breaksRun : Status → Bool
  | .awaitingInput => true
  | .ready | .halted | .afterOutput => false

def breaksRunToOutput : Status → Bool
  | .awaitingInput | .afterOutput => true
  | .ready | .halted => false

def turn (breaks : Status → Bool) (machine : Machine ρ) :
    Turn (Machine ρ) (Risky (Machine ρ × Except Fault Status)) :=
  if machine.status = .halted then .stop (.ok (machine, .ok machine.status))
  else
    match step machine with
    | .error hazard => .stop (.error hazard)
    | .ok (after, .error fault) => .stop (.ok (after, .error fault))
    | .ok (after, .ok status) =>
      if breaks status ∨ after.status = .halted then .stop (.ok (after, .ok after.status))
      else .next after

def run (budget : Nat) (machine : Machine ρ) : Option (Risky (Machine ρ × Except Fault Status)) :=
  iterate (turn breaksRun) budget machine

def runToOutput (budget : Nat) (machine : Machine ρ) :
    Option (Risky (Machine ρ × Except Fault Status)) :=
  iterate (turn breaksRunToOutput) budget machine

def patch (machine : Machine ρ) (address value : Word) : Risky (Machine ρ × Reply) := do
  match ← (writeAt machine.store address value).run with
  | .error fault => return (machine, .refused fault)
  | .ok store => return ({ machine with store }, .done)

/-- The machine after the request, with its reply. -/
def call (budget : Nat) (machine : Machine ρ) : Request → Option (Risky (Machine ρ × Reply))
  | .push value => some (.ok (machine.push value, .done))
  | .step => some do
    let (after, result) ← step machine
    return (after, .status result)
  | .run => (run budget machine).map fun ended => do
    let (after, result) ← ended
    return (after, .status result)
  | .runToOutput => (runToOutput budget machine).map fun ended => do
    let (after, result) ← ended
    return (after, .status result)
  | .pop =>
    match machine.pop? with
    | none => some (.ok (machine, .oldest none))
    | some (value, machine) => some (.ok (machine, .oldest (some value)))
  | .drain => some (.ok (machine.drain.2, .words machine.drain.1))
  | .hasOutput => some (.ok (machine, .holds (!machine.output.isEmpty)))
  | .fetch =>
    let result := Instruction.fetch (RiskyStore.memory machine.store) machine.pc
    some (.ok (machine, .instruction result))
  | .read address => some (.ok (machine, .word ((RiskyStore.memory machine.store).read address)))
  | .patch address value => some (patch machine address value)
  | .setPc value => some (.ok ({ machine with pc := value }, .done))
  | .setBase value => some (.ok ({ machine with base := value }, .done))

end Machine

section Execute

theorem size_places (instruction : Instruction) : (places instruction).size = 3 := Array.size_ofFn

theorem listed_eq (instruction : Instruction) :
    listed instruction = .ok ((places instruction).take instruction.opcode.arity) := by
  refine front_of_le ?_
  rw [size_places]
  exact instruction.opcode.arity_le

variable {processor : Processor} {memory : Memory} {instruction : Instruction}
  {parameters : List Parameter} {parameter : Parameter}

theorem get_places (place : Nat) (hparameters : instruction.parameters = parameters)
    (h : parameters[place]? = some parameter) :
    get (places instruction) place = .ok parameter := by
  have hplace : place < (places instruction).size := by
    have hlength : instruction.parameters.length = instruction.opcode.arity :=
      instruction.action.length_parameters
    have harity := instruction.opcode.arity_le
    obtain ⟨hinside, _⟩ := List.getElem?_eq_some_iff.mp h
    rw [hparameters] at hlength
    rw [size_places]
    omega
  rw [get_of_lt hplace]
  simp [places, List.getD_eq_getElem?_getD, hparameters, h]

theorem value_eq (place : Nat) (hparameters : instruction.parameters = parameters)
    (h : parameters[place]? = some parameter) :
    value processor memory instruction place = .safe (parameter.value processor.base memory) := by
  rw [value, get_places place hparameters h, Attempt.risk_ok_bind]

theorem target_eq (place : Nat) (hparameters : instruction.parameters = parameters)
    (h : parameters[place]? = some parameter) :
    target processor instruction place = .safe (processor.target instruction parameter) := by
  rw [target, get_places place hparameters h, Attempt.risk_ok_bind]

/-- An instruction looks up no parameter but its own. -/
theorem execute_eq (processor : Processor) (memory : Memory) (instruction : Instruction) :
    execute processor memory instruction = .safe (processor.execute memory instruction) := by
  unfold execute Processor.execute Instruction.opcode
  cases haction : instruction.action with
  | combine combination left right target =>
    have hparameters : instruction.parameters = [left, right, target] :=
      congrArg Action.parameters haction
    simp only [Action.opcode]
    rw [value_eq 0 hparameters rfl, value_eq 1 hparameters rfl, target_eq 2 hparameters rfl]
    simp only [Attempt.pure_eq_safe, Attempt.safe_bind]
    rfl
  | input target =>
    have hparameters : instruction.parameters = [target] := congrArg Action.parameters haction
    simp only [Action.opcode]
    cases processor.input with
    | nil => rfl
    | cons value rest =>
      simp only
      rw [target_eq 0 hparameters rfl]
      simp only [Attempt.pure_eq_safe, Attempt.safe_bind]
      rfl
  | output source =>
    have hparameters : instruction.parameters = [source] := congrArg Action.parameters haction
    simp only [Action.opcode]
    rw [value_eq 0 hparameters rfl]
    simp only [Attempt.pure_eq_safe, Attempt.safe_bind]
    rfl
  | jump condition subject destination =>
    have hparameters : instruction.parameters = [subject, destination] :=
      congrArg Action.parameters haction
    simp only [Action.opcode]
    rw [value_eq 0 hparameters rfl, value_eq 1 hparameters rfl]
    simp only [Attempt.pure_eq_safe, Attempt.safe_bind]
    rfl
  | adjustBase offset =>
    have hparameters : instruction.parameters = [offset] := congrArg Action.parameters haction
    simp only [Action.opcode]
    rw [value_eq 0 hparameters rfl]
    simp only [Attempt.pure_eq_safe, Attempt.safe_bind]
    rfl
  | halt => rfl

end Execute

end Risky

/-- A move only writes a cell that has an address. -/
theorem Processor.cell_lt_of_execute {processor : Processor} {memory : Memory}
    {instruction : Instruction} {move : Move} {cell : Nat} {value : Word}
    (h : processor.execute memory instruction = .ok move)
    (hwrite : move.write = some (cell, value)) : cell < 2 ^ 63 := by
  have htarget {target : Parameter} (h : processor.target instruction target = .ok cell) :
      cell < 2 ^ 63 := by
    unfold Processor.target at h
    split at h
    · cases h
    · exact Word.cell_lt h
  cases executes_of_execute h with
  | combine _ _ _ hcell | input _ _ hcell =>
    cases hwrite
    exact htarget hcell
  | wait | output | jump | adjustBase | halt => cases hwrite

namespace Machine

variable {σ ρ : Type}

/-- The status that a step reports is the one that it leaves. -/
theorem status_of_step [Store σ] {machine after : Machine σ} {status : Status}
    (h : machine.step = (after, .ok status)) : after.status = status := by
  cases machine.stepping with
  | halted _ _ hstep | failed _ _ _ hstep => cases hstep.symm.trans h
  | waited _ _ _ hstep | silent _ _ _ _ _ hstep | spoke _ _ _ _ _ _ hstep =>
    cases hstep.symm.trans h
    rfl

theorem pop?_isSome_of_output {machine : Machine σ} {words : List Word} {value : Word}
    (h : machine.output = words ++ [value]) : machine.pop?.isSome := by
  rw [pop?, Processor.pop?, h]
  cases words <;> rfl

/-- The oldest output can be taken after a step that has put one out. -/
theorem pop?_of_step [Store σ] {machine after : Machine σ}
    (h : machine.step = (after, .ok .afterOutput)) : after.pop?.isSome := by
  have hstatus := status_of_step h
  cases machine.stepping with
  | halted _ _ hstep | failed _ _ _ hstep | waited _ _ _ hstep => cases hstep.symm.trans h
  | silent _ _ hready _ _ hstep =>
    obtain ⟨rfl, _⟩ := Prod.mk.inj (hstep.symm.trans h)
    rcases hready with hready | hready <;> cases hready.symm.trans hstatus
  | spoke _ _ _ value houtput _ hstep =>
    obtain ⟨rfl, _⟩ := Prod.mk.inj (hstep.symm.trans h)
    exact pop?_isSome_of_output houtput

/-- So it can whatever the machine was asked for when it put one out. -/
theorem pop?_of_call [Store σ] {machine after : Machine σ} {budget : Nat} {request : Request}
    (h : machine.call budget request = some (after, .status (.ok .afterOutput))) :
    after.pop?.isSome := by
  cases request with
  | step =>
    obtain ⟨hafter, hstatus⟩ := Prod.mk.inj (Option.some.inj h)
    exact pop?_of_step (Prod.ext hafter (Reply.status.inj hstatus))
  | run =>
    obtain ⟨⟨stopped, result⟩, hrun, hpair⟩ := Option.map_eq_some_iff.mp h
    cases hpair
    exact absurd rfl (run_stopped hrun).2.ne_afterOutput
  | runToOutput =>
    obtain ⟨⟨stopped, result⟩, hround, hpair⟩ := Option.map_eq_some_iff.mp h
    cases hpair
    rcases end_of_round hround with ⟨hstopped, _⟩ | ⟨_, value, houtput⟩
    · exact absurd rfl hstopped.ne_afterOutput
    · exact pop?_isSome_of_output houtput
  | pop =>
    rw [call] at h
    split at h <;> cases h
  | patch address value =>
    rw [call] at h
    split at h <;> cases h
  | push | drain | hasOutput | fetch | read | setPc | setBase => cases h

/-- A run to the next output never ends with a machine that is ready. -/
theorem ne_ready_of_round [Store σ] {machine stopped : Machine σ} {budget : Nat} {status : Status}
    (h : machine.runToOutput budget = some (stopped, .ok status)) : status ≠ .ready := by
  rintro rfl
  rcases end_of_round h with ⟨hstopped, _⟩ | ⟨hresult, _⟩
  · rcases hstopped.halted_or_waiting with hstatus | hstatus <;> cases hstatus
  · cases hresult

/-- The machine with its store in another form. -/
def inForm (form : σ → ρ) (machine : Machine σ) : Machine ρ :=
  ⟨machine.toProcessor, form machine.store⟩

theorem toProcessor_inForm (form : σ → ρ) (machine : Machine σ) :
    (machine.inForm form).toProcessor = machine.toProcessor := rfl

theorem push_inForm (form : σ → ρ) (machine : Machine σ) (value : Word) :
    (machine.inForm form).push value = (machine.push value).inForm form := rfl

theorem pushAll_inForm (form : σ → ρ) (machine : Machine σ) (values : List Word) :
    (machine.inForm form).pushAll values = (machine.pushAll values).inForm form := by
  induction values generalizing machine with
  | nil => rfl
  | cons value rest ih => exact ih (machine.push value)

theorem pop?_inForm (form : σ → ρ) (machine : Machine σ) :
    (machine.inForm form).pop? =
      machine.pop?.map fun (value, rest) => (value, rest.inForm form) := by
  rw [pop?, pop?, Option.map_map]
  rfl

end Machine

namespace Risky

open Machine (toProcessor_inForm status_of_step)

variable {σ ρ : Type} [Store σ] [RiskyStore ρ] {form : σ → ρ} (hform : SafeForm form)

include hform

theorem perform_inForm (machine : Machine σ) {move : Move}
    (h : ∀ cell value, move.write = some (cell, value) → cell < 2 ^ 63) :
    perform (machine.inForm form) move = .ok ((machine.perform move).inForm form) := by
  unfold perform Machine.perform
  cases hwrite : move.write with
  | none => rfl
  | some write =>
    obtain ⟨cell, value⟩ := write
    have hstore := hform.write machine.store (h cell value hwrite) value
    change (do return (⟨move.processor, ← RiskyStore.write (form machine.store) cell value⟩ :
      Machine ρ)) = _
    rw [hstore]
    rfl

theorem memory_inForm (machine : Machine σ) :
    RiskyStore.memory (machine.inForm form).store = machine.memory := hform.memory machine.store

theorem carryOut_error {machine : Machine σ} {instruction : Instruction} {fault : Fault}
    (h : machine.execute machine.memory instruction = .error fault) :
    carryOut (machine.inForm form) instruction = .ok (machine.inForm form, .error fault) := by
  rw [carryOut, listed_eq, ok_bind, memory_inForm hform, toProcessor_inForm, execute_eq,
    Attempt.run_safe, ok_bind, h]
  rfl

theorem carryOut_ok {machine : Machine σ} {instruction : Instruction} {move : Move}
    (h : machine.execute machine.memory instruction = .ok move) :
    carryOut (machine.inForm form) instruction =
      .ok ((machine.perform move).inForm form, .ok move.processor.status) := by
  have hperform := perform_inForm hform machine fun _ _ => Processor.cell_lt_of_execute h
  rw [carryOut, listed_eq, ok_bind, memory_inForm hform, toProcessor_inForm, execute_eq,
    Attempt.run_safe, ok_bind, h]
  dsimp only
  rw [hperform]
  rfl

theorem step_inForm (machine : Machine σ) :
    step (machine.inForm form) = .ok (machine.step.1.inForm form, machine.step.2) := by
  by_cases hstatus : machine.status = .halted
  · have hmove : machine.move = .error (.halted machine.pc) := by
      rw [Machine.move, Processor.move, if_pos hstatus]
    rw [step, toProcessor_inForm, if_pos hstatus, Machine.step, hmove]
  rw [step, toProcessor_inForm, if_neg hstatus, memory_inForm hform]
  cases hfetch : Instruction.fetch machine.memory machine.pc with
  | error fault =>
    have hmove : machine.move = .error fault := by
      rw [Machine.move, Processor.move, if_neg hstatus, hfetch]
      rfl
    rw [Machine.step, hmove]
  | ok instruction =>
    have hmove : machine.move = machine.execute machine.memory instruction := by
      rw [Machine.move, Processor.move, if_neg hstatus, hfetch]
      rfl
    rw [Machine.step, hmove]
    cases hexecute : machine.execute machine.memory instruction with
    | error fault => exact carryOut_error hform hexecute
    | ok move => exact carryOut_ok hform hexecute

/-- A turn ends in the status that the machine has been left in. -/
theorem turn_inForm {breaks ends : Status → Bool}
    (hends : ∀ status, ends status = (breaks status || status == .halted)) (machine : Machine σ) :
    (Machine.turn ends machine).Matches (fun machine other => other = machine.inForm form)
      (fun ended other => other = .ok (ended.1.inForm form, ended.2))
      (turn breaks (machine.inForm form)) := by
  unfold turn Machine.turn
  rw [toProcessor_inForm, step_inForm hform]
  by_cases hstatus : machine.status = .halted
  · rw [if_pos hstatus, if_pos hstatus, hstatus]
    exact .stop rfl
  rw [if_neg hstatus, if_neg hstatus]
  rcases hstep : machine.step with ⟨after, result⟩
  cases result with
  | error fault => exact .stop rfl
  | ok status =>
    have hafter := status_of_step hstep
    have hbreaks : ends status ↔ breaks status ∨ after.status = .halted := by
      rw [hends, hafter, Bool.or_eq_true, beq_iff_eq]
    dsimp only
    rw [toProcessor_inForm, if_congr hbreaks rfl rfl]
    split
    · rw [hafter]
      exact .stop rfl
    · exact .next rfl

theorem iterate_inForm {breaks ends : Status → Bool}
    (hends : ∀ status, ends status = (breaks status || status == .halted)) (budget : Nat)
    (machine : Machine σ) : iterate (turn breaks) budget (machine.inForm form) =
      (iterate (Machine.turn ends) budget machine).map fun ended =>
        .ok (ended.1.inForm form, ended.2) := by
  have hturn (machine : Machine σ) (other : Machine ρ) (h : other = machine.inForm form) :
      (Machine.turn ends machine).Matches (fun machine other => other = machine.inForm form)
        (fun ended other => other = .ok (ended.1.inForm form, ended.2)) (turn breaks other) := by
    rw [h]
    exact turn_inForm hform hends machine
  exact eq_map_of_rel (iterate_matches hturn budget rfl)

theorem run_inForm (budget : Nat) (machine : Machine σ) :
    run budget (machine.inForm form) =
      (machine.run budget).map fun ended => .ok (ended.1.inForm form, ended.2) :=
  iterate_inForm hform (fun status => by cases status <;> rfl) budget machine

theorem runToOutput_inForm (budget : Nat) (machine : Machine σ) :
    runToOutput budget (machine.inForm form) =
      (machine.runToOutput budget).map fun ended => .ok (ended.1.inForm form, ended.2) :=
  iterate_inForm hform (fun status => by cases status <;> rfl) budget machine

theorem patch_inForm (machine : Machine σ) (address value : Word) :
    patch (machine.inForm form) address value =
      .ok (match machine.patch address value with
        | .error fault => (machine.inForm form, .refused fault)
        | .ok after => (after.inForm form, .done)) := by
  have hwrite : writeAt (machine.inForm form).store address value = _ :=
    hform.writeAt machine.store address value
  rw [patch, hwrite, Attempt.run_safe, ok_bind, Machine.patch, Store.writeAt]
  cases address.cell <;> rfl

/-- Whatever is asked of a machine in its other form, it answers as it does in this one. -/
theorem call_inForm (budget : Nat) (machine : Machine σ) (request : Request) :
    call budget (machine.inForm form) request =
      (machine.call budget request).map fun called => .ok (called.1.inForm form, called.2) := by
  have hmemory := memory_inForm hform machine
  cases request with
  | push | drain | hasOutput | setPc | setBase => rfl
  | step =>
    rw [call, step_inForm hform]
    rfl
  | run =>
    rw [call, run_inForm hform, Machine.call, Option.map_map, Option.map_map]
    rfl
  | runToOutput =>
    rw [call, runToOutput_inForm hform, Machine.call, Option.map_map, Option.map_map]
    rfl
  | pop =>
    rw [call, Machine.pop?_inForm, Machine.call]
    cases machine.pop? <;> rfl
  | fetch =>
    rw [call, hmemory]
    rfl
  | read address =>
    rw [call, hmemory]
    rfl
  | patch address value =>
    rw [call, patch_inForm hform, Machine.call]
    cases machine.patch address value <;> rfl

end Risky

end Intcode
