import Intcode.Proofs.Machine.Course
import Intcode.Proofs.Machine.Session

/-!
What its status says of a machine. As long as nobody patches the store or sets a register, a halted
machine is at a halt, one that waits is at an input instruction with nothing to take in, and one that
has just put a word out is right behind an output instruction. Whatever is done to a machine, one
that waits has an empty input, and one that has halted stays as it is but for its queues.
-/
namespace Intcode

/-- Requests to change the store or a register from outside, which no program makes by itself. -/
def Request.overrides : Request → Bool
  | .patch .. | .setPc _ | .setBase _ => true
  | _ => false

namespace Machine

variable {σ : Type} [Store σ]

/-- The property survives new input, steps, and the taking of output. -/
structure Invariant (P : Machine σ → Prop) : Prop where
  push : ∀ machine value, P machine → P (machine.push value)
  step : ∀ machine, P machine → P machine.step.1
  output : ∀ (machine : Machine σ) (output : List Word), P machine →
    P { machine with output := output }

/-- The property survives whatever is done to a machine. -/
structure StrongInvariant (P : Machine σ → Prop) : Prop extends Invariant P where
  override : ∀ (machine : Machine σ) (store : σ) (pc base : Word), P machine →
    P { machine with store := store, pc := pc, base := base }

section Invariants

variable {P : Machine σ → Prop} {machine next last : Machine σ} {budget : Nat}

theorem Invariant.run (h : Invariant P) {ends : Status → Bool} {result : Except Fault Status}
    (hrun : iterate (turn ends) budget machine = some (next, result)) (hmachine : P machine) :
    P next := by
  refine run_keeps (fun _ => (#[] : Array Unit)) (fun state _ => P state) ?_ #[] hmachine hrun
  intro state _ hstate
  exact h.step state hstate

theorem Invariant.call (h : Invariant P) {request : Request} {reply : Reply}
    (hrequest : request.overrides = false)
    (hcall : machine.call budget request = some (next, reply)) (hmachine : P machine) :
    P next := by
  cases request with
  | push value =>
    cases hcall
    exact h.push machine value hmachine
  | step =>
    cases hcall
    exact h.step machine hmachine
  | run | runToOutput =>
    obtain ⟨⟨stopped, result⟩, hrun, heq⟩ := Option.map_eq_some_iff.mp hcall
    cases heq
    exact h.run hrun hmachine
  | pop =>
    rw [Machine.call, pop?, Processor.pop?] at hcall
    cases houtput : machine.output with
    | nil =>
      rw [houtput] at hcall
      cases hcall
      exact hmachine
    | cons value rest =>
      rw [houtput] at hcall
      cases hcall
      exact h.output machine rest hmachine
  | drain =>
    cases hcall
    exact h.output machine [] hmachine
  | hasOutput | fetch | read =>
    cases hcall
    exact hmachine
  | patch | setPc | setBase => cases hrequest

theorem StrongInvariant.call (h : StrongInvariant P) {request : Request} {reply : Reply}
    (hcall : machine.call budget request = some (next, reply)) (hmachine : P machine) :
    P next := by
  cases hrequest : request.overrides with
  | false => exact h.toInvariant.call hrequest hcall hmachine
  | true =>
    cases request with
    | patch address value =>
      rw [Machine.call, Machine.patch] at hcall
      cases hcell : address.cell with
      | error fault =>
        rw [hcell] at hcall
        cases hcall
        exact hmachine
      | ok cell =>
        rw [hcell] at hcall
        cases hcall
        exact h.override machine _ machine.pc machine.base hmachine
    | setPc value =>
      cases hcall
      exact h.override machine machine.store value machine.base hmachine
    | setBase value =>
      cases hcall
      exact h.override machine machine.store machine.pc value hmachine
    | _ => cases hrequest

/-- What every allowed request keeps, a session of such requests keeps. -/
theorem Session.keeps (allowed : Request → Prop)
    (hcall : ∀ {machine next : Machine σ} {budget : Nat} {request : Request} {reply : Reply},
      allowed request → machine.call budget request = some (next, reply) → P machine → P next)
    {requests : List Request} {replies : List (Reply × String)}
    (hsession : Session machine requests replies last)
    (hrequests : ∀ request ∈ requests, allowed request) (hmachine : P machine) : P last := by
  induction hsession with
  | nil => exact hmachine
  | cons hnext _ ih =>
    obtain ⟨budget, hnext⟩ := hnext
    have hafter := hcall (hrequests _ List.mem_cons_self) hnext hmachine
    exact ih (fun request hmem => hrequests request (List.mem_cons_of_mem _ hmem)) hafter

theorem Invariant.session (h : Invariant P) {requests : List Request}
    {replies : List (Reply × String)} (hsession : Session machine requests replies last)
    (hrequests : ∀ request ∈ requests, request.overrides = false) (hmachine : P machine) :
    P last :=
  hsession.keeps (fun request => request.overrides = false)
    (fun hrequest hcall => h.call hrequest hcall) hrequests hmachine

theorem StrongInvariant.session (h : StrongInvariant P) {requests : List Request}
    {replies : List (Reply × String)} (hsession : Session machine requests replies last)
    (hmachine : P machine) : P last :=
  hsession.keeps (fun _ => True) (fun _ hcall => h.call hcall) (fun _ _ => trivial) hmachine

end Invariants

section Status

variable {σ : Type} {machine : Machine σ}

/-- Only a machine that waits takes notice of an input. -/
theorem status_push_of_ne (h : machine.status ≠ .awaitingInput) (value : Word) :
    (machine.push value).status = machine.status := if_neg h

theorem status_push_of_waiting (h : machine.status = .awaitingInput) (value : Word) :
    (machine.push value).status = .ready := if_pos h

theorem status_push_ne (machine : Machine σ) (value : Word) :
    (machine.push value).status ≠ .awaitingInput := by
  by_cases hstatus : machine.status = .awaitingInput
  · rw [status_push_of_waiting hstatus]
    nofun
  · rw [status_push_of_ne hstatus]
    exact hstatus

theorem status_push_of_halted (h : machine.status = .halted) (value : Word) :
    (machine.push value).status = .halted := by
  rw [status_push_of_ne (by rw [h]; nofun), h]

end Status

/-- A machine that waits has nothing to take in. -/
theorem strongInvariant_waits :
    StrongInvariant fun machine : Machine σ =>
      machine.status = .awaitingInput → machine.input = [] where
  push machine value _ hstatus := absurd hstatus (machine.status_push_ne value)
  step machine h := by
    cases machine.stepping with
    | halted _ _ hstep | failed _ _ _ hstep =>
      rw [hstep]
      exact h
    | waited _ hinput _ hstep =>
      rw [hstep]
      intro _
      exact hinput
    | silent _ after hafter _ _ hstep =>
      rw [hstep]
      intro hstatus
      rcases hafter with hafter | hafter <;> cases hafter.symm.trans hstatus
    | spoke _ after hafter _ _ _ hstep =>
      rw [hstep]
      intro hstatus
      cases hafter.symm.trans hstatus
  output _ _ h := h
  override _ _ _ _ h := h

theorem strongInvariant_halted :
    StrongInvariant fun machine : Machine σ => machine.status = .halted where
  push _ value h := status_push_of_halted h value
  step machine h := by
    rw [step_of_halted h]
    exact h
  output _ _ h := h
  override _ _ _ _ h := h

/-- Left to itself, a machine that has halted changes in its queues only. -/
theorem invariant_halted (store : σ) (pc base : Word) :
    Invariant fun machine : Machine σ =>
      machine.status = .halted ∧ machine.store = store ∧ machine.pc = pc ∧ machine.base = base where
  push _ value h := ⟨status_push_of_halted h.1 value, h.2⟩
  step machine h := by
    rw [step_of_halted h.1]
    exact h
  output _ _ h := h

/-- The instruction at the address can be fetched and has the opcode. -/
def IsAt (machine : Machine σ) (address : Word) (opcode : Opcode) : Prop :=
  ∃ instruction, Instruction.fetch machine.memory address = .ok instruction ∧
    instruction.opcode = opcode

/-- The status of the machine is true of its store and its input. -/
structure Truthful (machine : Machine σ) : Prop where
  halted : machine.status = .halted → machine.IsAt machine.pc .halt
  awaitingInput : machine.status = .awaitingInput →
    machine.input = [] ∧ machine.IsAt machine.pc .input
  afterOutput : machine.status = .afterOutput → machine.IsAt (machine.pc - 2) .output

theorem truthful_of_ready {machine : Machine σ} (h : machine.status = .ready) :
    machine.Truthful := by
  constructor <;>
  · intro hstatus
    cases h.symm.trans hstatus

theorem truthful_perform {machine : Machine σ} {instruction : Instruction} {move : Move}
    (hfetch : machine.fetch = .ok instruction)
    (h : machine.Executes machine.memory instruction move) : (machine.perform move).Truthful := by
  have hstatus (hready : move.processor.status = .ready) : (machine.perform move).Truthful := by
    apply truthful_of_ready
    exact (congrArg Processor.status (machine.toProcessor_perform move)).trans hready
  cases h with
  | combine | input | adjustBase => exact hstatus rfl
  | @jump condition _ _ a _ =>
    apply hstatus
    cases condition.holds a with
    | true => rfl
    | false => rfl
  | wait haction hinput =>
    refine ⟨nofun, fun _ => ⟨hinput, instruction, hfetch, ?_⟩, nofun⟩
    rw [Instruction.opcode, haction]
    rfl
  | @output source value haction =>
    refine ⟨nofun, nofun, fun _ => ?_⟩
    have hlength : instruction.length = 2 := by
      rw [Instruction.length, Instruction.parameters, haction]
      rfl
    have hbehind : machine.pc + Int64.ofNat instruction.length - 2 = machine.pc := by
      rw [hlength]
      exact Int64.add_sub_cancel ..
    refine ⟨instruction, ?_, ?_⟩
    · change Instruction.fetch machine.memory (machine.pc + Int64.ofNat instruction.length - 2) = _
      rw [hbehind]
      exact hfetch
    · rw [Instruction.opcode, haction]
      rfl
  | halt haction =>
    refine ⟨fun _ => ⟨instruction, hfetch, ?_⟩, nofun, nofun⟩
    rw [Instruction.opcode, haction]
    rfl

theorem invariant_truthful : Invariant (Truthful (σ := σ)) where
  push machine value h := by
    by_cases hstatus : machine.status = .awaitingInput
    · exact truthful_of_ready (status_push_of_waiting hstatus value)
    · have hsame := status_push_of_ne hstatus value
      refine ⟨?_, fun hwaits => absurd hwaits (machine.status_push_ne value), ?_⟩
      · intro hhalted
        exact h.halted (hsame.symm.trans hhalted)
      · intro hspoke
        exact h.afterOutput (hsame.symm.trans hspoke)
  step machine h := by
    unfold Machine.step
    cases hmove : machine.move with
    | error fault => exact h
    | ok move =>
      obtain ⟨_, instruction, hfetch, hexecutes⟩ := Processor.executes_of_move hmove
      exact truthful_perform hfetch hexecutes
  output _ _ h := ⟨h.halted, h.awaitingInput, h.afterOutput⟩

theorem truthful_ofStore (store : σ) : (ofStore store).Truthful := truthful_of_ready rfl

/-- What a machine says of itself is true, in whatever way it has come about. -/
theorem statuses_are_true (store : σ) {requests : List Request}
    {replies : List (Reply × String)} {machine : Machine σ}
    (hsession : Session (ofStore store) requests replies machine) :
    ((∀ request ∈ requests, request.overrides = false) → machine.Truthful) ∧
    (machine.status = .awaitingInput → machine.input = []) ∧
    (machine.status = .halted →
      ∀ {further : List Request} {replies' : List (Reply × String)} {last : Machine σ},
        Session machine further replies' last →
          last.status = .halted ∧
          ((∀ request ∈ further, request.overrides = false) →
            last.store = machine.store ∧ last.pc = machine.pc ∧ last.base = machine.base)) := by
  refine ⟨?_, ?_, ?_⟩
  · intro hrequests
    exact invariant_truthful.session hsession hrequests (truthful_ofStore store)
  · exact strongInvariant_waits.session hsession nofun
  · intro hhalted further replies' last hfurther
    refine ⟨strongInvariant_halted.session hfurther hhalted, ?_⟩
    intro hrequests
    have hkept := invariant_halted machine.store machine.pc machine.base
    exact (hkept.session hfurther hrequests ⟨hhalted, rfl, rfl, rfl⟩).2

/-- A machine that puts one word out and halts does not start again when its program counter is set
back to zero. -/
theorem statuses_are_true_halted :
    ∃ (replies replies' : List (Reply × String)) (machine last : Machine Dense),
      Session (ofStore (Store.ofList [104, 7, 99])) [.step, .step] replies machine ∧
      machine.status = .halted ∧ machine.IsAt machine.pc .halt ∧
      Session machine [.setPc 0, .step, .push 5] replies' last ∧ last.status = .halted := by
  have hsteps (machine : Machine Dense) :
      Session machine [.step, .step] [(_, _), (_, _)] machine.step.1.step.1 :=
    .cons ⟨0, rfl⟩ (.cons ⟨0, rfl⟩ (.nil _))
  have hfurther (machine : Machine Dense) :
      Session machine [.setPc 0, .step, .push 5] [(_, _), (_, _), (_, _)]
        (({ machine with pc := 0 } : Machine Dense).step.1.push 5) :=
    .cons ⟨0, rfl⟩ (.cons ⟨0, rfl⟩ (.cons ⟨0, rfl⟩ (.nil _)))
  have hhalted : (ofStore (Store.ofList [104, 7, 99] : Dense)).step.1.step.1.status = .halted := by
    cbv
  have hsession := hsteps (ofStore (Store.ofList [104, 7, 99]))
  have hafter := hfurther (ofStore (Store.ofList [104, 7, 99] : Dense)).step.1.step.1
  obtain ⟨htruthful, _, hstays⟩ := statuses_are_true _ hsession
  exact ⟨_, _, _, _, hsession, hhalted, (htruthful (by decide)).halted hhalted, hafter,
    (hstays hhalted hafter).1⟩

end Machine

end Intcode
