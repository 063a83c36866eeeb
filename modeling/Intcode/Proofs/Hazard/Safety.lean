import Intcode.Proofs.Hazard.Circuit

/-!
No sequence of operations comes to a hazard. Whatever stores, machines and circuits have been made
by operations with hazards, they are the forms of stores, machines and circuits without them, so the
next operation does what is done there: it ends in a value or in a fault, or it does not end.
-/
namespace Intcode

open Command

/-- What there is to work with. -/
inductive Part (ρ : Type) where
  | store (store : ρ)
  | machine (machine : Machine ρ)
  | circuit (circuit : Circuit ρ)

section Safety

variable {ρ α : Type} [RiskyStore ρ]

/-- Some sequence of operations makes this, each of which has come to no hazard yet. -/
inductive Reachable : Part ρ → Prop
  | load (program : List Word) : Reachable (.store (RiskyStore.ofList program))
  | write {store after : ρ} {address value : Word} (hstore : Reachable (.store store))
      (hwrite : (Risky.writeAt store address value).run = .ok (.ok after)) :
      Reachable (.store after)
  | start {store : ρ} (hstore : Reachable (.store store)) :
      Reachable (.machine (Machine.ofStore store))
  | call {machine after : Machine ρ} {budget : Nat} {request : Request} {reply : Reply}
      (hmachine : Reachable (.machine machine))
      (hcall : Risky.call budget machine request = some (.ok (after, reply))) :
      Reachable (.machine after)
  | alone {machine : Machine ρ} {budget : Nat} {entry : Option Word} {inputs : List Word}
      {after : Solo ρ} {result : Except SoloFailure Unit} (hmachine : Reachable (.machine machine))
      (hrun : Risky.runSolo budget (Solo.start machine entry inputs) = some (.ok (after, result))) :
      Reachable (.machine after.machine)
  | storeOf {machine : Machine ρ} (hmachine : Reachable (.machine machine)) :
      Reachable (.store machine.store)
  /-- The number of stages is a size. -/
  | connect {circuit : Circuit ρ} (hstages : ∀ stage ∈ circuit, Reachable (.machine stage))
      (hsize : circuit.length < 2 ^ 64) : Reachable (.circuit circuit)
  | run {circuit after : Circuit ρ} {budget : Nat} {wiring : Wiring} {signal : Word}
      {answer : Except Failure Word} (hcircuit : Reachable (.circuit circuit))
      (hrun : Risky.runCircuit budget wiring circuit signal = some (.ok (after, answer))) :
      Reachable (.circuit after)
  | stageOf {circuit : Circuit ρ} {stage : Machine ρ} (hcircuit : Reachable (.circuit circuit))
      (hstage : stage ∈ circuit) : Reachable (.machine stage)

/-- Copies of a program, each with its phase as the first input. -/
theorem reachable_ofPhases (program phases : List Word) (hsize : phases.length < 2 ^ 64) :
    Reachable (.circuit (phases.map fun phase =>
      (Machine.ofStore (RiskyStore.ofList program : ρ)).push phase)) := by
  refine .connect ?_ (by rwa [List.length_map])
  intro stage hstage
  obtain ⟨phase, _, rfl⟩ := List.mem_map.mp hstage
  have hcall : Risky.call 0 (Machine.ofStore (RiskyStore.ofList program : ρ)) (.push phase) =
      some (.ok (_, .done)) := rfl
  exact .call (.start (.load program)) hcall

/-- The process never comes to a hazard, however long it goes on. -/
def Harmless (process : Nat → Option (Risky α)) : Prop :=
  ∀ budget hazard, process budget ≠ some (.error hazard)

structure Machine.Safe (machine : Machine ρ) : Prop where
  call : ∀ request, Harmless fun budget => Risky.call budget machine request
  alone : ∀ entry inputs, Harmless fun budget =>
    Risky.runSolo budget (Solo.start machine entry inputs)
  run : ∀ {budget after status}, Risky.run budget machine = some (.ok (after, .ok status)) →
    status = .halted ∨ status = .awaitingInput
  runToOutput : ∀ {budget after status},
    Risky.runToOutput budget machine = some (.ok (after, .ok status)) → status ≠ .ready
  /-- What has just been put out can be taken. -/
  pop : ∀ {budget request after},
    Risky.call budget machine request = some (.ok (after, .status (.ok .afterOutput))) →
      after.pop?.isSome

def Part.Safe : Part ρ → Prop
  | .store part => ∀ address value hazard,
    (Risky.writeAt part address value).run ≠ .error hazard
  | .machine part => part.Safe
  | .circuit part => ∀ wiring signal, Harmless fun budget =>
    Risky.runCircuit budget wiring part signal

end Safety

section Forms

variable {σ ρ α β : Type} [Store σ] [RiskyStore ρ] {form : σ → ρ}

/-- This is the form of something without hazards. -/
def Part.IsForm (form : σ → ρ) : Part ρ → Prop
  | .store part => ∃ original, part = form original
  | .machine part => ∃ original : Machine σ, part = original.inForm form
  | .circuit part => ∃ original : Circuit σ,
    part = original.map (Machine.inForm form) ∧ original.length < 2 ^ 64

/-- Operations do to forms what they do to what these are forms of. -/
structure Mirrors (form : σ → ρ) : Prop extends SafeForm form where
  call : ∀ budget (machine : Machine σ) request,
    Risky.call budget (machine.inForm form) request =
      (machine.call budget request).map fun called => .ok (called.1.inForm form, called.2)
  run : ∀ budget wiring (circuit : Circuit σ) signal, circuit.length < 2 ^ 64 →
    Risky.runCircuit budget wiring (circuit.map (Machine.inForm form)) signal =
      (circuit.run budget wiring signal).map fun ended =>
        .ok (ended.1.map (Machine.inForm form), ended.2)
  alone : ∀ budget (machine : Machine σ) entry inputs,
    Risky.runSolo budget (Solo.start (machine.inForm form) entry inputs) =
      (Solo.run budget (Solo.start machine entry inputs)).map fun ended =>
        .ok (ended.1.inForm form, ended.2)

theorem mirrors (hform : SafeForm form) : Mirrors form where
  toSafeForm := hform
  call := Risky.call_inForm hform
  run budget wiring _ signal hsize := Risky.runCircuit_inForm hform budget wiring hsize signal
  alone budget machine entry inputs := by
    rw [Solo.start_inForm, Risky.runSolo_inForm hform]

theorem harmless_of_eq {process : Nat → Option α} {f : α → β} {risky : Nat → Option (Risky β)}
    (h : ∀ budget, risky budget = (process budget).map fun value => .ok (f value)) :
    Harmless risky := by
  intro budget hazard hrisky
  obtain ⟨value, _, hvalue⟩ := Option.map_eq_some_iff.mp ((h budget).symm.trans hrisky)
  cases hvalue

theorem exists_of_eq {ended : Option α} {f : α → β} {risky : Option (Risky β)} {value : β}
    (h : risky = ended.map fun value => .ok (f value)) (hvalue : risky = some (.ok value)) :
    ∃ original, ended = some original ∧ f original = value := by
  obtain ⟨original, hended, heq⟩ := Option.map_eq_some_iff.mp (h.symm.trans hvalue)
  cases heq
  exact ⟨original, hended, rfl⟩

theorem exists_of_writeAt (hform : SafeForm form) {store : σ} {address value : Word} {after : ρ}
    (h : (Risky.writeAt (form store) address value).run = .ok (.ok after)) :
    ∃ original, after = form original := by
  rw [hform.writeAt, Attempt.run_safe, Except.ok.injEq] at h
  cases hstore : Store.writeAt store address value with
  | error fault =>
    rw [hstore] at h
    cases h
  | ok written =>
    rw [hstore] at h
    cases h
    exact ⟨written, rfl⟩

/-- Whatever has been made by operations with hazards is the form of something without. -/
theorem isForm_of_reachable (hform : SafeForm form) {part : Part ρ} (h : Reachable part) :
    part.IsForm form := by
  have hmirrors := mirrors hform
  induction h with
  | load program => exact ⟨_, hform.ofList program⟩
  | write _ hwrite ih =>
    obtain ⟨original, rfl⟩ := ih
    exact exists_of_writeAt hform hwrite
  | start _ ih =>
    obtain ⟨original, rfl⟩ := ih
    exact ⟨.ofStore original, rfl⟩
  | call _ hcall ih =>
    obtain ⟨original, rfl⟩ := ih
    obtain ⟨called, _, hpair⟩ := exists_of_eq (hmirrors.call _ original _) hcall
    cases hpair
    exact ⟨_, rfl⟩
  | alone _ hrun ih =>
    obtain ⟨original, rfl⟩ := ih
    obtain ⟨ended, _, hpair⟩ := exists_of_eq (hmirrors.alone _ original _ _) hrun
    cases hpair
    exact ⟨_, rfl⟩
  | storeOf _ ih =>
    obtain ⟨original, rfl⟩ := ih
    exact ⟨original.store, rfl⟩
  | @connect circuit _ hsize ih =>
    have hrange : circuit ∈ Set.range (List.map (Machine.inForm form)) := by
      rw [Set.range_list_map]
      intro stage hstage
      obtain ⟨original, horiginal⟩ := ih stage hstage
      exact ⟨original, horiginal.symm⟩
    obtain ⟨original, rfl⟩ := hrange
    rw [List.length_map] at hsize
    exact ⟨original, rfl, hsize⟩
  | run _ hrun ih =>
    obtain ⟨original, rfl, hsize⟩ := ih
    obtain ⟨⟨after, answer⟩, hended, hpair⟩ :=
      exists_of_eq (hmirrors.run _ _ original _ hsize) hrun
    cases hpair
    exact ⟨after, rfl, (Circuit.length_run hended).symm ▸ hsize⟩
  | stageOf _ hstage ih =>
    obtain ⟨original, rfl, _⟩ := ih
    obtain ⟨stage, _, rfl⟩ := List.mem_map.mp hstage
    exact ⟨stage, rfl⟩

theorem Machine.safe_inForm (hform : SafeForm form) (machine : Machine σ) :
    (machine.inForm form).Safe where
  call request := harmless_of_eq fun budget => (mirrors hform).call budget machine request
  alone entry inputs := harmless_of_eq fun budget =>
    (mirrors hform).alone budget machine entry inputs
  run h := by
    obtain ⟨⟨after, result⟩, hrun, hpair⟩ := exists_of_eq (Risky.run_inForm hform _ machine) h
    cases hpair
    exact (run_stopped hrun).2.halted_or_waiting
  runToOutput h := by
    obtain ⟨⟨after, result⟩, hrun, hpair⟩ :=
      exists_of_eq (Risky.runToOutput_inForm hform _ machine) h
    cases hpair
    exact ne_ready_of_round hrun
  pop h := by
    obtain ⟨⟨after, reply⟩, hcall, hpair⟩ := exists_of_eq ((mirrors hform).call _ machine _) h
    cases hpair
    rw [pop?_inForm, Option.isSome_map]
    exact pop?_of_call hcall

theorem safe_of_isForm (hform : SafeForm form) {part : Part ρ} (h : part.IsForm form) :
    part.Safe := by
  cases part with
  | store store =>
    obtain ⟨original, rfl⟩ := h
    intro address value hazard hwrite
    rw [hform.writeAt original] at hwrite
    cases hwrite
  | machine machine =>
    obtain ⟨original, rfl⟩ := h
    exact original.safe_inForm hform
  | circuit circuit =>
    obtain ⟨original, rfl, hsize⟩ := h
    intro wiring signal
    exact harmless_of_eq fun budget => (mirrors hform).run budget wiring original signal hsize

end Forms

/-- Operations with hazards come to none, and they do what operations without hazards do. -/
theorem no_hazard_reached :
    (Mirrors Dense.bare ∧ ∀ part : Part Bare, Reachable part → part.Safe) ∧
      (Mirrors (id : Sparse → Sparse) ∧ ∀ part : Part Sparse, Reachable part → part.Safe) := by
  refine ⟨⟨mirrors Dense.safeForm_bare, ?_⟩, mirrors Sparse.safeForm_id, ?_⟩
  · intro part hpart
    exact safe_of_isForm Dense.safeForm_bare (isForm_of_reachable Dense.safeForm_bare hpart)
  · intro part hpart
    exact safe_of_isForm Sparse.safeForm_id (isForm_of_reachable Sparse.safeForm_id hpart)

/-- A dense store that parks a cell at the largest address, and circuits with no stage and with more
than one. -/
theorem no_hazard_reached_far :
    let store : Bare := ⟨#[3, 4], (∅ : Std.ExtTreeMap Nat Word).insert 9223372036854775807 7⟩
    let circuit : Circuit Bare := [5, 6].map fun phase =>
      (Machine.ofStore (RiskyStore.ofList [3, 4])).push phase
    Reachable (.store store) ∧ (Part.store store).Safe ∧
      Reachable (.circuit circuit) ∧ (Part.circuit circuit).Safe ∧
      Reachable (.circuit ([] : Circuit Bare)) ∧ (Part.circuit ([] : Circuit Bare)).Safe := by
  intro store circuit
  have hwrite : (Risky.writeAt (RiskyStore.ofList [3, 4] : Bare) 9223372036854775807 7).run =
      .ok (.ok store) := rfl
  have hstore : Reachable (.store store) := .write (.load [3, 4]) hwrite
  have hcircuit : Reachable (.circuit circuit) := reachable_ofPhases [3, 4] [5, 6] (by decide)
  have hempty : Reachable (.circuit ([] : Circuit Bare)) :=
    reachable_ofPhases [3, 4] [] (by decide)
  obtain ⟨⟨_, hsafe⟩, _⟩ := no_hazard_reached
  exact ⟨hstore, hsafe _ hstore, hcircuit, hsafe _ hcircuit, hempty, hsafe _ hempty⟩

end Intcode
