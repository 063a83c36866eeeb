import Intcode.Machine.Run
import Intcode.Proofs.Process
import Intcode.Proofs.Processor.Agreement
import Intcode.Store.Dense
import Intcode.Store.Sparse

/-!
Sessions with a machine: requests made one after another, with what each is answered. Two machines
that have the same processor and read the same word at every address answer every session alike,
however their stores lay out the cells, and are left alike by it.
-/
namespace Intcode

/-- What can be asked of a machine from outside. -/
inductive Request where
  | push (value : Word)
  | step
  | run
  | runToOutput
  | pop
  | drain
  | hasOutput
  | fetch
  | read (address : Word)
  | patch (address value : Word)
  | setPc (value : Word)
  | setBase (value : Word)
  deriving DecidableEq, Repr

inductive Reply where
  | done
  | status (result : Except Fault Status)
  /-- The oldest output, if there is one. -/
  | oldest (value : Option Word)
  | words (values : List Word)
  | holds (answer : Bool)
  | instruction (result : Except Fault Instruction)
  | word (result : Except Fault Word)
  | refused (fault : Fault)

namespace Machine

variable {σ τ : Type} [Store σ] [Store τ]

/-- The machine after the request, with its reply. The budget is for a run. -/
def call (budget : Nat) (machine : Machine σ) : Request → Option (Machine σ × Reply)
  | .push value => some (machine.push value, .done)
  | .step => some (machine.step.1, .status machine.step.2)
  | .run => (machine.run budget).map fun (machine, result) => (machine, .status result)
  | .runToOutput =>
    (machine.runToOutput budget).map fun (machine, result) => (machine, .status result)
  | .pop =>
    match machine.pop? with
    | none => some (machine, .oldest none)
    | some (value, machine) => some (machine, .oldest (some value))
  | .drain => some (machine.drain.2, .words machine.drain.1)
  | .hasOutput => some (machine, .holds (!machine.output.isEmpty))
  | .fetch => some (machine, .instruction machine.fetch)
  | .read address => some (machine, .word (machine.read address))
  | .patch address value =>
    match machine.patch address value with
    | .error fault => some (machine, .refused fault)
    | .ok machine => some (machine, .done)
  | .setPc value => some ({ machine with pc := value }, .done)
  | .setBase value => some ({ machine with base := value }, .done)

/-- The machine answers the requests in turn with these replies, each with the text of the processor
after it. -/
inductive Session : Machine σ → List Request → List (Reply × String) → Machine σ → Prop
  | nil (machine : Machine σ) : Session machine [] [] machine
  | cons {machine next last : Machine σ} {request : Request} {reply : Reply}
      {requests : List Request} {replies : List (Reply × String)}
      (hcall : Returns (fun budget => machine.call budget request) (next, reply))
      (hrest : Session next requests replies last) :
      Session machine (request :: requests) ((reply, next.text) :: replies) last

/-- The machines differ at most in how their stores lay out the cells. -/
structure Alike (machine : Machine σ) (other : Machine τ) : Prop where
  processor_eq : machine.toProcessor = other.toProcessor
  read_eq : ∀ address, machine.read address = other.read address

/-- No session tells the machines apart: both give the same replies and stay alike, or both have a
request that they never answer. -/
structure Indistinguishable (machine : Machine σ) (other : Machine τ) : Prop where
  forth : ∀ {requests replies last}, Session machine requests replies last →
    ∃ last', Session other requests replies last' ∧ last.Alike last'
  back : ∀ {requests replies last'}, Session other requests replies last' →
    ∃ last, Session machine requests replies last ∧ last.Alike last'
  unanswered : ∀ requests, (¬∃ replies last, Session machine requests replies last) ↔
    ¬∃ replies last', Session other requests replies last'

/-- Two outcomes of the same kind, from machines that are left alike. -/
def SameOutcome {ρ : Type} (outcome : Machine σ × ρ) (other : Machine τ × ρ) : Prop :=
  outcome.1.Alike other.1 ∧ outcome.2 = other.2

theorem sameOutcome_map_status {ran : Option (Machine σ × Except Fault Status)}
    {ran' : Option (Machine τ × Except Fault Status)} (h : Option.Rel SameOutcome ran ran') :
    Option.Rel SameOutcome (ran.map fun (machine, result) => (machine, Reply.status result))
      (ran'.map fun (machine, result) => (machine, Reply.status result)) := by
  cases h with
  | none => exact .none
  | some h => exact .some ⟨h.1, congrArg Reply.status h.2⟩

namespace Alike

variable {machine : Machine σ} {other : Machine τ}

theorem symm (h : machine.Alike other) : other.Alike machine :=
  ⟨h.processor_eq.symm, fun address => (h.read_eq address).symm⟩

theorem agrees (h : machine.Alike other) : machine.memory.Agrees other.memory := h.read_eq

theorem move_eq (h : machine.Alike other) : machine.move = other.move := by
  rw [Machine.move, Machine.move, h.processor_eq]
  exact Processor.move_congr h.agrees other.toProcessor

theorem fetch_eq (h : machine.Alike other) : machine.fetch = other.fetch := by
  rw [Machine.fetch, Machine.fetch, h.processor_eq]
  exact Instruction.fetch_congr h.agrees other.pc

/-- The same change of both processors. -/
theorem withProcessor (h : machine.Alike other) (processor : Processor) :
    ({ machine with toProcessor := processor } : Machine σ).Alike
      ({ other with toProcessor := processor } : Machine τ) :=
  ⟨rfl, h.read_eq⟩

variable [LawfulStore σ] [LawfulStore τ]

theorem write (h : machine.Alike other) (processor : Processor) (cell : Nat) (value : Word) :
    (⟨processor, Store.write machine.store cell value⟩ : Machine σ).Alike
      (⟨processor, Store.write other.store cell value⟩ : Machine τ) := by
  refine ⟨rfl, ?_⟩
  have hset := h.agrees.set cell value
  rw [memory, memory, ← LawfulStore.memory_write, ← LawfulStore.memory_write] at hset
  exact hset

theorem perform (h : machine.Alike other) (move : Move) :
    (machine.perform move).Alike (other.perform move) := by
  unfold Machine.perform
  cases move.write with
  | none => exact h.withProcessor move.processor
  | some write => exact h.write move.processor write.1 write.2

theorem step (h : machine.Alike other) : SameOutcome machine.step other.step := by
  unfold Machine.step
  rw [h.move_eq]
  cases other.move with
  | error fault => exact ⟨h, rfl⟩
  | ok move => exact ⟨h.perform move, rfl⟩

theorem turn (h : machine.Alike other) (ends : Status → Bool) :
    (Machine.turn ends machine).Matches Alike SameOutcome (Machine.turn ends other) := by
  have hstep := h.step
  unfold Machine.turn
  rw [h.processor_eq]
  split
  · exact .stop ⟨h, rfl⟩
  · generalize machine.step = stepped at hstep ⊢
    generalize other.step = stepped' at hstep ⊢
    obtain ⟨after, result⟩ := stepped
    obtain ⟨after', result'⟩ := stepped'
    obtain ⟨halike, rfl⟩ := hstep
    cases result with
    | error fault => exact .stop ⟨halike, rfl⟩
    | ok status =>
      cases hends : ends status with
      | true => simpa only [hends, if_true] using Turn.Matches.stop ⟨halike, rfl⟩
      | false => simpa only [hends, Bool.false_eq_true, if_false] using Turn.Matches.next halike

theorem run (h : machine.Alike other) (ends : Status → Bool) (budget : Nat) :
    Option.Rel SameOutcome (iterate (Machine.turn ends) budget machine)
      (iterate (Machine.turn ends) budget other) :=
  iterate_matches (fun _ _ halike => halike.turn ends) budget h

theorem call (h : machine.Alike other) (budget : Nat) (request : Request) :
    Option.Rel SameOutcome (machine.call budget request) (other.call budget request) := by
  cases request with
  | push value =>
    refine .some ⟨?_, rfl⟩
    unfold Machine.push
    rw [h.processor_eq]
    exact h.withProcessor _
  | step => exact .some ⟨h.step.1, congrArg Reply.status h.step.2⟩
  | run => exact sameOutcome_map_status (h.run Machine.endsRun budget)
  | runToOutput => exact sameOutcome_map_status (h.run Machine.endsRunToOutput budget)
  | pop =>
    simp only [Machine.call, Machine.pop?, h.processor_eq]
    cases other.toProcessor.pop? with
    | none => exact .some ⟨h, rfl⟩
    | some popped => exact .some ⟨h.withProcessor popped.2, rfl⟩
  | drain =>
    simp only [Machine.call, Machine.drain, h.processor_eq]
    exact .some ⟨h.withProcessor _, rfl⟩
  | hasOutput =>
    simp only [Machine.call, h.processor_eq]
    exact .some ⟨h, rfl⟩
  | fetch => exact .some ⟨h, congrArg Reply.instruction h.fetch_eq⟩
  | read address => exact .some ⟨h, congrArg Reply.word (h.read_eq address)⟩
  | patch address value =>
    simp only [Machine.call, Machine.patch]
    cases address.cell with
    | error fault => exact .some ⟨h, rfl⟩
    | ok cell =>
      simp only [Except.map, h.processor_eq]
      exact .some ⟨h.write _ cell value, rfl⟩
  | setPc value =>
    simp only [Machine.call, h.processor_eq]
    exact .some ⟨h.withProcessor _, rfl⟩
  | setBase value =>
    simp only [Machine.call, h.processor_eq]
    exact .some ⟨h.withProcessor _, rfl⟩

theorem session (h : machine.Alike other) {requests : List Request}
    {replies : List (Reply × String)} {last : Machine σ}
    (hsession : Session machine requests replies last) :
    ∃ last', Session other requests replies last' ∧ last.Alike last' := by
  induction hsession generalizing other with
  | nil machine => exact ⟨other, .nil other, h⟩
  | @cons machine next last request reply requests replies hcall hrest ih =>
    obtain ⟨budget, hcall⟩ := hcall
    have hrel := h.call budget request
    simp only [hcall] at hrel
    obtain ⟨⟨next', reply'⟩, hcall', halike, hreply⟩ := exists_of_rel_some hrel
    cases hreply
    obtain ⟨last', hrest', hlast⟩ := ih halike
    have htext : next.text = next'.text := congrArg Processor.text halike.processor_eq
    exact ⟨last', htext ▸ .cons ⟨budget, hcall'⟩ hrest', hlast⟩

theorem indistinguishable (h : machine.Alike other) : machine.Indistinguishable other where
  forth := h.session
  back hsession := by
    obtain ⟨last, hlast, halike⟩ := h.symm.session hsession
    exact ⟨last, hlast, halike.symm⟩
  unanswered requests := by
    refine not_congr ⟨?_, ?_⟩
    · rintro ⟨replies, last, hsession⟩
      obtain ⟨last', hsession', _⟩ := h.session hsession
      exact ⟨replies, last', hsession'⟩
    · rintro ⟨replies, last', hsession'⟩
      obtain ⟨last, hsession, _⟩ := h.symm.session hsession'
      exact ⟨replies, last, hsession⟩

end Alike

variable [LawfulStore σ] [LawfulStore τ]

theorem load_alike (program : List Word) (zeros : Nat) :
    (load program : Machine σ).Alike
      (load (program ++ List.replicate zeros 0) : Machine τ) := by
  refine ⟨rfl, ?_⟩
  intro address
  change (Store.memory (Store.ofList program : σ)).read address =
    (Store.memory (Store.ofList (program ++ List.replicate zeros 0) : τ)).read address
  rw [LawfulStore.memory_ofList, LawfulStore.memory_ofList, Memory.ofList_append_zeros]

/-- A machine shows nothing of its store but the words that are read from it. -/
theorem stores_indistinguishable :
    (∀ (machine : Machine σ) (other : Machine τ), machine.Alike other →
      machine.Indistinguishable other) ∧
    (∀ program : List Word,
      (load program : Machine σ).Indistinguishable (load program : Machine τ)) ∧
    ∀ (program : List Word) (zeros : Nat),
      (load program : Machine σ).Indistinguishable
        (load (program ++ List.replicate zeros 0) : Machine τ) := by
  refine ⟨fun machine other h => h.indistinguishable, fun program => ?_,
    fun program zeros => (load_alike program zeros).indistinguishable⟩
  have h : (load program : Machine σ).Alike (load (program ++ []) : Machine τ) :=
    load_alike program 0
  rw [List.append_nil] at h
  exact h.indistinguishable

/-- A dense store that has parked a cell, against a sparse store written in the other order. -/
theorem stores_indistinguishable_parked :
    let program : List Word := [3, 7, 99]
    let dense : Dense := Store.write (Store.write (Store.ofList program) 3000000 7) 5 9
    let sparse : Sparse := Store.write (Store.write (Store.ofList program) 5 9) 3000000 7
    (ofStore dense).Alike (ofStore sparse) ∧
      (ofStore dense).Indistinguishable (ofStore sparse) := by
  intro program dense sparse
  have hmemory : Store.memory dense = Store.memory sparse := by
    rw [LawfulStore.memory_write, LawfulStore.memory_write, LawfulStore.memory_ofList,
      LawfulStore.memory_write, LawfulStore.memory_write, LawfulStore.memory_ofList,
      Memory.set_comm (by decide)]
  have halike : (ofStore dense).Alike (ofStore sparse) :=
    ⟨rfl, fun address => congrArg (fun memory => Memory.read memory address) hmemory⟩
  exact ⟨halike, stores_indistinguishable.1 _ _ halike⟩

end Machine

end Intcode
