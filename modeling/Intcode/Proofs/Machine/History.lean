import Intcode.Proofs.Machine.Effect
import Intcode.Proofs.Machine.Input
import Intcode.Proofs.Machine.Output

/-!
The history of a machine: requests answered one after another, with the words that its input
instructions have stored and its output instructions have put out on the way. The queues lose
nothing and keep the order. The words stored, with the input still there behind them, are the words
that were pushed, and the words taken away, with the output still there behind them, are the words
that were put out. An instruction that fails or waits stores nothing and puts nothing out, so it
does not matter how often it is tried.
-/
namespace Intcode

/-- The words that a request puts into the input queue. -/
def Request.pushed : Request → List Word
  | .push value => [value]
  | _ => []

/-- The words that have been taken out of the output queue with a reply. -/
def Reply.collected : Reply → List Word
  | .oldest (some value) => [value]
  | .words values => values
  | _ => []

theorem Instruction.action_of_output {instruction : Instruction} {source : Parameter}
    (hopcode : instruction.opcode = .output) (hparameters : instruction.parameters = [source]) :
    instruction.action = .output source := by
  obtain ⟨word, action⟩ := instruction
  cases action with
  | output source' =>
    cases hparameters
    rfl
  | combine | input | jump | adjustBase | halt => cases hopcode

namespace Machine

variable {σ : Type} [Store σ]

/-- The operand of the next instruction, if that is an output instruction and succeeds. -/
def tells (machine : Machine σ) : Array Word :=
  match machine.fetch, machine.move with
  | .ok ⟨_, .output source⟩, .ok _ =>
    (source.value machine.base machine.memory).toOption.toArray
  | _, _ => #[]

/-- The words that the output instructions of a run have put out, oldest first. -/
def told (ends : Status → Bool) (budget : Nat) (machine : Machine σ) : Array Word :=
  journal (turn ends) tells budget machine #[]

/-- The words noted of the steps that a request makes the machine take. -/
def noted (note : Machine σ → Array Word) (budget : Nat) (machine : Machine σ) :
    Request → List Word
  | .step => (note machine).toList
  | .run => (journal (turn endsRun) note budget machine #[]).toList
  | .runToOutput => (journal (turn endsRunToOutput) note budget machine #[]).toList
  | _ => []

/-- The machine answers the requests in turn with these replies; meanwhile its input instructions
store the first words, and its output instructions put out the second ones. -/
inductive History :
    Machine σ → List Request → List Reply → List Word → List Word → Machine σ → Prop
  | nil (machine : Machine σ) : History machine [] [] [] [] machine
  | cons {machine next last : Machine σ} {budget : Nat} {request : Request} {reply : Reply}
      {requests : List Request} {replies : List Reply} {stored spoken : List Word}
      (hcall : machine.call budget request = some (next, reply))
      (hrest : History next requests replies stored spoken last) :
      History machine (request :: requests) (reply :: replies)
        (machine.noted takes budget request ++ stored)
        (machine.noted tells budget request ++ spoken) last

theorem tells_of_error {machine : Machine σ} {fault : Fault} (h : machine.move = .error fault) :
    machine.tells = #[] := by
  rw [tells, h]
  split
  · next hmove => cases hmove
  · rfl

theorem tells_of_opcode {machine : Machine σ} {instruction : Instruction}
    (hfetch : machine.fetch = .ok instruction) (hopcode : instruction.opcode ≠ .output) :
    machine.tells = #[] := by
  obtain ⟨word, action⟩ := instruction
  rw [tells, hfetch]
  cases action with
  | output source => exact absurd rfl hopcode
  | combine | input | jump | adjustBase | halt => rfl

theorem tells_of_output {machine : Machine σ} {instruction : Instruction} {source : Parameter}
    {move : Move} {word : Word} (hfetch : machine.fetch = .ok instruction)
    (haction : instruction.action = .output source) (hmove : machine.move = .ok move)
    (hsource : machine.Operand source word) : machine.tells = #[word] := by
  obtain ⟨packed, action⟩ := instruction
  cases haction
  rw [tells, hfetch, hmove]
  dsimp only
  rw [operand_iff.mp hsource]
  rfl

/-- What an output instruction puts out is what its step adds to the output queue. -/
theorem tells_eq_emits (machine : Machine σ) : machine.tells = machine.emits := by
  cases hmove : machine.move with
  | error fault =>
    have hsame : machine.step.1.output = machine.output := by rw [step, hmove]
    rw [tells_of_error hmove, emits_eq_empty hsame]
  | ok move =>
    obtain ⟨_, instruction, hfetch, hexecutes⟩ := Processor.executes_of_move hmove
    have hstep : machine.step.1.output = move.processor.output :=
      congrArg Processor.output (toProcessor_step hmove)
    rcases output_of_executes hexecutes with
      ⟨hopcode, source, word, hparameters, hsource, houtput⟩ | ⟨hopcode, houtput⟩
    · have haction := Instruction.action_of_output hopcode hparameters
      rw [tells_of_output hfetch haction hmove hsource, emits_eq_singleton (hstep.trans houtput)]
    · rw [tells_of_opcode hfetch hopcode, emits_eq_empty (hstep.trans houtput)]

theorem output_append_told {ends : Status → Bool} {budget : Nat} {machine stopped : Machine σ}
    {result : Except Fault Status}
    (h : iterate (turn ends) budget machine = some (stopped, result)) :
    stopped.output = machine.output ++ (machine.told ends budget).toList := by
  have hnotes : (tells : Machine σ → Array Word) = emits := funext tells_eq_emits
  rw [told, hnotes]
  exact output_append_emitted h

section Calls

variable {machine next last : Machine σ} {budget : Nat} {request : Request} {reply : Reply}

/-- A request moves words through the input queue: those stored leave it at the front, those pushed
join it at the end. -/
theorem stored_append_input (h : machine.call budget request = some (next, reply)) :
    machine.noted takes budget request ++ next.input = machine.input ++ request.pushed := by
  cases request with
  | push value =>
    cases h
    rfl
  | step =>
    cases h
    exact machine.takes_append_step.trans (List.append_nil _).symm
  | run | runToOutput =>
    obtain ⟨⟨stopped, result⟩, hrun, heq⟩ := Option.map_eq_some_iff.mp h
    cases heq
    exact (taken_append_input hrun).trans (List.append_nil _).symm
  | pop =>
    rw [call, pop?, Processor.pop?] at h
    cases houtput : machine.output with
    | nil =>
      rw [houtput] at h
      cases h
      exact (List.append_nil _).symm
    | cons value rest =>
      rw [houtput] at h
      cases h
      exact (List.append_nil _).symm
  | patch address value =>
    rw [call, patch] at h
    cases hcell : address.cell <;>
    · rw [hcell] at h
      cases h
      exact (List.append_nil _).symm
  | drain | hasOutput | fetch | read | setPc | setBase =>
    cases h
    exact (List.append_nil _).symm

/-- The same of the output queue: the words collected leave it, those put out join it. -/
theorem collected_append_output (h : machine.call budget request = some (next, reply)) :
    reply.collected ++ next.output = machine.output ++ machine.noted tells budget request := by
  cases request with
  | step =>
    cases h
    change machine.step.1.output = machine.output ++ machine.tells.toList
    rw [tells_eq_emits]
    exact machine.output_step
  | run | runToOutput =>
    obtain ⟨⟨stopped, result⟩, hrun, heq⟩ := Option.map_eq_some_iff.mp h
    cases heq
    exact output_append_told hrun
  | pop =>
    rw [call, pop?, Processor.pop?] at h
    cases houtput : machine.output with
    | nil =>
      rw [houtput] at h
      cases h
      exact houtput
    | cons value rest =>
      rw [houtput] at h
      cases h
      exact (List.append_nil _).symm
  | drain =>
    cases h
    rfl
  | patch address value =>
    rw [call, patch] at h
    cases hcell : address.cell <;>
    · rw [hcell] at h
      cases h
      exact (List.append_nil _).symm
  | push | hasOutput | fetch | read | setPc | setBase =>
    cases h
    exact (List.append_nil _).symm

end Calls

section Histories

variable {machine last : Machine σ} {requests : List Request} {replies : List Reply}
  {stored spoken : List Word}

theorem History.input_eq (h : History machine requests replies stored spoken last) :
    stored ++ last.input = machine.input ++ requests.flatMap Request.pushed := by
  induction h with
  | nil machine => exact (List.append_nil _).symm
  | @cons machine next last budget request reply requests replies stored spoken hcall _ ih =>
    rw [List.append_assoc, ih, ← List.append_assoc, stored_append_input hcall,
      List.flatMap_cons, List.append_assoc]

theorem History.output_eq (h : History machine requests replies stored spoken last) :
    replies.flatMap Reply.collected ++ last.output = machine.output ++ spoken := by
  induction h with
  | nil machine => exact (List.append_nil _).symm
  | @cons machine next last budget request reply requests replies stored spoken hcall _ ih =>
    rw [List.flatMap_cons, List.append_assoc, ih, ← List.append_assoc,
      collected_append_output hcall, List.append_assoc]

/-- Every session has its history. -/
theorem Session.exists_history {replies : List (Reply × String)}
    (h : Session machine requests replies last) :
    ∃ stored spoken, History machine requests (replies.map Prod.fst) stored spoken last := by
  induction h with
  | nil machine => exact ⟨[], [], .nil machine⟩
  | cons hcall _ ih =>
    obtain ⟨budget, hcall⟩ := hcall
    obtain ⟨stored, spoken, hrest⟩ := ih
    exact ⟨_, _, .cons hcall hrest⟩

end Histories

/-- From its construction on, a machine stores the words pushed and hands out the words put out,
each once and in order. -/
theorem queues_lose_nothing (store : σ) :
    (∀ {requests : List Request} {replies : List (Reply × String)} {last : Machine σ},
      Session (ofStore store) requests replies last → ∃ stored spoken,
        History (ofStore store) requests (replies.map Prod.fst) stored spoken last) ∧
    ∀ {requests : List Request} {replies : List Reply} {stored spoken : List Word}
      {last : Machine σ}, History (ofStore store) requests replies stored spoken last →
        stored ++ last.input = requests.flatMap Request.pushed ∧
          replies.flatMap Reply.collected ++ last.output = spoken :=
  ⟨Session.exists_history, fun h => ⟨h.input_eq, h.output_eq⟩⟩

/-- An input instruction that waits, then fails with a word in the queue, and stores that word once
the base has been set. Of the two words pushed one is left. -/
theorem queues_lose_nothing_retried :
    let machine : Machine Dense := ofStore (Store.ofList [203, -7, 204, -7, 99])
    let requests : List Request :=
      [.step, .push 5, .step, .setBase 8, .push 6, .step, .step, .drain]
    ∃ (replies : List (Reply × String)) (stored spoken : List Word) (last : Machine Dense),
      Session machine requests replies last ∧
      History machine requests (replies.map Prod.fst) stored spoken last ∧
      last.input = [6] ∧ stored = [5] ∧ spoken = [5] := by
  intro machine requests
  obtain ⟨replies, last, hsession, hleft, hcollected⟩ : ∃ replies last,
      Session machine requests replies last ∧ last.input = [6] ∧
        (replies.map Prod.fst).flatMap Reply.collected ++ last.output = [5] :=
    ⟨_, _, .cons ⟨0, rfl⟩ (.cons ⟨0, rfl⟩ (.cons ⟨0, rfl⟩ (.cons ⟨0, rfl⟩
      (.cons ⟨0, rfl⟩ (.cons ⟨0, rfl⟩ (.cons ⟨0, rfl⟩ (.cons ⟨0, rfl⟩ (.nil _)))))))),
      by cbv, by cbv⟩
  obtain ⟨hexists, hbalance⟩ := queues_lose_nothing (Store.ofList [203, -7, 204, -7, 99] : Dense)
  obtain ⟨stored, spoken, hhistory⟩ := hexists hsession
  obtain ⟨hinput, houtput⟩ := hbalance hhistory
  have hpushed : requests.flatMap Request.pushed = [5] ++ [6] := rfl
  rw [hleft, hpushed] at hinput
  exact ⟨replies, stored, spoken, last, hsession, hhistory, hleft,
    List.append_cancel_right hinput, houtput.symm.trans hcollected⟩

end Machine

end Intcode
