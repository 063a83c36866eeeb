import Intcode.Proofs.Circuit.Backlog
import Intcode.Proofs.Machine.Input

/-!
Words on their way round a ring. A visit takes a word from its stage to the following one for each
word that it makes its stage put out. So on every exit of the loop the accounts of each stage
balance: what it has handed on, with its output behind it, is its backlog with all that it has put
out, and what it has taken in, with its input behind it, is all that it has been given.
-/
namespace Intcode

variable {σ : Type} {n : Nat}

namespace Loop

/-- The ring that a turn leaves, unless the turn has no end. -/
def ringAfter : Turn (Loop σ n) (Outcome σ n) → Option (Ring σ n)
  | .next after => some after.ring
  | .stop outcome => outcome.map Prod.fst

theorem ringAfter_settle (loop : Loop σ n) : ringAfter loop.settle = some loop.ring := by
  unfold settle
  split <;> rfl

theorem ringAfter_finish (loop : Loop σ n) : ringAfter loop.finish = some loop.ring := by
  unfold finish
  split <;> rfl

variable [Store σ]

/-- The words that a visit makes its stage take in. -/
def intake (budget : Nat) (loop : Loop σ n) : Traffic n :=
  .ofStage loop.cursor (loop.ring[loop.cursor].taken Machine.endsRunToOutput budget)

/-- The word that a visit takes out of the output of its stage to give it to the following one. -/
def transfer (budget : Nat) (loop : Loop σ n) : Traffic n :=
  match loop.ring[loop.cursor].runToOutput budget with
  | some (stopped, .ok .afterOutput) => .ofStage loop.cursor (stopped.pop?.map Prod.fst).toArray
  | _ => #[]

theorem transfer_of_afterOutput {budget : Nat} {loop : Loop σ n} {stopped : Machine σ}
    {first : Word} {rest : List Word}
    (hrun : loop.ring[loop.cursor].runToOutput budget = some (stopped, .ok .afterOutput))
    (hqueue : stopped.output = first :: rest) :
    loop.transfer budget = .ofStage loop.cursor #[first] := by
  rw [transfer, hrun]
  dsimp only
  rw [Machine.pop?, Processor.pop?, hqueue]
  rfl

theorem transfer_of_ne {budget : Nat} {loop : Loop σ n} {stopped : Machine σ}
    {result : Except Fault Status}
    (hrun : loop.ring[loop.cursor].runToOutput budget = some (stopped, result))
    (hresult : result ≠ .ok .afterOutput) : loop.transfer budget = #[] := by
  rw [transfer, hrun]
  split
  · next heq =>
    cases heq
    exact absurd rfl hresult
  · rfl

/-- What a visit does to the ring, once the run of its stage has stopped: the stage is left where it
stopped, and if it has put a word out, the oldest word in its output is handed on. -/
inductive Leaves (budget : Nat) (loop : Loop σ n) (stopped : Machine σ) : Ring σ n → Prop
  | silent (htraffic : loop.traffic budget = .ofStage loop.cursor #[])
      (htransfer : loop.transfer budget = #[]) :
      Leaves budget loop stopped (loop.ring.set loop.cursor stopped)
  | spoke {value first : Word} {rest : List Word}
      (houtput : stopped.output = loop.ring[loop.cursor].output ++ [value])
      (hqueue : stopped.output = first :: rest)
      (htraffic : loop.traffic budget = .ofStage loop.cursor #[value])
      (htransfer : loop.transfer budget = .ofStage loop.cursor #[first]) :
      Leaves budget loop stopped
        (Ring.send (loop.ring.set loop.cursor { stopped with output := rest }) (loop.cursor + 1)
          first)

theorem exists_leaves {budget : Nat} {loop : Loop σ n} {ring : Ring σ n}
    (h : ringAfter (loop.visit budget) = some ring) :
    ∃ stopped result, loop.ring[loop.cursor].runToOutput budget = some (stopped, result) ∧
      loop.Leaves budget stopped ring := by
  cases loop.visiting budget with
  | endless _ hvisit =>
    rw [hvisit] at h
    cases h
  | failed stopped fault hrun _ htraffic hvisit =>
    rw [hvisit] at h
    cases h
    exact ⟨stopped, _, hrun, .silent htraffic (transfer_of_ne hrun nofun)⟩
  | handedOn before stopped value first rest hrun _ _ houtput hqueue htraffic hvisit =>
    rw [hvisit] at h
    cases h
    have htransfer := transfer_of_afterOutput hrun hqueue
    exact ⟨stopped, _, hrun, .spoke houtput hqueue htraffic htransfer⟩
  | finished stopped _ hrun _ _ htraffic hvisit =>
    rw [hvisit, ringAfter_finish] at h
    cases h
    exact ⟨stopped, _, hrun, .silent htraffic (transfer_of_ne hrun nofun)⟩
  | halted stopped _ hrun _ _ _ htraffic hvisit =>
    rw [hvisit] at h
    cases h
    exact ⟨stopped, _, hrun, .silent htraffic (transfer_of_ne hrun nofun)⟩
  | idle stopped status hrun hidles _ _ htraffic hvisit =>
    rw [hvisit, ringAfter_settle] at h
    cases h
    refine ⟨stopped, _, hrun, .silent htraffic (transfer_of_ne hrun ?_)⟩
    rcases hidles with rfl | ⟨rfl, _⟩ <;> nofun

end Loop

namespace Ring

/-- All that a stage has been given: what was in its input, the signal if it is the first one, and
what has been handed on to it. -/
def given (ring : Ring σ n) (signal : Word) (transfers : Traffic n) (stage : Fin (n + 1)) :
    List Word :=
  ring[stage].input ++ (if stage = 0 then [signal] else []) ++
    transfers.putOut (stage - 1 : Fin (n + 1))

/-- Every stage has taken in what it has been given, up to what is in its input. -/
def Fed (origin : Ring σ n) (signal : Word) (intake transfers : Traffic n) (ring : Ring σ n) :
    Prop :=
  ∀ stage : Fin (n + 1),
    intake.putOut stage ++ ring[stage].input = origin.given signal transfers stage

variable {origin ring : Ring σ n} {signal : Word} {intake transfers : Traffic n}

theorem fed_start (ring : Ring σ n) (signal : Word) :
    ring.Fed signal #[] #[] (ring.send 0 signal) := by
  intro stage
  rw [given, Traffic.putOut_empty, Traffic.putOut_empty, List.append_nil, List.nil_append,
    getElem_send]
  split
  · rfl
  · rw [List.append_nil]

/-- A stage takes words in. -/
theorem Fed.set (h : origin.Fed signal intake transfers ring) {stage : Fin (n + 1)}
    {machine : Machine σ} {words : Array Word}
    (hwords : words.toList ++ machine.input = ring[stage].input) :
    origin.Fed signal (intake ++ .ofStage stage words) transfers (ring.set stage machine) := by
  intro other
  rw [← h other, getElem_set, Traffic.putOut_append, Traffic.putOut_ofStage, List.append_assoc]
  by_cases hother : other = stage
  · rw [if_pos hother, if_pos hother.symm, hwords, hother]
  · rw [if_neg hother, if_neg (Ne.symm hother), List.nil_append]

/-- A word is handed on. -/
theorem Fed.send (h : origin.Fed signal intake transfers ring) (stage : Fin (n + 1))
    (value : Word) :
    origin.Fed signal intake (transfers ++ .ofStage stage #[value])
      (ring.send (stage + 1) value) := by
  intro other
  rw [given, Traffic.putOut_append, Traffic.putOut_ofStage, ← List.append_assoc, ← given, ← h other,
    getElem_send, List.append_assoc]
  by_cases hother : other = stage + 1
  · rw [if_pos hother, if_pos (sub_eq_iff_eq_add.mpr hother).symm]
    rfl
  · have hne : stage ≠ other - 1 := fun heq => hother (sub_eq_iff_eq_add.mp heq.symm)
    rw [if_neg hother, if_neg hne, List.append_nil]

end Ring

namespace Loop

variable [Store σ] {origin : Ring σ n} {loop : Loop σ n}

theorem fed_visit {signal : Word} {intake transfers : Traffic n} {budget : Nat} {ring : Ring σ n}
    (h : origin.Fed signal intake transfers loop.ring)
    (hring : ringAfter (loop.visit budget) = some ring) :
    origin.Fed signal (intake ++ loop.intake budget) (transfers ++ loop.transfer budget) ring := by
  obtain ⟨stopped, result, hrun, hleaves⟩ := exists_leaves hring
  have htaken := Machine.taken_append_input hrun
  cases hleaves with
  | silent _ htransfer =>
    rw [htransfer, Array.append_empty]
    exact h.set htaken
  | @spoke value first rest _ _ _ htransfer =>
    have hset : origin.Fed signal (intake ++ loop.intake budget) transfers
        (loop.ring.set loop.cursor { stopped with output := rest }) := h.set htaken
    rw [htransfer]
    exact hset.send loop.cursor first

/-- What is handed on is what the stages have had to hand on, one word for each that they have put
out. -/
theorem Lags.handedOn_visit {traffic transfers : Traffic n} (h : Lags origin loop traffic)
    (htransfers : ∀ stage : Fin (n + 1), transfers.putOut stage = origin.handedOn traffic stage)
    {budget : Nat} {ring : Ring σ n} (hring : ringAfter (loop.visit budget) = some ring)
    (stage : Fin (n + 1)) :
    (transfers ++ loop.transfer budget).putOut stage =
      origin.handedOn (traffic ++ loop.traffic budget) stage := by
  obtain ⟨stopped, result, hrun, hleaves⟩ := exists_leaves hring
  cases hleaves with
  | silent htraffic htransfer =>
    rw [htraffic, htransfer, Array.append_empty, Traffic.append_ofStage_empty]
    exact htransfers stage
  | @spoke value first rest houtput hqueue htraffic htransfer =>
    rw [htraffic, htransfer]
    by_cases hstage : loop.cursor = stage
    · subst hstage
      rw [houtput, h.output_eq] at hqueue
      rw [Traffic.putOut_self, (Ring.handedOn_putOut hqueue).1, htransfers]
    · rw [Traffic.putOut_of_ne transfers hstage, origin.handedOn_of_ne traffic hstage]
      exact htransfers stage

end Loop

namespace Ring

variable [Store σ]

/-- The words that the stages take in while the ring runs as a loop. -/
def loopIntake (ring : Ring σ n) (budget : Nat) (signal : Word) : Traffic n :=
  journal (Loop.visit budget) (Loop.intake budget) budget (Loop.start ring signal) #[]

/-- The words that the stages hand on while the ring runs as a loop. -/
def loopTransfers (ring : Ring σ n) (budget : Nat) (signal : Word) : Traffic n :=
  journal (Loop.visit budget) (Loop.transfer budget) budget (Loop.start ring signal) #[]

variable {ring after : Ring σ n} {budget : Nat} {signal : Word} {answer : Except Failure Word}

theorem loop_fed
    (h : iterate (Loop.visit budget) budget (Loop.start ring signal) =
      some (some (after, answer))) :
    ring.Fed signal (ring.loopIntake budget signal) (ring.loopTransfers budget signal) after := by
  refine iterate_keeps_both (Loop.intake budget) (Loop.transfer budget)
    (fun (intake transfers : Traffic n) turn => ∀ left, Loop.ringAfter turn = some left →
      ring.Fed signal intake transfers left) ?_ #[] #[] ?_ h after rfl
  · intro loop intake transfers hloop left hleft
    exact Loop.fed_visit (hloop loop.ring rfl) hleft
  · intro left hleft
    cases hleft
    exact ring.fed_start signal

theorem loop_handedOn
    (h : iterate (Loop.visit budget) budget (Loop.start ring signal) =
      some (some (after, answer))) (stage : Fin (n + 1)) :
    (ring.loopTransfers budget signal).putOut stage =
      ring.handedOn (ring.loopTraffic budget signal) stage := by
  have hkeeps := iterate_keeps_both (Loop.traffic budget) (Loop.transfer budget)
    (fun (traffic transfers : Traffic n) turn => Loop.KeepsLag ring traffic turn ∧
      ∀ left, Loop.ringAfter turn = some left → ∀ stage : Fin (n + 1),
        transfers.putOut stage = ring.handedOn traffic stage)
    ?_ #[] #[] ?_ h
  · exact hkeeps.2 after rfl stage
  · intro loop traffic transfers hloop
    obtain ⟨hlags, htransfers⟩ := hloop
    have hlags' : Loop.Lags ring loop traffic := hlags
    refine ⟨hlags'.visit budget, ?_⟩
    intro left hleft
    exact hlags'.handedOn_visit (htransfers loop.ring rfl) hleft
  · refine ⟨Loop.lags_start ring signal, ?_⟩
    intro left _ stage
    rfl

end Ring

namespace Circuit

variable [Store σ]

/-- Whatever ends a loop, no word on its way round the ring is lost, doubled or overtaken. -/
theorem runLoop_conserves {ring : Ring σ n} {budget : Nat} {signal : Word} {circuit : Circuit σ}
    {answer : Except Failure Word}
    (h : runLoop budget ring.toList signal = some (circuit, answer)) :
    ∃ after : Ring σ n, circuit = after.toList ∧ ∀ stage : Fin (n + 1),
      let queued := ring[stage].output ++ loopOutputs budget ring.toList signal stage
      let count := (loopOutputs budget ring.toList signal stage).length
      let handedOn := fun source : Fin (n + 1) => (ring.loopTransfers budget signal).putOut source
      let takenIn := (ring.loopIntake budget signal).putOut stage
      (handedOn stage).length = count ∧ handedOn stage = queued.take count ∧
      after[stage].output.length = ring[stage].output.length ∧
      after[stage].output = queued.drop count ∧
      takenIn ++ after[stage].input =
        ring[stage].input ++ (if stage = 0 then [signal] else []) ++ handedOn (stage - 1) := by
  obtain ⟨after, rfl, hloop⟩ := exists_of_runLoop h
  refine ⟨after, rfl, ?_⟩
  intro stage queued count handedOn takenIn
  have houtputs : loopOutputs budget ring.toList signal stage =
      (ring.loopTraffic budget signal).putOut stage := loopOutputs_toList ring budget signal stage
  have hlength : queued.length = ring[stage].output.length + count := List.length_append
  have hhanded : handedOn stage = queued.take count := by
    simp only [handedOn, queued, count, houtputs]
    exact Ring.loop_handedOn hloop stage
  have hleft : after[stage].output = queued.drop count := by
    simp only [queued, count, houtputs]
    exact (Ring.loop_lags hloop).1 stage
  refine ⟨?_, hhanded, ?_, hleft, Ring.loop_fed hloop stage⟩
  · rw [hhanded, List.length_take]
    omega
  · rw [hleft, List.length_drop]
    omega

/-- The first stage has a backlog of one word, and the second one fails after it has put a word out.
The first one is left with what it has put out itself, and with the word from the second one. -/
theorem runLoop_conserves_backlog :
    let first : Machine Dense := (Machine.load [104, 1, 3, 0, 4, 0, 99]).step.1
    let ring : Ring Dense 1 := #v[first, .load [3, 0, 4, 0, 1101, 1, 1, -1, 99]]
    ∃ after : Ring Dense 1,
      runLoop 10 ring.toList 7 = some (after.toList, .error (.fault (.negativeAddress (-1)))) ∧
      ring[(0 : Fin 2)].output = [1] ∧ loopOutputs 10 ring.toList 7 0 = [7] ∧
      (ring.loopTransfers 10 7).putOut 0 = [1] ∧ after[(0 : Fin 2)].output = [7] ∧
      (ring.loopIntake 10 7).putOut 0 ++ after[(0 : Fin 2)].input = [7, 1] := by
  intro first ring
  have hanswer : (runLoop 10 ring.toList 7).map Prod.snd =
      some (.error (.fault (.negativeAddress (-1)))) := by cbv
  have hbacklog : ring[(0 : Fin 2)].output = [1] := by cbv
  have hinput : ring[(0 : Fin 2)].input = [] := by cbv
  have houtputs : loopOutputs 10 ring.toList 7 0 = [7] := by cbv
  have houtputs' : loopOutputs 10 ring.toList 7 1 = [1] := by cbv
  have hbacklog' : ring[(1 : Fin 2)].output = [] := by cbv
  obtain ⟨⟨circuit, answer⟩, hrun, rfl⟩ := Option.map_eq_some_iff.mp hanswer
  obtain ⟨after, rfl, hstages⟩ := runLoop_conserves hrun
  obtain ⟨_, hhanded, _, hleft, htaken⟩ := hstages 0
  obtain ⟨_, hhanded', _⟩ := hstages 1
  have hsecond : (ring.loopTransfers 10 7).putOut 1 =
      (ring[(1 : Fin 2)].output ++ loopOutputs 10 ring.toList 7 1).take
        (loopOutputs 10 ring.toList 7 1).length := hhanded'
  rw [hbacklog', houtputs'] at hsecond
  have hgiven : (ring.loopIntake 10 7).putOut 0 ++ after[(0 : Fin 2)].input =
      ring[(0 : Fin 2)].input ++ [7] ++ (ring.loopTransfers 10 7).putOut 1 := htaken
  rw [hinput, hsecond] at hgiven
  refine ⟨after, hrun, hbacklog, houtputs, ?_, ?_, hgiven⟩
  · have hfirst : (ring.loopTransfers 10 7).putOut 0 =
        (ring[(0 : Fin 2)].output ++ loopOutputs 10 ring.toList 7 0).take
          (loopOutputs 10 ring.toList 7 0).length := hhanded
    rwa [hbacklog, houtputs] at hfirst
  · have hlast : after[(0 : Fin 2)].output =
        (ring[(0 : Fin 2)].output ++ loopOutputs 10 ring.toList 7 0).drop
          (loopOutputs 10 ring.toList 7 0).length := hleft
    rwa [hbacklog, houtputs] at hlast

end Circuit

end Intcode
