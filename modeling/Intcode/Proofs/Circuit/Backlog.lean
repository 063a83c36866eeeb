import Intcode.Proofs.Circuit.Visit

/-!
Stages with pending output. A visit that sees its stage put a word out hands on the oldest word that
is pending there, so a stage that has a backlog at the start of the loop keeps one as long all the
way through: it hands on one word for each that it puts out, and the same number stays behind. The
answer of the loop is the last word that its last stage hands on. If the stage has no backlog, that
is the last word that it puts out.
-/
namespace Intcode

variable {σ : Type} {n : Nat}

namespace Ring

/-- The words that a stage has had to hand on: its backlog, and what it has put out since. -/
def queued (ring : Ring σ n) (traffic : Traffic n) (stage : Fin (n + 1)) : List Word :=
  ring[stage].output ++ traffic.putOut stage

/-- The words that it has handed on, one for each that it has put out. -/
def handedOn (ring : Ring σ n) (traffic : Traffic n) (stage : Fin (n + 1)) : List Word :=
  (ring.queued traffic stage).take (traffic.putOut stage).length

/-- The words that are left in its queue. -/
def pending (ring : Ring σ n) (traffic : Traffic n) (stage : Fin (n + 1)) : List Word :=
  (ring.queued traffic stage).drop (traffic.putOut stage).length

theorem handedOn_of_empty {ring : Ring σ n} {stage : Fin (n + 1)} (h : ring[stage].output = [])
    (traffic : Traffic n) : ring.handedOn traffic stage = traffic.putOut stage := by
  rw [handedOn, queued, h, List.nil_append, List.take_length]

/-- Nothing changes for the stages that put nothing out. -/
theorem pending_of_ne (ring : Ring σ n) (traffic : Traffic n) {source stage : Fin (n + 1)}
    (h : source ≠ stage) (words : Array Word) :
    ring.pending (traffic ++ .ofStage source words) stage = ring.pending traffic stage := by
  rw [pending, queued, Traffic.putOut_of_ne traffic h]
  rfl

theorem handedOn_of_ne (ring : Ring σ n) (traffic : Traffic n) {source stage : Fin (n + 1)}
    (h : source ≠ stage) (words : Array Word) :
    ring.handedOn (traffic ++ .ofStage source words) stage = ring.handedOn traffic stage := by
  rw [handedOn, queued, Traffic.putOut_of_ne traffic h]
  rfl

/-- A word that is put out comes to the end of the queue, and the word at its front is handed on. -/
theorem handedOn_putOut {ring : Ring σ n} {traffic : Traffic n} {stage : Fin (n + 1)}
    {value first : Word} {rest : List Word}
    (h : ring.pending traffic stage ++ [value] = first :: rest) :
    ring.handedOn (traffic ++ .ofStage stage #[value]) stage =
        ring.handedOn traffic stage ++ [first] ∧
      ring.pending (traffic ++ .ofStage stage #[value]) stage = rest := by
  have hqueued : ring.queued (traffic ++ .ofStage stage #[value]) stage =
      ring.queued traffic stage ++ [value] := by
    rw [queued, Traffic.putOut_self, ← List.append_assoc]
    rfl
  have hle : (traffic.putOut stage).length ≤ (ring.queued traffic stage).length := by
    rw [queued, List.length_append]
    omega
  have hdrop : (ring.queued traffic stage ++ [value]).drop (traffic.putOut stage).length =
      first :: rest := by
    rw [List.drop_append_of_le_length hle]
    exact h
  have hfirst : (ring.queued traffic stage ++ [value])[(traffic.putOut stage).length]? =
      some first := by
    rw [← List.head?_drop, hdrop, List.head?_cons]
  rw [handedOn, pending, hqueued, Traffic.putOut_self, List.length_append, List.length_singleton]
  constructor
  · rw [List.take_add_one, hfirst, List.take_append_of_le_length hle]
    rfl
  · rw [← List.tail_drop, hdrop, List.tail_cons]

end Ring

namespace Loop

/-- What a loop keeps up about the stages of the ring that it started from: each has handed on as
many words as it has put out. -/
structure Lags (origin : Ring σ n) (loop : Loop σ n) (traffic : Traffic n) : Prop where
  output_eq : ∀ stage : Fin (n + 1), loop.ring[stage].output = origin.pending traffic stage
  answer_eq : loop.answer = (origin.handedOn traffic (Fin.last n)).getLast?

/-- A turn after which that is still so, or with which the loop ends accordingly. -/
def KeepsLag (origin : Ring σ n) (traffic : Traffic n) : Turn (Loop σ n) (Outcome σ n) → Prop
  | .next after => Lags origin after traffic
  | .stop none => True
  | .stop (some (ring, answer)) =>
    (∀ stage : Fin (n + 1), ring[stage].output = origin.pending traffic stage) ∧
      ∀ value, answer = .ok value → (origin.handedOn traffic (Fin.last n)).getLast? = some value

variable {origin : Ring σ n} {loop : Loop σ n} {traffic : Traffic n}

theorem lags_start (ring : Ring σ n) (signal : Word) : Lags ring (start ring signal) #[] where
  output_eq stage := by
    rw [Ring.pending, Ring.queued, Traffic.putOut_empty, List.append_nil, List.length_nil,
      List.drop_zero]
    exact ring.output_send 0 stage signal
  answer_eq := by
    rw [Ring.handedOn, Traffic.putOut_empty]
    rfl

theorem Lags.output_set [Store σ] (h : Lags origin loop traffic) {stopped : Machine σ}
    (hreaches : loop.ring[loop.cursor].rested.ReachesSilently stopped.rested)
    (stage : Fin (n + 1)) :
    (loop.ring.set loop.cursor stopped)[stage].output = origin.pending traffic stage := by
  have hstopped : stopped.output = origin.pending traffic loop.cursor :=
    hreaches.output_eq.trans (h.output_eq loop.cursor)
  have hothers (other : Fin (n + 1)) (_ : other ≠ loop.cursor) := h.output_eq other
  exact Ring.forall_set (P := fun stage machine => machine.output = origin.pending traffic stage)
    hstopped hothers stage

theorem Lags.visit_handedOn (h : Lags origin loop traffic) {stopped : Machine σ}
    {value first : Word} {rest : List Word}
    (houtput : stopped.output = loop.ring[loop.cursor].output ++ [value])
    (hqueue : stopped.output = first :: rest) :
    Lags origin (loop.passOn { stopped with output := rest } first)
      (traffic ++ .ofStage loop.cursor #[value]) := by
  rw [houtput, h.output_eq] at hqueue
  obtain ⟨hhanded, hpending⟩ := Ring.handedOn_putOut hqueue
  constructor
  · intro stage
    dsimp only [passOn]
    rw [Ring.output_send]
    refine Ring.forall_set (P := fun stage machine =>
      machine.output = origin.pending (traffic ++ .ofStage loop.cursor #[value]) stage)
      hpending.symm ?_ stage
    intro other hother
    rw [origin.pending_of_ne traffic hother.symm]
    exact h.output_eq other
  · dsimp only [passOn]
    split
    · next hlast => rw [← hlast, hhanded, List.getLast?_concat]
    · next hlast =>
      rw [origin.handedOn_of_ne traffic hlast]
      exact h.answer_eq

theorem Lags.finish (h : Lags origin loop traffic) : KeepsLag origin traffic loop.finish := by
  unfold Loop.finish
  split
  · exact ⟨h.output_eq, nofun⟩
  · next value hsome =>
    refine ⟨h.output_eq, ?_⟩
    rintro _ ⟨⟩
    exact h.answer_eq.symm.trans hsome

theorem Lags.settle (h : Lags origin loop traffic) : KeepsLag origin traffic loop.settle := by
  unfold Loop.settle
  split
  · exact ⟨h.output_eq, nofun⟩
  · exact ⟨h.output_eq, h.answer_eq⟩

theorem Lags.visit [Store σ] (h : Lags origin loop traffic) (budget : Nat) :
    KeepsLag origin (traffic ++ loop.traffic budget) (loop.visit budget) := by
  cases loop.visiting budget with
  | endless _ hvisit =>
    rw [hvisit]
    exact trivial
  | failed _ _ _ hreaches htraffic hvisit =>
    rw [hvisit, htraffic, Traffic.append_ofStage_empty]
    exact ⟨h.output_set hreaches, nofun⟩
  | handedOn _ _ _ _ _ _ _ _ houtput hqueue htraffic hvisit =>
    rw [hvisit, htraffic]
    exact h.visit_handedOn houtput hqueue
  | finished _ _ _ hreaches _ htraffic hvisit =>
    rw [hvisit, htraffic, Traffic.append_ofStage_empty]
    exact Lags.finish ⟨h.output_set hreaches, h.answer_eq⟩
  | halted _ _ _ _ hreaches _ htraffic hvisit =>
    rw [hvisit, htraffic, Traffic.append_ofStage_empty]
    exact ⟨h.output_set hreaches, h.answer_eq⟩
  | idle _ _ _ _ hreaches _ htraffic hvisit =>
    rw [hvisit, htraffic, Traffic.append_ofStage_empty]
    exact Lags.settle ⟨h.output_set hreaches, h.answer_eq⟩

end Loop

namespace Ring

variable [Store σ]

/-- However the loop ends, its stages have handed on as many words as they have put out. -/
theorem loop_lags {ring after : Ring σ n} {budget : Nat} {signal : Word}
    {answer : Except Failure Word}
    (h : iterate (Loop.visit budget) budget (Loop.start ring signal) =
      some (some (after, answer))) :
    (∀ stage : Fin (n + 1),
      after[stage].output = ring.pending (ring.loopTraffic budget signal) stage) ∧
    ∀ value, answer = .ok value →
      (ring.handedOn (ring.loopTraffic budget signal) (Fin.last n)).getLast? = some value := by
  have hstart := Loop.lags_start ring signal
  refine iterate_keeps (Loop.traffic budget) (Loop.KeepsLag ring) ?_ #[] hstart h
  intro loop traffic hloop
  exact Loop.Lags.visit hloop budget

end Ring

namespace Circuit

variable [Store σ]

/-- The answer of a loop is the last word that its last stage hands on, one for each that it puts
out and its backlog first. So it is the last word that the stage puts out if there is no backlog. -/
theorem answer_of_backlog {ring : Ring σ n} {budget : Nat} {signal value : Word}
    {circuit : Circuit σ} (h : runLoop budget ring.toList signal = some (circuit, .ok value)) :
    let backlog := ring[Fin.last n].output
    let outputs := loopOutputs budget ring.toList signal n
    outputs ≠ [] ∧ ((backlog ++ outputs).take outputs.length).getLast? = some value ∧
      (backlog = [] → outputs.getLast? = some value) := by
  obtain ⟨after, _, hloop⟩ := exists_of_runLoop h
  have hlast := (Ring.loop_lags hloop).2 value rfl
  rw [loopOutputs_toList]
  refine ⟨?_, hlast, ?_⟩
  · intro hnone
    have hempty : ring.handedOn (ring.loopTraffic budget signal) (Fin.last n) = [] := by
      rw [Ring.handedOn, Fin.val_last, hnone]
      rfl
    rw [hempty] at hlast
    cases hlast
  · intro hbacklog
    rwa [Ring.handedOn_of_empty hbacklog] at hlast

/-- A stage that has put one word out by itself hands that one on first, and keeps its last one. -/
theorem answer_of_backlog_one :
    let stage : Machine Dense := (Machine.load [104, 1, 3, 0, 104, 2, 104, 3, 99]).step.1
    let ring : Ring Dense 0 := #v[stage]
    ∃ circuit, runLoop 10 ring.toList 7 = some (circuit, .ok 2) ∧ stage.output = [1] ∧
      loopOutputs 10 ring.toList 7 0 = [2, 3] ∧
      ((stage.output ++ loopOutputs 10 ring.toList 7 0).take 2).getLast? = some 2 := by
  intro stage ring
  have hanswer : (runLoop 10 ring.toList 7).map Prod.snd = some (.ok 2) := by cbv
  have hbacklog : stage.output = [1] := by cbv
  have houtputs : loopOutputs 10 ring.toList 7 0 = [2, 3] := by cbv
  obtain ⟨⟨circuit, answer⟩, hrun, rfl⟩ := Option.map_eq_some_iff.mp hanswer
  have htake := (answer_of_backlog hrun).2.1
  rw [houtputs] at htake ⊢
  exact ⟨circuit, hrun, hbacklog, rfl, htake⟩

/-- With a backlog the answer need not be the last word put out: a stage that a series has given up,
waiting for more input, makes the loop answer with a word from before. -/
theorem answer_from_before :
    let stage : Machine Dense := Machine.load [3, 9, 4, 9, 3, 9, 4, 9, 99]
    ∃ waiting, runSeries 10 [stage] 1 = some (waiting, .error (.stageNotHalted 0 .awaitingInput)) ∧
      (runLoop 10 waiting 2).map Prod.snd = some (.ok 1) ∧ loopOutputs 10 waiting 2 0 = [2] := by
  intro stage
  have hseries : (runSeries 10 [stage] 1).map Prod.snd =
      some (.error (.stageNotHalted 0 .awaitingInput)) := by cbv
  have hanswer : ((runSeries 10 [stage] 1).bind fun ended => runLoop 10 ended.1 2).map Prod.snd =
      some (.ok 1) := by cbv
  have houtputs : (runSeries 10 [stage] 1).map (fun ended => loopOutputs 10 ended.1 2 0) =
      some [2] := by cbv
  obtain ⟨⟨waiting, failure⟩, hrun, rfl⟩ := Option.map_eq_some_iff.mp hseries
  rw [hrun] at hanswer houtputs
  exact ⟨waiting, hrun, hanswer, Option.some.inj houtputs⟩

end Circuit

end Intcode
