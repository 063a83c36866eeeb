import Intcode.Proofs.Machine.Course
import Intcode.Store.Dense

/-!
Inputs given in chunks, with a run after each of them and the output taken away after each run. It
makes no difference to the program how the inputs are cut: all the runs return if and only if one
run on all the inputs does, and they leave the same machine and put out the same words.
-/
namespace Intcode.Machine

variable {σ : Type}

theorem drained_pushAll (machine : Machine σ) (later : List Word) :
    (machine.drain.2.pushAll later).rested.framed machine.output [] =
      machine.rested.framed [] later := by
  rw [rested_pushAll, framed_framed, List.append_nil]
  simp only [drain, rested, Processor.rested, framed, Processor.framed, List.append_nil,
    List.nil_append]
  rfl

variable [Store σ]

/-- Each chunk is pushed and followed by a run, whose result is ignored but for the last, and by
draining the output. The words drained are taken together. -/
inductive Feeds :
    Machine σ → List (List Word) → List Word → Except Fault Status → Machine σ → Prop
  | last {machine stopped : Machine σ} {chunk : List Word} {result : Except Fault Status}
      (hrun : Returns (fun budget => (machine.pushAll chunk).run budget) (stopped, result)) :
      Feeds machine [chunk] stopped.drain.1 result stopped.drain.2
  | more {machine stopped last : Machine σ} {chunk drained : List Word}
      {chunks : List (List Word)} {ignored result : Except Fault Status}
      (hrun : Returns (fun budget => (machine.pushAll chunk).run budget) (stopped, ignored))
      (hrest : Feeds stopped.drain.2 chunks drained result last) :
      Feeds machine (chunk :: chunks) (stopped.drain.1 ++ drained) result last

theorem reaches_pushAll {machine stopped : Machine σ} {chunk : List Word}
    (h : (machine.pushAll chunk).rested.Reaches stopped.rested) (later : List Word) :
    (machine.pushAll (chunk ++ later)).rested.Reaches
      ((stopped.drain.2.pushAll later).rested.framed stopped.output []) := by
  have hframed := h.framed [] later
  rw [rested_pushAll, framed_framed] at hframed
  rw [drained_pushAll, rested_pushAll]
  exact hframed

/-- Feeding follows the course of the machine that has all the inputs, with the words drained so far
put in front of the output. -/
theorem Feeds.settles {machine last : Machine σ} {chunks : List (List Word)}
    {drained : List Word} {result : Except Fault Status}
    (h : Feeds machine chunks drained result last) :
    (machine.pushAll chunks.flatten).rested.Settles result (last.rested.framed drained []) ∧
      ∀ status, result = .ok status → last.status = status := by
  induction h with
  | @last machine stopped chunk result hrun =>
    obtain ⟨budget, hrun⟩ := hrun
    obtain ⟨hreaches, hstopped⟩ := run_stopped hrun
    have hdrained : stopped.drain.2.rested.framed stopped.drain.1 [] = stopped.rested :=
      (stopped.drained_pushAll []).trans (framed_nil _)
    rw [List.flatten_singleton, hdrained]
    exact ⟨⟨hreaches, stopped.course_rested.trans hstopped.course_eq⟩, hstopped.status_eq⟩
  | @more machine stopped last chunk drained chunks ignored result hrun hrest ih =>
    obtain ⟨budget, hrun⟩ := hrun
    obtain ⟨hreaches, _⟩ := run_stopped hrun
    obtain ⟨hsettles, hstatus⟩ := ih
    refine ⟨?_, hstatus⟩
    rw [List.flatten_cons, Reaches.settles_iff (reaches_pushAll hreaches chunks.flatten)]
    have hframed := hsettles.framed stopped.output
    rw [framed_framed] at hframed
    exact hframed

theorem Feeds.output_eq_nil {machine last : Machine σ} {chunks : List (List Word)}
    {drained : List Word} {result : Except Fault Status}
    (h : Feeds machine chunks drained result last) : last.output = [] := by
  induction h with
  | last => rfl
  | more _ _ ih => exact ih

theorem exists_feeds {chunks : List (List Word)} (hchunks : chunks ≠ []) {machine last : Machine σ}
    {result : Except Fault Status}
    (h : (machine.pushAll chunks.flatten).rested.Settles result last) :
    ∃ drained result last, Feeds machine chunks drained result last := by
  induction chunks generalizing machine last result with
  | nil => exact absurd rfl hchunks
  | cons chunk chunks ih =>
    have hframed :
        ((machine.pushAll chunk).rested.framed [] chunks.flatten).Settles result last := by
      rw [List.flatten_cons, rested_pushAll] at h
      rw [rested_pushAll, framed_framed]
      exact h
    obtain ⟨ignored, middle, hsettles⟩ := hframed.of_framed
    obtain ⟨stopped, hrun, rfl, _⟩ := hsettles.exists_run
    cases chunks with
    | nil => exact ⟨_, _, _, .last hrun⟩
    | cons chunk' chunks =>
      have hreaches := reaches_pushAll hsettles.1 (chunk' :: chunks).flatten
      rw [List.flatten_cons, Reaches.settles_iff hreaches] at h
      obtain ⟨result', last', hrest⟩ := h.of_framed
      obtain ⟨drained, result'', last'', hfeeds⟩ := ih nofun hrest
      exact ⟨_, _, _, .more hrun hfeeds⟩

/-- How the inputs are cut into chunks is invisible to the program. -/
theorem feeds_agree_with_run (machine : Machine σ) {chunks : List (List Word)}
    (hchunks : chunks ≠ []) :
    ((∃ answer, Returns (fun budget => (machine.pushAll chunks.flatten).run budget) answer) ↔
      ∃ drained result last, Feeds machine chunks drained result last) ∧
    ∀ {stopped last : Machine σ} {drained : List Word} {result result' : Except Fault Status},
      Returns (fun budget => (machine.pushAll chunks.flatten).run budget) (stopped, result) →
      Feeds machine chunks drained result' last →
      result' = result ∧ last.store = stopped.store ∧ last.pc = stopped.pc ∧
        last.base = stopped.base ∧ last.input = stopped.input ∧ drained = stopped.output ∧
        ∀ status, result = .ok status → last.status = stopped.status := by
  refine ⟨⟨?_, ?_⟩, ?_⟩
  · rintro ⟨⟨stopped, result⟩, budget, hrun⟩
    obtain ⟨hreaches, hstopped⟩ := run_stopped hrun
    exact exists_feeds hchunks ⟨hreaches, stopped.course_rested.trans hstopped.course_eq⟩
  · rintro ⟨drained, result, last, hfeeds⟩
    obtain ⟨stopped, hrun, _⟩ := hfeeds.settles.1.exists_run
    exact ⟨_, hrun⟩
  · rintro stopped last drained result result' ⟨budget, hrun⟩ hfeeds
    obtain ⟨hreaches, hstopped⟩ := run_stopped hrun
    obtain ⟨hsettles, hstatus⟩ := hfeeds.settles
    obtain ⟨rfl, heq⟩ :=
      hsettles.unique ⟨hreaches, stopped.course_rested.trans hstopped.course_eq⟩
    have hinput : last.input ++ [] = stopped.input := congrArg (·.input) heq
    refine ⟨rfl, congrArg (·.store) heq, congrArg (·.pc) heq, congrArg (·.base) heq,
      (List.append_nil _).symm.trans hinput, ?_, ?_⟩
    · have houtput : drained ++ last.output = stopped.output := congrArg (·.output) heq
      rwa [hfeeds.output_eq_nil, List.append_nil] at houtput
    · intro status hresult
      rw [hstatus status hresult, hstopped.status_eq status hresult]

/-- Two numbers are echoed one by one; the second comes after a run without any new input. -/
theorem feeds_agree_with_run_echo :
    let machine : Machine Dense := load [3, 0, 4, 0, 3, 0, 4, 0, 99]
    let chunks : List (List Word) := [[5], [], [6]]
    ∃ (stopped last : Machine Dense) (drained : List Word) (result : Except Fault Status),
      Returns (fun budget => (machine.pushAll chunks.flatten).run budget) (stopped, .ok .halted) ∧
      Feeds machine chunks drained result last ∧
      result = .ok .halted ∧ drained = stopped.output ∧ stopped.output = [5, 6] := by
  intro machine chunks
  have hagree := feeds_agree_with_run machine (show chunks ≠ [] from nofun)
  have hanswer : (((load [3, 0, 4, 0, 3, 0, 4, 0, 99] : Machine Dense).pushAll [5, 6]).run 10).map
      (fun answer => (answer.1.output, answer.2)) = some ([5, 6], .ok .halted) := by cbv
  obtain ⟨⟨stopped, ran⟩, hrun, hanswer⟩ := Option.map_eq_some_iff.mp hanswer
  obtain ⟨houtput, rfl⟩ := Prod.mk.inj hanswer
  obtain ⟨drained, result, last, hfeeds⟩ := hagree.1.mp ⟨_, 10, hrun⟩
  obtain ⟨hresult, _, _, _, _, hdrained, _⟩ := hagree.2 ⟨10, hrun⟩ hfeeds
  exact ⟨stopped, last, drained, result, ⟨10, hrun⟩, hfeeds, hresult, hdrained, houtput⟩

end Intcode.Machine
