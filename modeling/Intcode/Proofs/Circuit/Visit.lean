import Intcode.Proofs.Circuit.Traffic

/-!
The visits of a loop, told apart by the way in which the run of the visited stage ends, and as steps
of the network that the ring is. In a ring without pending output, every visit hands on the word
that it has just made its stage put out. The visits since the last one that was not idle have each
left a stage that cannot go on, so a loop that has been idle for a lap has a ring that is stuck.
-/
namespace Intcode

variable {σ : Type} {n : Nat}

/-- What the end of a loop says about the network that it started from and the words that its stages
have put out. -/
structure Ring.Ends [Store σ] (start : Network σ n) (traffic : Traffic n) (ring : Ring σ n)
    (answer : Except Failure Word) : Prop where
  output_eq : ∀ stage : Fin (n + 1), ring[stage].output = []
  leads : start.Leads (ring.network traffic)
  ok : ∀ value, answer = .ok value → ring[Fin.last n].status = .halted ∧
    (traffic.putOut (Fin.last n)).getLast? = some value
  noOutput : answer = .error .noOutput → ring[Fin.last n].status = .halted ∧
    traffic.putOut (Fin.last n) = []
  deadlock : ∀ stage, answer = .error (.deadlock stage) → ring[Fin.last n].status ≠ .halted ∧
    (ring.network traffic).Stuck

namespace Loop

/-- A run that ends with this status makes the visit an idle one. -/
def Idles (loop : Loop σ n) (status : Status) : Prop :=
  status = .awaitingInput ∨
    status = .halted ∧ loop.ring[loop.cursor].status = .halted ∧ loop.cursor ≠ Fin.last n

theorem Idles.ne_halted {loop : Loop σ n} {status : Status} (h : loop.Idles status)
    (hlast : loop.cursor = Fin.last n) : status ≠ .halted := by
  rcases h with rfl | ⟨_, _, hother⟩
  · decide
  · exact absurd hlast hother

/-- The visit before was to the stage before, so a stage that was visited idly by then still was
after one idle visit more. -/
theorem val_sub_lt {cursor stage : Fin (n + 1)} {idle : Nat} (hne : stage ≠ cursor)
    (h : (cursor - stage).val < idle + 1) : (cursor - 1 - stage).val < idle := by
  have hpos : cursor - stage ≠ 0 := sub_ne_zero.mpr hne.symm
  rw [sub_right_comm, Fin.val_sub_one_of_ne_zero hpos]
  have := Fin.val_ne_zero_iff.mpr hpos
  omega

/-- Before the last stage the cursor is moved on by one. -/
theorem val_cursor_add_one {loop : Loop σ n} {visits : Nat} (hcursor : loop.cursor.val = visits)
    (hvisits : visits < n) : (loop.cursor + 1).val = visits + 1 := by
  have hlast : loop.cursor < Fin.last n := by
    rw [Fin.lt_def, hcursor]
    exact hvisits
  rw [Fin.val_add_one_of_lt hlast, hcursor]

/-- What holds of the stages visited idly, and of the visited stage after one idle visit more, holds
of the stages visited idly by then. -/
theorem forall_idle_set {P : Fin (n + 1) → Machine σ → Prop} {loop : Loop σ n} {stopped : Machine σ}
    (hidle : ∀ stage : Fin (n + 1), (loop.cursor - 1 - stage).val < loop.idle →
      P stage loop.ring[stage])
    (hstopped : P loop.cursor stopped) (stage : Fin (n + 1))
    (hstage : (loop.cursor - stage).val < loop.idle + 1) :
    P stage (loop.ring.set loop.cursor stopped)[stage] := by
  rw [Ring.getElem_set]
  split
  · next heq => exact heq ▸ hstopped
  · next hne => exact hidle stage (val_sub_lt hne hstage)

variable [Store σ]

/-- The words that a visit makes its stage put out. -/
def traffic (budget : Nat) (loop : Loop σ n) : Traffic n :=
  .ofStage loop.cursor (loop.ring[loop.cursor].emitted Machine.endsRunToOutput budget)

/-- The loop after a visit that leaves the machine at its stage and hands the word on. -/
def passOn (loop : Loop σ n) (machine : Machine σ) (value : Word) : Loop σ n where
  ring := Ring.send (loop.ring.set loop.cursor machine) (loop.cursor + 1) value
  cursor := loop.cursor + 1
  idle := 0
  answer := if loop.cursor = Fin.last n then some value else loop.answer

/-- What a visit does, by the way in which the run of its stage ends. -/
inductive Visiting (budget : Nat) (loop : Loop σ n) : Prop
  | endless (hrun : loop.ring[loop.cursor].runToOutput budget = none)
      (hvisit : loop.visit budget = .stop none)
  | failed (stopped : Machine σ) (fault : Fault)
      (hrun : loop.ring[loop.cursor].runToOutput budget = some (stopped, .error fault))
      (hreaches : loop.ring[loop.cursor].rested.ReachesSilently stopped.rested)
      (htraffic : loop.traffic budget = .ofStage loop.cursor #[])
      (hvisit : loop.visit budget =
        .stop (some (loop.ring.set loop.cursor stopped, .error (.fault fault))))
  | handedOn (before stopped : Machine σ) (value first : Word) (rest : List Word)
      (hrun : loop.ring[loop.cursor].runToOutput budget = some (stopped, .ok .afterOutput))
      (hreaches : loop.ring[loop.cursor].rested.ReachesSilently before)
      (hcourse : before.course = .next stopped.rested)
      (houtput : stopped.output = loop.ring[loop.cursor].output ++ [value])
      (hqueue : stopped.output = first :: rest)
      (htraffic : loop.traffic budget = .ofStage loop.cursor #[value])
      (hvisit : loop.visit budget = .next (loop.passOn { stopped with output := rest } first))
  | finished (stopped : Machine σ) (hlast : loop.cursor = Fin.last n)
      (hrun : loop.ring[loop.cursor].runToOutput budget = some (stopped, .ok .halted))
      (hreaches : loop.ring[loop.cursor].rested.ReachesSilently stopped.rested)
      (hstopped : stopped.Stopped (.ok .halted))
      (htraffic : loop.traffic budget = .ofStage loop.cursor #[])
      (hvisit : loop.visit budget = finish { loop with ring := loop.ring.set loop.cursor stopped })
  | halted (stopped : Machine σ) (hlast : loop.cursor ≠ Fin.last n)
      (hrun : loop.ring[loop.cursor].runToOutput budget = some (stopped, .ok .halted))
      (hstatus : loop.ring[loop.cursor].status ≠ .halted)
      (hreaches : loop.ring[loop.cursor].rested.ReachesSilently stopped.rested)
      (hstopped : stopped.Stopped (.ok .halted))
      (htraffic : loop.traffic budget = .ofStage loop.cursor #[])
      (hvisit : loop.visit budget =
        .next ⟨loop.ring.set loop.cursor stopped, loop.cursor + 1, 0, loop.answer⟩)
  | idle (stopped : Machine σ) (status : Status)
      (hrun : loop.ring[loop.cursor].runToOutput budget = some (stopped, .ok status))
      (hstatus : loop.Idles status)
      (hreaches : loop.ring[loop.cursor].rested.ReachesSilently stopped.rested)
      (hstopped : stopped.Stopped (.ok status))
      (htraffic : loop.traffic budget = .ofStage loop.cursor #[])
      (hvisit : loop.visit budget =
        settle { loop with ring := loop.ring.set loop.cursor stopped, idle := loop.idle + 1 })

theorem visiting (budget : Nat) (loop : Loop σ n) : loop.Visiting budget := by
  cases hrun : loop.ring[loop.cursor].runToOutput budget with
  | none => exact .endless hrun (by simp only [visit, hrun])
  | some ended =>
    obtain ⟨stopped, result⟩ := ended
    have hruns := Machine.runToOutput_runs hrun
    have htraffic : loop.traffic budget = .ofStage loop.cursor
      (loop.ring[loop.cursor].emitted Machine.endsRunToOutput budget) := rfl
    generalize loop.ring[loop.cursor].emitted Machine.endsRunToOutput budget = words
      at hruns htraffic
    cases hruns with
    | @spoke before value hreaches hcourse houtput _ hresult =>
      subst hresult
      cases hqueue : stopped.output with
      | nil => simp [hqueue] at houtput
      | cons first rest =>
        have hpop : (loop.ring.set loop.cursor stopped)[loop.cursor].pop? =
            some (first, { stopped with output := rest }) := by
          rw [Ring.getElem_set, if_pos rfl, Machine.pop?, Processor.pop?, hqueue]
          rfl
        refine .handedOn before stopped value first rest hrun hreaches hcourse houtput hqueue
          htraffic ?_
        simp only [visit, hrun, handOn, hpop, Ring.set_set, settle, Nat.not_lt_zero, if_false,
          passOn]
    | ended hreaches hstopped =>
      cases result with
      | error fault =>
        exact .failed stopped fault hrun hreaches htraffic (by simp only [visit, hrun])
      | ok status =>
        cases status with
        | awaitingInput =>
          exact .idle stopped .awaitingInput hrun (.inl rfl) hreaches hstopped htraffic
            (by simp only [visit, hrun])
        | ready | afterOutput => rcases hstopped.halted_or_waiting with h | h <;> cases h
        | halted =>
          by_cases hlast : loop.cursor = Fin.last n
          · refine .finished stopped hlast hrun hreaches hstopped htraffic ?_
            simp only [visit, hrun]
            exact if_pos hlast
          · by_cases hstatus : loop.ring[loop.cursor].status = .halted
            · refine .idle stopped .halted hrun (.inr ⟨rfl, hstatus, hlast⟩) hreaches hstopped
                htraffic ?_
              simp only [visit, hrun, if_neg hlast, if_pos hstatus]
            · refine .halted stopped hlast hrun hstatus hreaches hstopped htraffic ?_
              simp only [visit, hrun, if_neg hlast, if_neg hstatus, settle, Nat.not_lt_zero,
                if_false]

section Visits

variable {budget : Nat} {loop : Loop σ n} {stopped : Machine σ} {value : Word}

/-- A visit to a stage that puts out the only word in its queue. -/
theorem visit_of_spoken
    (hrun : loop.ring[loop.cursor].runToOutput budget = some (stopped, .ok .afterOutput))
    (houtput : stopped.output = [value]) :
    loop.visit budget = .next (loop.passOn stopped.drain.2 value) := by
  cases loop.visiting budget with
  | endless hrun' | failed _ _ hrun' | finished _ _ hrun' | halted _ _ hrun' =>
    cases hrun.symm.trans hrun'
  | idle _ _ hrun' hstatus =>
    cases hrun.symm.trans hrun'
    rcases hstatus with h | h
    · cases h
    · cases h.1
  | handedOn before stopped' value' first rest hrun' _ _ _ hqueue _ hvisit =>
    cases hrun.symm.trans hrun'
    rw [houtput] at hqueue
    cases hqueue
    exact hvisit

/-- A visit in which a stage other than the last halts. -/
theorem visit_of_halted (hother : loop.cursor ≠ Fin.last n)
    (hstatus : loop.ring[loop.cursor].status ≠ .halted)
    (hrun : loop.ring[loop.cursor].runToOutput budget = some (stopped, .ok .halted)) :
    loop.visit budget =
      .next ⟨loop.ring.set loop.cursor stopped, loop.cursor + 1, 0, loop.answer⟩ := by
  cases loop.visiting budget with
  | endless hrun' | failed _ _ hrun' | handedOn _ _ _ _ _ hrun' => cases hrun.symm.trans hrun'
  | finished _ hlast => exact absurd hlast hother
  | idle _ _ hrun' hidles =>
    cases hrun.symm.trans hrun'
    rcases hidles with h | h
    · cases h
    · exact absurd h.2.1 hstatus
  | halted _ _ hrun' _ _ _ _ hvisit =>
    cases hrun.symm.trans hrun'
    exact hvisit

/-- A visit in which the last stage halts. -/
theorem visit_of_finished (hlast : loop.cursor = Fin.last n)
    (hrun : loop.ring[loop.cursor].runToOutput budget = some (stopped, .ok .halted)) :
    loop.visit budget = finish { loop with ring := loop.ring.set loop.cursor stopped } := by
  cases loop.visiting budget with
  | endless hrun' | failed _ _ hrun' | handedOn _ _ _ _ _ hrun' => cases hrun.symm.trans hrun'
  | halted _ hother => exact absurd hlast hother
  | idle _ _ hrun' hidles =>
    cases hrun.symm.trans hrun'
    exact absurd rfl (hidles.ne_halted hlast)
  | finished _ _ hrun' _ _ _ hvisit =>
    cases hrun.symm.trans hrun'
    exact hvisit

theorem visit_of_idle {status : Status} (hidles : loop.Idles status)
    (hrun : loop.ring[loop.cursor].runToOutput budget = some (stopped, .ok status)) :
    loop.visit budget =
      settle { loop with ring := loop.ring.set loop.cursor stopped, idle := loop.idle + 1 } := by
  cases loop.visiting budget with
  | endless hrun' | failed _ _ hrun' => cases hrun.symm.trans hrun'
  | handedOn _ _ _ _ _ hrun' =>
    cases hrun.symm.trans hrun'
    rcases hidles with h | h
    · cases h
    · cases h.1
  | finished _ hlast hrun' =>
    cases hrun.symm.trans hrun'
    exact absurd rfl (hidles.ne_halted hlast)
  | halted _ _ hrun' hstatus =>
    cases hrun.symm.trans hrun'
    rcases hidles with h | h
    · cases h
    · exact absurd h.2.1 hstatus
  | idle _ _ hrun' _ _ _ _ hvisit =>
    cases hrun.symm.trans hrun'
    exact hvisit

end Visits

/-- A visit is the same on a larger budget if it comes to its end on the smaller one. -/
theorem visit_mono {budget : Nat} {loop : Loop σ n} (h : loop.visit budget ≠ .stop none)
    (more : Nat) : loop.visit (budget + more) = loop.visit budget := by
  unfold visit at h ⊢
  cases hrun : loop.ring[loop.cursor].runToOutput budget with
  | none =>
    rw [hrun] at h
    exact absurd rfl h
  | some ended =>
    have hmore : loop.ring[loop.cursor].runToOutput (budget + more) = some ended :=
      iterate_mono hrun more
    rw [hmore]

/-- What a loop keeps up: no output is pending, and the stages visited idly, the last of them the
given one, cannot go on. -/
structure Sound (start : Network σ n) (visited : Fin (n + 1)) (loop : Loop σ n)
    (traffic : Traffic n) : Prop where
  output_eq : ∀ stage : Fin (n + 1), loop.ring[stage].output = []
  leads : start.Leads (loop.ring.network traffic)
  answer_eq : loop.answer = (traffic.putOut (Fin.last n)).getLast?
  idle : ∀ stage : Fin (n + 1), (visited - stage).val < loop.idle →
    (∃ result, loop.ring[stage].course = .stop result) ∧
      (stage = Fin.last n → loop.ring[stage].status ≠ .halted)

/-- A turn after which the loop is sound or has ended as it should. -/
def Keeps (start : Network σ n) (traffic : Traffic n) : Turn (Loop σ n) (Outcome σ n) → Prop
  | .next after => Sound start (after.cursor - 1) after traffic
  | .stop none => True
  | .stop (some (ring, answer)) => Ring.Ends start traffic ring answer

variable {start : Network σ n} {visited : Fin (n + 1)} {loop : Loop σ n} {traffic : Traffic n}

theorem Sound.settle (h : Sound start loop.cursor loop traffic) :
    Keeps start traffic loop.settle := by
  unfold Loop.settle
  split
  · next hlap =>
    have hidle (stage : Fin (n + 1)) := h.idle stage (by omega)
    have hstuck : (loop.ring.network traffic).Stuck := by
      intro stage
      obtain ⟨result, hstop⟩ := (hidle stage).1
      refine ⟨result, Machine.course_framed_stop ?_ _ fun _ => rfl⟩
      rw [Machine.course_rested, hstop]
    exact ⟨h.output_eq, h.leads, nofun, nofun, fun _ _ => ⟨(hidle (Fin.last n)).2 rfl, hstuck⟩⟩
  · refine ⟨h.output_eq, h.leads, h.answer_eq, ?_⟩
    simpa only [add_sub_cancel_right] using h.idle

theorem Sound.output_set (h : Sound start visited loop traffic) {stopped : Machine σ}
    (hreaches : loop.ring[loop.cursor].rested.ReachesSilently stopped.rested) :
    ∀ stage : Fin (n + 1), (loop.ring.set loop.cursor stopped)[stage].output = [] :=
  Ring.empty_set h.output_eq loop.cursor (hreaches.output_eq.trans (h.output_eq loop.cursor))

/-- The ring after a run that puts nothing out. -/
theorem Sound.leads_set (h : Sound start visited loop traffic) {stopped : Machine σ}
    (hreaches : loop.ring[loop.cursor].rested.ReachesSilently stopped.rested) :
    start.Leads (Ring.network (loop.ring.set loop.cursor stopped) traffic) := by
  rw [Ring.network_set]
  exact h.leads.trans (Network.leads_of_silent rfl hreaches)

theorem Sound.idle_visit (h : Sound start (loop.cursor - 1) loop traffic) {stopped : Machine σ}
    {result : Except Fault Status}
    (hreaches : loop.ring[loop.cursor].rested.ReachesSilently stopped.rested)
    (hstopped : stopped.Stopped result)
    (hlast : loop.cursor = Fin.last n → stopped.status ≠ .halted) :
    Sound start loop.cursor
      { loop with ring := loop.ring.set loop.cursor stopped, idle := loop.idle + 1 } traffic where
  output_eq := h.output_set hreaches
  leads := h.leads_set hreaches
  answer_eq := h.answer_eq
  idle :=
    forall_idle_set (P := fun stage machine => (∃ result, machine.course = .stop result) ∧
      (stage = Fin.last n → machine.status ≠ .halted)) h.idle
      ⟨⟨result, hstopped.course_eq⟩, hlast⟩

theorem keeps_finish (houtput : ∀ stage : Fin (n + 1), loop.ring[stage].output = [])
    (hleads : start.Leads (loop.ring.network traffic))
    (hanswer : loop.answer = (traffic.putOut (Fin.last n)).getLast?)
    (hhalted : loop.ring[Fin.last n].status = .halted) : Keeps start traffic loop.finish := by
  unfold Loop.finish
  split
  · next hnone =>
    rw [hnone, eq_comm, List.getLast?_eq_none_iff] at hanswer
    exact ⟨houtput, hleads, nofun, fun _ => ⟨hhalted, hanswer⟩, nofun⟩
  · next value hsome =>
    refine ⟨houtput, hleads, ?_, nofun, nofun⟩
    rintro _ ⟨⟩
    exact ⟨hhalted, hanswer.symm.trans hsome⟩

/-- A visit that hands a word on. -/
theorem Sound.visit_handedOn (h : Sound start visited loop traffic)
    {before stopped : Machine σ} {value first : Word} {rest : List Word}
    (hreaches : loop.ring[loop.cursor].rested.ReachesSilently before)
    (hcourse : before.course = .next stopped.rested)
    (houtput : stopped.output = loop.ring[loop.cursor].output ++ [value])
    (hqueue : stopped.output = first :: rest) :
    Keeps start (traffic ++ .ofStage loop.cursor #[value])
      (.next (loop.passOn { stopped with output := rest } first)) := by
  have hempty := h.output_eq loop.cursor
  rw [hempty, List.nil_append] at houtput
  rw [houtput] at hqueue
  obtain ⟨rfl, rfl⟩ := List.cons.inj hqueue
  refine ⟨?_, ?_, ?_, nofun⟩
  · exact Ring.empty_send (Ring.empty_set h.output_eq loop.cursor rfl) _ value
  · dsimp only [passOn]
    rw [Ring.network_handOn hempty houtput]
    exact h.leads.trans (Network.leads_of_silent_step rfl hreaches hcourse)
  · dsimp only [passOn]
    split
    · next hlast => rw [← hlast, Traffic.putOut_self, List.getLast?_concat]
    · next hlast =>
      rw [Traffic.putOut_of_ne traffic hlast]
      exact h.answer_eq

theorem Sound.visit (h : Sound start (loop.cursor - 1) loop traffic) (budget : Nat) :
    Keeps start (traffic ++ loop.traffic budget) (loop.visit budget) := by
  cases loop.visiting budget with
  | endless _ hvisit =>
    rw [hvisit]
    exact trivial
  | failed stopped fault _ hreaches htraffic hvisit =>
    rw [hvisit, htraffic, Traffic.append_ofStage_empty]
    exact ⟨h.output_set hreaches, h.leads_set hreaches, nofun, nofun, nofun⟩
  | handedOn before stopped value first rest _ hreaches hcourse houtput hqueue htraffic hvisit =>
    rw [hvisit, htraffic]
    exact h.visit_handedOn hreaches hcourse houtput hqueue
  | finished stopped hlast _ hreaches hstopped htraffic hvisit =>
    rw [hvisit, htraffic, Traffic.append_ofStage_empty]
    refine keeps_finish (h.output_set hreaches) (h.leads_set hreaches) h.answer_eq ?_
    rw [Ring.getElem_set, if_pos hlast.symm]
    exact hstopped.status_eq _ rfl
  | halted stopped _ _ _ hreaches _ htraffic hvisit =>
    rw [hvisit, htraffic, Traffic.append_ofStage_empty]
    exact ⟨h.output_set hreaches, h.leads_set hreaches, h.answer_eq, nofun⟩
  | idle stopped status _ hstatus hreaches hstopped htraffic hvisit =>
    rw [hvisit, htraffic, Traffic.append_ofStage_empty]
    refine Sound.settle (h.idle_visit hreaches hstopped ?_)
    intro hlast
    rw [hstopped.status_eq status rfl]
    exact hstatus.ne_halted hlast

theorem sound_start {ring : Ring σ n} (hempty : ∀ stage : Fin (n + 1), ring[stage].output = [])
    (signal : Word) (visited : Fin (n + 1)) :
    Sound (Ring.network (ring.send 0 signal) #[]) visited (Loop.start ring signal) #[] where
  output_eq := Ring.empty_send hempty 0 signal
  leads := .refl
  answer_eq := rfl
  idle _ h := absurd h (Nat.not_lt_zero _)

end Loop

namespace Ring

variable [Store σ]

/-- The words that the stages put out while the ring runs as a loop. -/
def loopTraffic (ring : Ring σ n) (budget : Nat) (signal : Word) : Traffic n :=
  journal (Loop.visit budget) (Loop.traffic budget) budget (Loop.start ring signal) #[]

theorem loop_ends {ring after : Ring σ n} (hempty : ∀ stage : Fin (n + 1), ring[stage].output = [])
    {budget : Nat} {signal : Word} {answer : Except Failure Word}
    (h : iterate (Loop.visit budget) budget (Loop.start ring signal) =
      some (some (after, answer))) :
    Ends (network (ring.send 0 signal) #[]) (ring.loopTraffic budget signal) after answer := by
  have hsound := Loop.sound_start hempty signal ((Loop.start ring signal).cursor - 1)
  generalize network (ring.send 0 signal) #[] = start at hsound ⊢
  refine iterate_keeps (Loop.traffic budget) (Loop.Keeps start) ?_ #[] hsound h
  intro loop traffic hloop
  exact Loop.Sound.visit hloop budget

end Ring

namespace Circuit

variable [Store σ]

/-- The words that a stage puts out while the circuit runs as a loop, oldest first. -/
def loopOutputs (budget : Nat) (circuit : Circuit σ) (signal : Word) (stage : Nat) : List Word :=
  match circuit with
  | [] => []
  | first :: rest =>
    let ring : Ring σ rest.length := ⟨(first :: rest).toArray, Ring.size_toArray first rest⟩
    (ring.loopTraffic budget signal).putOut stage

theorem loopOutputs_toList (ring : Ring σ n) (budget : Nat) (signal : Word) (stage : Nat) :
    loopOutputs budget ring.toList signal stage =
      (ring.loopTraffic budget signal).putOut stage := by
  obtain ⟨⟨stages⟩, hsize⟩ := ring
  cases stages with
  | nil => cases hsize
  | cons first rest =>
    cases hsize
    rfl

/-- A loop that returns has an end of its visits. -/
theorem exists_of_runLoop {ring : Ring σ n} {budget : Nat} {signal : Word} {circuit : Circuit σ}
    {answer : Except Failure Word}
    (h : runLoop budget ring.toList signal = some (circuit, answer)) :
    ∃ after : Ring σ n, circuit = after.toList ∧
      iterate (Loop.visit budget) budget (Loop.start ring signal) =
        some (some (after, answer)) := by
  obtain ⟨⟨stages⟩, hsize⟩ := ring
  cases stages with
  | nil => cases hsize
  | cons first rest =>
    cases hsize
    obtain ⟨⟨after, result⟩, hjoin, hpair⟩ := Option.map_eq_some_iff.mp h
    cases hpair
    exact ⟨after, rfl, Option.join_eq_some_iff.mp hjoin⟩

theorem runLoop_mono {circuit : Circuit σ} {budget : Nat} {signal : Word}
    {outcome : Circuit σ × Except Failure Word} (h : runLoop budget circuit signal = some outcome)
    (more : Nat) : runLoop (budget + more) circuit signal = some outcome := by
  cases circuit with
  | nil => exact h
  | cons first rest =>
    obtain ⟨ended, hended, hpair⟩ := Option.map_eq_some_iff.mp h
    rw [Option.join_eq_some_iff] at hended
    have hmore := iterate_mono_of_turn (fun _ hvisit => Loop.visit_mono hvisit more) hended more
    exact Option.map_eq_some_iff.mpr ⟨ended, Option.join_eq_some_iff.mpr hmore, hpair⟩

/-- What a loop that returns says about the network that it started from. -/
theorem runLoop_ends {ring : Ring σ n} (hempty : ∀ stage : Fin (n + 1), ring[stage].output = [])
    {budget : Nat} {signal : Word} {circuit : Circuit σ} {answer : Except Failure Word}
    (h : runLoop budget ring.toList signal = some (circuit, answer)) :
    ∃ after : Ring σ n, circuit = after.toList ∧
      Ring.Ends (Ring.network (ring.send 0 signal) #[]) (ring.loopTraffic budget signal) after
        answer := by
  obtain ⟨after, rfl, hloop⟩ := exists_of_runLoop h
  exact ⟨after, rfl, Ring.loop_ends hempty hloop⟩

end Circuit

end Intcode
