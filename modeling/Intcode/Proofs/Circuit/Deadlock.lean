import Intcode.Proofs.Circuit.Visit

/-!
Deadlocks. A visit stirs the ring if it hands a word on or sees its stage halt for the first time.
The stages visited since the last stir have each run to a point where they cannot go on, and nothing
has been given to them since, so when a whole lap has gone by without a stir no stage can go on. The
lap ends at the stage that stirred last.
-/
namespace Intcode

namespace Machine

variable {σ : Type} [Store σ] {machine : Machine σ} {status : Status}

/-- A machine at the end of its course has halted or wants a word that is not there. -/
theorem Stopped.halted_or_starved (h : machine.Stopped (.ok status)) :
    machine.status = .halted ∨ machine.status = .awaitingInput ∧ machine.input = [] := by
  have hcourse := h.course_eq
  have hstatus := h.status_eq status rfl
  cases machine.stepping with
  | halted hhalted => exact .inl hhalted
  | failed _ _ hstop => cases hstop.symm.trans hcourse
  | waited _ hinput hstop =>
    cases hstop.symm.trans hcourse
    exact .inr ⟨hstatus, hinput⟩
  | silent _ _ _ _ hnext | spoke _ _ _ _ _ hnext => cases hnext.symm.trans hcourse

/-- Running such a machine once more changes nothing. -/
theorem Stopped.runToOutput_eq (h : machine.Stopped (.ok status)) (budget : Nat) :
    machine.runToOutput (budget + 1) = some (machine, .ok status) := by
  rw [runToOutput, iterate, h.turn_eq rfl]

end Machine

variable {σ : Type} {n : Nat} [Store σ]

namespace Loop

/-- The visited stage, if the visit hands a word on or if its stage halts in it. -/
def stirs (budget : Nat) (loop : Loop σ n) : Array (Fin (n + 1)) :=
  match loop.ring[loop.cursor].runToOutput budget with
  | some (_, .ok .afterOutput) => #[loop.cursor]
  | some (_, .ok .halted) =>
    if loop.ring[loop.cursor].status = .halted then #[] else #[loop.cursor]
  | _ => #[]

/-- The stage that stirred last. Before the first stir a lap is counted from the last stage. -/
def lastStir (stirs : Array (Fin (n + 1))) : Fin (n + 1) := stirs.back?.getD (Fin.last n)

theorem lastStir_append (stirs : Array (Fin (n + 1))) (stage : Fin (n + 1)) :
    lastStir (stirs ++ #[stage]) = stage := by
  simp [lastStir]

/-- The visits since the last stir have gone to the stages behind it, and have left each of them at
the end of its course. -/
structure Starved (loop : Loop σ n) (stirs : Array (Fin (n + 1))) : Prop where
  idle_eq : (loop.cursor - 1 - lastStir stirs).val = loop.idle
  stopped : ∀ stage : Fin (n + 1), (loop.cursor - 1 - stage).val < loop.idle →
    loop.ring[stage].Stopped (.ok loop.ring[stage].status) ∧
      (stage = Fin.last n → loop.ring[stage].status ≠ .halted)

theorem starved_start (ring : Ring σ n) (signal : Word) : Starved (start ring signal) #[] where
  idle_eq := by
    have hlast : (-1 : Fin (n + 1)) = Fin.last n := Fin.ext Fin.coe_neg_one
    change ((0 : Fin (n + 1)) - 1 - Fin.last n).val = 0
    rw [zero_sub, hlast, sub_self]
    rfl
  stopped _ h := absurd h (Nat.not_lt_zero _)

/-- One idle visit more, unless it ends the lap. -/
theorem val_of_sub_one {distance : Fin (n + 1)} {idle : Nat} (h : (distance - 1).val = idle) :
    distance = 0 ∧ idle = n ∨ distance.val = idle + 1 := by
  by_cases hzero : distance = 0
  · subst hzero
    rw [zero_sub, Fin.coe_neg_one] at h
    exact .inl ⟨rfl, h.symm⟩
  · have hpos := Fin.val_ne_zero_iff.mpr hzero
    rw [Fin.val_sub_one_of_ne_zero hzero] at h
    right
    omega

variable {loop : Loop σ n} {stirred : Array (Fin (n + 1))}

/-- After a stir the count begins anew at the visited stage. -/
theorem starved_of_stir {after : Loop σ n} (hcursor : after.cursor = loop.cursor + 1)
    (hidle : after.idle = 0) : Starved after (stirred ++ #[loop.cursor]) where
  idle_eq := by
    rw [lastStir_append, hcursor, add_sub_cancel_right, sub_self, hidle]
    rfl
  stopped _ h := absurd h (by rw [hidle]; exact Nat.not_lt_zero _)

/-- After an idle visit the visited stage is at the end of its course as well. -/
theorem Starved.stopped_set (h : Starved loop stirred) {stopped : Machine σ} {status : Status}
    (hstopped : stopped.Stopped (.ok status))
    (hlast : loop.cursor = Fin.last n → status ≠ .halted) (stage : Fin (n + 1))
    (hstage : (loop.cursor - stage).val < loop.idle + 1) :
    (loop.ring.set loop.cursor stopped)[stage].Stopped
        (.ok (loop.ring.set loop.cursor stopped)[stage].status) ∧
      (stage = Fin.last n → (loop.ring.set loop.cursor stopped)[stage].status ≠ .halted) := by
  have hstatus := hstopped.status_eq status rfl
  refine forall_idle_set (P := fun stage machine => machine.Stopped (.ok machine.status) ∧
    (stage = Fin.last n → machine.status ≠ .halted)) h.stopped ?_ stage hstage
  rw [hstatus]
  exact ⟨hstopped, hlast⟩

theorem stirs_of_idle {budget : Nat} {stopped : Machine σ} {status : Status}
    (hrun : loop.ring[loop.cursor].runToOutput budget = some (stopped, .ok status))
    (hidles : loop.Idles status) : loop.stirs budget = #[] := by
  rcases hidles with rfl | ⟨rfl, hhalted, _⟩
  · simp only [stirs, hrun]
  · simp only [stirs, hrun, if_pos hhalted]

/-- How a loop that is given up at the given stage leaves its ring. -/
structure Deadlocked (ring : Ring σ n) (stirred : Array (Fin (n + 1))) (stage : Nat) : Prop where
  stopped : ∀ stage : Fin (n + 1), ring[stage].Stopped (.ok ring[stage].status)
  last : ring[Fin.last n].status ≠ .halted
  stage_eq : stage = lastStir stirred

/-- A turn after which the count is right, or with which the loop is rightly given up. -/
def Starves (stirred : Array (Fin (n + 1))) : Turn (Loop σ n) (Outcome σ n) → Prop
  | .next after => Starved after stirred
  | .stop (some (ring, .error (.deadlock stage))) => Deadlocked ring stirred stage
  | .stop _ => True

/-- The idle visit that completes a lap is to the stage that stirred last. -/
theorem Starved.settle (h : Starved loop stirred) {stopped : Machine σ} {status : Status}
    (hstopped : stopped.Stopped (.ok status))
    (hlast : loop.cursor = Fin.last n → status ≠ .halted) :
    Starves stirred (Loop.settle
      { loop with ring := loop.ring.set loop.cursor stopped, idle := loop.idle + 1 }) := by
  have hset := h.stopped_set hstopped hlast
  have hidle := h.idle_eq
  rw [sub_right_comm] at hidle
  unfold Loop.settle
  split
  · next hlap =>
    have hlap' : n < loop.idle + 1 := hlap
    have hzero : loop.cursor - lastStir stirred = 0 := by
      rcases val_of_sub_one hidle with ⟨hzero, _⟩ | hval
      · exact hzero
      · have := (loop.cursor - lastStir stirred).isLt
        omega
    refine ⟨fun stage => (hset stage ?_).1, (hset (Fin.last n) ?_).2 rfl, ?_⟩
    · omega
    · omega
    · rw [sub_eq_zero.mp hzero]
  · next hlap =>
    have hlap' : ¬n < loop.idle + 1 := hlap
    constructor
    · dsimp only
      rw [add_sub_cancel_right]
      rcases val_of_sub_one hidle with ⟨_, hfull⟩ | hval
      · omega
      · exact hval
    · intro stage hstage
      rw [add_sub_cancel_right] at hstage
      exact hset stage hstage

theorem Starved.visit (h : Starved loop stirred) (budget : Nat) :
    Starves (stirred ++ loop.stirs budget) (loop.visit budget) := by
  cases loop.visiting budget with
  | endless _ hvisit =>
    rw [hvisit]
    exact trivial
  | failed _ _ _ _ _ hvisit =>
    rw [hvisit]
    exact trivial
  | handedOn _ _ _ _ _ hrun _ _ _ _ _ hvisit =>
    rw [hvisit, stirs, hrun]
    exact starved_of_stir rfl rfl
  | finished _ _ _ _ _ _ hvisit =>
    rw [hvisit, finish]
    split <;> exact trivial
  | halted _ _ hrun hstatus _ _ _ hvisit =>
    simp only [hvisit, stirs, hrun, if_neg hstatus]
    exact starved_of_stir rfl rfl
  | idle stopped status hrun hidles _ hstopped _ hvisit =>
    rw [hvisit, stirs_of_idle hrun hidles, Array.append_empty]
    exact h.settle hstopped hidles.ne_halted

end Loop

namespace Ring

/-- The stages that stir while the ring runs as a loop, in order. -/
def loopStirs (ring : Ring σ n) (budget : Nat) (signal : Word) : Array (Fin (n + 1)) :=
  journal (Loop.visit budget) (Loop.stirs budget) budget (Loop.start ring signal) #[]

theorem loop_deadlocked {ring after : Ring σ n} {budget stage : Nat} {signal : Word}
    (h : iterate (Loop.visit budget) budget (Loop.start ring signal) =
      some (some (after, .error (.deadlock stage)))) :
    Loop.Deadlocked after (ring.loopStirs budget signal) stage := by
  have hstart := Loop.starved_start ring signal
  refine iterate_keeps (Loop.stirs budget) Loop.Starves ?_ #[] hstart h
  intro loop stirred hloop
  exact Loop.Starved.visit hloop budget

end Ring

namespace Circuit

/-- A loop that is given up has a ring in which no stage can go on, and it is given up at the stage
that was the last to hand a word on or to halt. -/
theorem deadlock_is_real {ring : Ring σ n} {budget stage : Nat} {signal : Word}
    {circuit : Circuit σ}
    (h : runLoop budget ring.toList signal = some (circuit, .error (.deadlock stage))) :
    ∃ after : Ring σ n, circuit = after.toList ∧
      after[Fin.last n].status = .awaitingInput ∧
      (∀ stage : Fin (n + 1), after[stage].status = .halted ∨
        after[stage].status = .awaitingInput ∧ after[stage].input = []) ∧
      (∀ (stage : Fin (n + 1)) (budget : Nat), after[stage].runToOutput (budget + 1) =
        some (after[stage], .ok after[stage].status)) ∧
      ((∀ stage : Fin (n + 1), ring[stage].output = []) →
        ∀ stage : Fin (n + 1), after[stage].output = []) ∧
      stage = ((ring.loopStirs budget signal).back?.getD (Fin.last n)).val := by
  obtain ⟨after, rfl, hloop⟩ := exists_of_runLoop h
  have hdeadlocked := Ring.loop_deadlocked hloop
  have hstarved (stage : Fin (n + 1)) := (hdeadlocked.stopped stage).halted_or_starved
  refine ⟨after, rfl, ?_, hstarved, ?_, ?_, hdeadlocked.stage_eq⟩
  · rcases hstarved (Fin.last n) with hhalted | ⟨hwaits, _⟩
    · exact absurd hhalted hdeadlocked.last
    · exact hwaits
  · intro stage budget
    exact (hdeadlocked.stopped stage).runToOutput_eq budget
  · intro hempty
    exact (Ring.loop_ends hempty hloop).output_eq

/-- The first stage passes one word on, the second keeps it, and both want another one. -/
theorem deadlock_is_real_pair :
    let ring : Ring Dense 1 := #v[.load [3, 0, 4, 0, 3, 0, 99], .load [3, 9, 3, 9, 99]]
    ∃ after : Ring Dense 1,
      runLoop 10 ring.toList 7 = some (after.toList, .error (.deadlock 0)) ∧
      ring.loopStirs 10 7 = #[0] ∧ after[Fin.last 1].status = .awaitingInput ∧
      ∀ stage : Fin 2, after[stage].output = [] := by
  intro ring
  have hempty : ∀ stage : Fin 2, ring[stage].output = [] := by decide
  have hanswer : (runLoop 10 ring.toList 7).map Prod.snd = some (.error (.deadlock 0)) := by cbv
  have hstirs : ring.loopStirs 10 7 = #[0] := by cbv
  obtain ⟨⟨circuit, answer⟩, hrun, rfl⟩ := Option.map_eq_some_iff.mp hanswer
  obtain ⟨after, rfl, hlast, _, _, houtput, _⟩ := deadlock_is_real hrun
  exact ⟨after, hrun, hstirs, hlast, houtput hempty⟩

end Circuit

end Intcode
