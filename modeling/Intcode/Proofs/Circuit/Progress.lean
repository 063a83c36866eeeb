import Intcode.Proofs.Circuit.Conservation
import Intcode.Proofs.Circuit.Deadlock
import Intcode.Proofs.Machine.Status

/-!
Progress of a loop. A visit that is not idle hands a word on or sees a stage halt for the first
time, and fewer than a lap of idle visits go by from one such visit to the next. So at every moment
the words handed on and the stages that have halted bound the number of visits, and a loop whose
visits all come to an end comes to an end itself, unless words are handed on without end. If the
last stage has halted before the loop is started, there is only one lap.
-/
namespace Intcode

variable {σ : Type} {n : Nat}

namespace Ring

/-- Every stage that has halted in the one ring has halted in the other. -/
def KeepsHalts (ring after : Ring σ n) : Prop :=
  ∀ stage : Fin (n + 1), ring[stage].status = .halted → after[stage].status = .halted

/-- The stages other than the last that have halted on the way from one ring to the other. -/
def newlyHalted (origin ring : Ring σ n) : Finset (Fin (n + 1)) :=
  {stage | stage ≠ Fin.last n ∧ origin[stage].status ≠ .halted ∧ ring[stage].status = .halted}

/-- How many visits have not been idle: one for each word handed on, and one for each stage that has
halted, the last one apart. -/
def progress (origin ring : Ring σ n) (transfers : Traffic n) : Nat :=
  transfers.size + (newlyHalted origin ring).card

theorem mem_newlyHalted {origin ring : Ring σ n} {stage : Fin (n + 1)} :
    stage ∈ newlyHalted origin ring ↔ stage ≠ Fin.last n ∧ origin[stage].status ≠ .halted ∧
      ring[stage].status = .halted := by
  simp [newlyHalted]

theorem card_newlyHalted_le (origin ring : Ring σ n) : (newlyHalted origin ring).card ≤ n := by
  have hsubset : newlyHalted origin ring ⊆ Finset.univ.erase (Fin.last n) := by
    intro stage hstage
    simp [(mem_newlyHalted.mp hstage).1]
  simpa using Finset.card_le_card hsubset

theorem keepsHalts_send [Store σ] (ring : Ring σ n) (stage : Fin (n + 1)) (value : Word) :
    ring.KeepsHalts (ring.send stage value) := by
  intro other hother
  rw [getElem_send]
  split
  · exact Machine.status_push_of_halted hother value
  · exact hother

variable {ring after last : Ring σ n}

theorem keepsHalts_set {stage : Fin (n + 1)} {machine : Machine σ}
    (h : ring[stage].status = .halted → machine.status = .halted) :
    ring.KeepsHalts (ring.set stage machine) := by
  intro other hother
  rw [getElem_set]
  split
  · next heq =>
    subst other
    exact h hother
  · exact hother

theorem KeepsHalts.trans (h : ring.KeepsHalts after) (h' : after.KeepsHalts last) :
    ring.KeepsHalts last := by
  intro stage hstage
  exact h' stage (h stage hstage)

theorem KeepsHalts.newlyHalted_subset (h : ring.KeepsHalts after) (origin : Ring σ n) :
    newlyHalted origin ring ⊆ newlyHalted origin after := by
  intro stage hstage
  obtain ⟨hother, hgoes, hhalted⟩ := mem_newlyHalted.mp hstage
  exact mem_newlyHalted.mpr ⟨hother, hgoes, h stage hhalted⟩

theorem KeepsHalts.card_le (h : ring.KeepsHalts after) (origin : Ring σ n) :
    (newlyHalted origin ring).card ≤ (newlyHalted origin after).card :=
  Finset.card_le_card (h.newlyHalted_subset origin)

theorem KeepsHalts.progress_le (h : ring.KeepsHalts after) (origin : Ring σ n)
    (transfers : Traffic n) : origin.progress ring transfers ≤ origin.progress after transfers :=
  Nat.add_le_add_left (h.card_le origin) transfers.size

/-- One stage more has halted. -/
theorem KeepsHalts.card_lt (h : ring.KeepsHalts after) {origin : Ring σ n}
    (horigin : origin.KeepsHalts ring) {stage : Fin (n + 1)} (hother : stage ≠ Fin.last n)
    (hgoes : ring[stage].status ≠ .halted) (hhalted : after[stage].status = .halted) :
    (newlyHalted origin ring).card < (newlyHalted origin after).card := by
  have hstart : origin[stage].status ≠ .halted := fun hstatus => hgoes (horigin stage hstatus)
  have hmem : stage ∈ newlyHalted origin after := mem_newlyHalted.mpr ⟨hother, hstart, hhalted⟩
  have hnot : stage ∉ newlyHalted origin ring := fun h => hgoes (mem_newlyHalted.mp h).2.2
  exact Finset.card_lt_card ⟨h.newlyHalted_subset origin, fun hsubset => hnot (hsubset hmem)⟩

end Ring

/-- Running a machine that has halted does nothing. -/
theorem Machine.eq_of_halted [Store σ] {machine stopped : Machine σ} {budget : Nat}
    {result : Except Fault Status} (h : machine.status = .halted)
    (hrun : machine.runToOutput budget = some (stopped, result)) :
    stopped = machine ∧ result = .ok .halted := by
  have hagain := (Machine.stopped_of_halted h).runToOutput_eq 0
  exact Prod.mk.inj (iterate_unique hrun hagain)

namespace Loop

/-- The visits made, at most a lap for each word handed on and each stage halted, and the idle ones
since. -/
structure Paced (origin : Ring σ n) (visits : List (Fin (n + 1))) (transfers : Traffic n)
    (loop : Loop σ n) : Prop where
  length_le : visits.length ≤ (n + 1) * origin.progress loop.ring transfers + loop.idle
  idle_le : loop.idle ≤ n
  keepsHalts : origin.KeepsHalts loop.ring

/-- A turn after which the pace is kept, or with which a loop ends that has kept it. -/
def KeepsPace (origin : Ring σ n) (visits : List (Fin (n + 1))) (transfers : Traffic n) :
    Turn (Loop σ n) (Outcome σ n) → Prop
  | .next after => Paced origin visits transfers after
  | .stop none => True
  | .stop (some (ring, _)) => visits.length ≤ (n + 1) * (origin.progress ring transfers + 1)

/-- The first lap of a loop whose last stage has halted before: the stages are visited in order, and
there is no answer. -/
structure OnlyLap (visits : List (Fin (n + 1))) (loop : Loop σ n) : Prop where
  visits_eq : visits.map Fin.val = List.range visits.length
  cursor_eq : loop.cursor.val = visits.length
  idle_le : loop.idle ≤ visits.length
  halted : loop.ring[Fin.last n].status = .halted
  answer_eq : loop.answer = none

/-- A turn that goes on with the first lap or ends it without an answer. -/
def KeepsLap (visits : List (Fin (n + 1))) : Turn (Loop σ n) (Outcome σ n) → Prop
  | .next after => OnlyLap visits after
  | .stop none => True
  | .stop (some (_, answer)) => visits.map Fin.val = List.range visits.length ∧
      (answer = .error .noOutput ∨ ∃ fault, answer = .error (.fault fault))

section

variable {origin after : Ring σ n} {visits : List (Fin (n + 1))} {transfers : Traffic n}
  {loop : Loop σ n}

/-- Whatever a visit does, the lap that the bound allows on top has room for it. -/
theorem Paced.stop (h : Paced origin visits transfers loop) (hkeeps : loop.ring.KeepsHalts after)
    (stage : Fin (n + 1)) :
    (visits ++ [stage]).length ≤ (n + 1) * (origin.progress after transfers + 1) := by
  have hlength := h.length_le
  have hidle := h.idle_le
  have hgrows := Nat.mul_le_mul_left (n + 1) (hkeeps.progress_le origin transfers)
  rw [Nat.mul_succ, List.length_append, List.length_singleton]
  omega

/-- After a visit that is not idle the count of idle visits begins anew. -/
theorem Paced.stir (h : Paced origin visits transfers loop) {next : Loop σ n}
    {transfers' : Traffic n} (hkeeps : loop.ring.KeepsHalts next.ring) (hidle : next.idle = 0)
    (hprogress : origin.progress loop.ring transfers < origin.progress next.ring transfers')
    (stage : Fin (n + 1)) : Paced origin (visits ++ [stage]) transfers' next where
  length_le := by
    have hlength := h.length_le
    have hwait := h.idle_le
    have hgrows := Nat.mul_le_mul_left (n + 1) (Nat.succ_le_of_lt hprogress)
    rw [Nat.mul_succ] at hgrows
    rw [List.length_append, List.length_singleton]
    omega
  idle_le := by omega
  keepsHalts := h.keepsHalts.trans hkeeps

/-- An idle visit adds one to both sides, unless it completes a lap and the loop is given up. -/
theorem Paced.settle (h : Paced origin visits transfers loop) {stopped : Machine σ}
    (hkeeps : loop.ring.KeepsHalts (loop.ring.set loop.cursor stopped)) :
    KeepsPace origin (visits ++ [loop.cursor]) transfers (Loop.settle
      { loop with ring := loop.ring.set loop.cursor stopped, idle := loop.idle + 1 }) := by
  unfold Loop.settle
  split
  · exact h.stop hkeeps loop.cursor
  · next hlap =>
    refine ⟨?_, Nat.le_of_not_lt hlap, h.keepsHalts.trans hkeeps⟩
    have hlength := h.length_le
    have hgrows := Nat.mul_le_mul_left (n + 1) (hkeeps.progress_le origin transfers)
    rw [List.length_append, List.length_singleton]
    dsimp only
    omega

theorem Idles.ne_afterOutput {status : Status} (h : loop.Idles status) : status ≠ .afterOutput := by
  rcases h with rfl | ⟨rfl, _⟩
  · simp
  · simp

/-- The visit made is the next one in order. -/
theorem OnlyLap.visits_append (h : OnlyLap visits loop) :
    (visits ++ [loop.cursor]).map Fin.val = List.range (visits ++ [loop.cursor]).length := by
  rw [List.map_append, h.visits_eq, List.length_append, List.length_singleton, List.range_succ,
    List.map_singleton, h.cursor_eq]

/-- Before the last stage the lap goes on, and no stage is visited twice. -/
theorem OnlyLap.next (h : OnlyLap visits loop) (hother : loop.cursor ≠ Fin.last n)
    (hkeeps : loop.ring.KeepsHalts after) {idle : Nat} (hidle : idle ≤ loop.idle + 1) :
    OnlyLap (visits ++ [loop.cursor]) ⟨after, loop.cursor + 1, idle, loop.answer⟩ := by
  have hlt : loop.cursor.val < n := Fin.val_lt_last hother
  have hcursor := h.cursor_eq
  have hwait := h.idle_le
  constructor
  · exact h.visits_append
  · rw [val_cursor_add_one hcursor (by omega)]
    simp
  · simp only [List.length_append, List.length_singleton]
    omega
  · exact hkeeps (Fin.last n) h.halted
  · exact h.answer_eq

end

variable [Store σ]

/-- The moments between the visits of a loop: the stages visited so far, the words handed on so far,
and where the visits have led to. A visit has been made once the run of its stage has ended. -/
inductive Moment (ring : Ring σ n) (signal : Word) :
    List (Fin (n + 1)) → Traffic n → Turn (Loop σ n) (Outcome σ n) → Prop
  | start : Moment ring signal [] #[] (.next (start ring signal))
  | visit {visits : List (Fin (n + 1))} {transfers : Traffic n} {loop : Loop σ n} {budget : Nat}
      (h : Moment ring signal visits transfers (.next loop))
      (hvisit : loop.visit budget ≠ .stop none) :
      Moment ring signal (visits ++ [loop.cursor]) (transfers ++ loop.transfer budget)
        (loop.visit budget)

/-- The stage that is being visited then, unless the loop is over. -/
def underWay : Turn (Loop σ n) (Outcome σ n) → List (Fin (n + 1))
  | .next loop => [loop.cursor]
  | .stop _ => []

variable {ring after : Ring σ n} {signal : Word} {visits : List (Fin (n + 1))}
  {transfers : Traffic n} {loop : Loop σ n} {budget : Nat} {turn : Turn (Loop σ n) (Outcome σ n)}

theorem keepsHalts_visit (h : ringAfter (loop.visit budget) = some after) :
    loop.ring.KeepsHalts after := by
  obtain ⟨stopped, result, hrun, hleaves⟩ := exists_leaves h
  have hstopped : loop.ring[loop.cursor].status = .halted → stopped.status = .halted := by
    intro hstatus
    rw [(Machine.eq_of_halted hstatus hrun).1]
    exact hstatus
  cases hleaves with
  | silent => exact Ring.keepsHalts_set hstopped
  | spoke =>
    apply Ring.KeepsHalts.trans _ (Ring.keepsHalts_send _ _ _)
    exact Ring.keepsHalts_set hstopped

theorem append_transfer_of_ne (transfers : Traffic n) {stopped : Machine σ}
    {result : Except Fault Status}
    (hrun : loop.ring[loop.cursor].runToOutput budget = some (stopped, result))
    (hresult : result ≠ .ok .afterOutput) :
    transfers ++ loop.transfer budget = transfers := by
  simp [transfer_of_ne hrun hresult]

theorem paced_start (ring : Ring σ n) (signal : Word) :
    Paced ring [] #[] (start ring signal) where
  length_le := Nat.zero_le _
  idle_le := Nat.zero_le _
  keepsHalts := ring.keepsHalts_send 0 signal

theorem Paced.visit {origin : Ring σ n} (h : Paced origin visits transfers loop) (budget : Nat) :
    KeepsPace origin (visits ++ [loop.cursor]) (transfers ++ loop.transfer budget)
      (loop.visit budget) := by
  have hkeeps (after : Ring σ n) (hafter : ringAfter (loop.visit budget) = some after) :=
    keepsHalts_visit hafter
  cases loop.visiting budget with
  | endless _ hvisit =>
    rw [hvisit]
    exact trivial
  | failed stopped fault hrun _ _ hvisit =>
    rw [hvisit] at hkeeps
    rw [hvisit, append_transfer_of_ne transfers hrun (by simp)]
    exact h.stop (hkeeps _ rfl) loop.cursor
  | handedOn before stopped value first rest hrun _ _ _ hqueue _ hvisit =>
    rw [hvisit] at hkeeps
    rw [hvisit]
    refine h.stir (hkeeps _ rfl) rfl ?_ loop.cursor
    have hle := (hkeeps _ rfl).card_le origin
    have hsize : (loop.transfer budget).size = 1 := by
      simp [transfer_of_afterOutput hrun hqueue, Traffic.ofStage]
    simp only [Ring.progress, Array.size_append, hsize]
    omega
  | finished stopped _ hrun _ _ _ hvisit =>
    rw [hvisit, ringAfter_finish] at hkeeps
    rw [hvisit, append_transfer_of_ne transfers hrun (by simp), finish]
    split
    · exact h.stop (hkeeps _ rfl) loop.cursor
    · exact h.stop (hkeeps _ rfl) loop.cursor
  | halted stopped hother hrun hstatus _ hstopped _ hvisit =>
    rw [hvisit] at hkeeps
    have hhalted : (loop.ring.set loop.cursor stopped)[loop.cursor].status = .halted := by
      rw [Ring.getElem_set, if_pos rfl]
      exact hstopped.status_eq _ rfl
    rw [hvisit, append_transfer_of_ne transfers hrun (by simp)]
    refine h.stir (hkeeps _ rfl) rfl ?_ loop.cursor
    exact Nat.add_lt_add_left ((hkeeps _ rfl).card_lt h.keepsHalts hother hstatus hhalted) _
  | idle stopped status hrun hidles _ _ _ hvisit =>
    rw [hvisit, ringAfter_settle] at hkeeps
    rw [hvisit, append_transfer_of_ne transfers hrun (by simpa using hidles.ne_afterOutput)]
    exact h.settle (hkeeps _ rfl)

theorem Moment.keepsPace (h : Moment ring signal visits transfers turn) :
    KeepsPace ring visits transfers turn := by
  induction h with
  | start => exact paced_start ring signal
  | visit _ _ ih => exact Paced.visit ih _

/-- The visit under way counts as well. -/
theorem Moment.length_le (h : Moment ring signal visits transfers turn)
    (hafter : ringAfter turn = some after) :
    (visits ++ underWay turn).length ≤ (n + 1) * (ring.progress after transfers + 1) := by
  have hpace := h.keepsPace
  cases turn with
  | next loop =>
    cases hafter
    exact Paced.stop hpace (fun _ hstatus => hstatus) loop.cursor
  | stop outcome =>
    obtain ⟨⟨after, answer⟩, rfl, rfl⟩ := Option.map_eq_some_iff.mp hafter
    rw [underWay, List.append_nil]
    exact hpace

theorem onlyLap_start (h : ring[Fin.last n].status = .halted) (signal : Word) :
    OnlyLap [] (start ring signal) where
  visits_eq := rfl
  cursor_eq := rfl
  idle_le := Nat.zero_le _
  halted := ring.keepsHalts_send 0 signal (Fin.last n) h
  answer_eq := rfl

theorem OnlyLap.visit (h : OnlyLap visits loop) (budget : Nat) :
    KeepsLap (visits ++ [loop.cursor]) (loop.visit budget) := by
  have hkeeps (after : Ring σ n) (hafter : ringAfter (loop.visit budget) = some after) :=
    keepsHalts_visit hafter
  -- The last stage only halts once more, so the other stages are those that do anything else.
  have hlast {stopped : Machine σ} {result : Except Fault Status}
      (hrun : loop.ring[loop.cursor].runToOutput budget = some (stopped, result))
      (hresult : result ≠ .ok .halted) : loop.cursor ≠ Fin.last n := by
    intro hcursor
    rw [hcursor] at hrun
    exact hresult (Machine.eq_of_halted h.halted hrun).2
  cases loop.visiting budget with
  | endless _ hvisit =>
    rw [hvisit]
    exact trivial
  | failed stopped fault _ _ _ hvisit =>
    rw [hvisit]
    exact ⟨h.visits_append, .inr ⟨fault, rfl⟩⟩
  | handedOn before stopped value first rest hrun _ _ _ _ _ hvisit =>
    have hother := hlast hrun (by simp)
    rw [hvisit] at hkeeps
    rw [hvisit, passOn, if_neg hother]
    exact h.next hother (hkeeps _ rfl) (Nat.zero_le _)
  | finished stopped _ _ _ _ _ hvisit =>
    rw [hvisit, finish, h.answer_eq]
    exact ⟨h.visits_append, .inl rfl⟩
  | halted stopped hother _ _ _ _ _ hvisit =>
    rw [hvisit] at hkeeps
    rw [hvisit]
    exact h.next hother (hkeeps _ rfl) (Nat.zero_le _)
  | idle stopped status hrun hidles _ _ _ hvisit =>
    have hother : loop.cursor ≠ Fin.last n := by
      rcases hidles with rfl | ⟨_, _, hother⟩
      · exact hlast hrun (by simp)
      · exact hother
    have hturns : ¬n < loop.idle + 1 := by
      have hcursor := Fin.val_lt_last hother
      have hvisits := h.cursor_eq
      have hwait := h.idle_le
      omega
    rw [hvisit, ringAfter_settle] at hkeeps
    rw [hvisit, Loop.settle, if_neg hturns]
    exact h.next hother (hkeeps _ rfl) (Nat.le_refl _)

theorem Moment.keepsLap (hlast : ring[Fin.last n].status = .halted)
    (h : Moment ring signal visits transfers turn) : KeepsLap visits turn := by
  induction h with
  | start => exact onlyLap_start hlast signal
  | visit _ _ ih => exact OnlyLap.visit ih _

theorem Moment.ne_stop_none (h : Moment ring signal visits transfers turn) :
    turn ≠ .stop none := by
  cases h with
  | start => simp
  | visit _ hvisit => exact hvisit

/-- In the only lap no stage is visited twice. -/
theorem Moment.nodup (hlast : ring[Fin.last n].status = .halted)
    (h : Moment ring signal visits transfers turn) : (visits ++ underWay turn).Nodup := by
  have hlap := h.keepsLap hlast
  have hrange : (visits ++ underWay turn).map Fin.val =
      List.range (visits ++ underWay turn).length := by
    match turn with
    | .next loop => exact OnlyLap.visits_append hlap
    | .stop none => exact absurd rfl h.ne_stop_none
    | .stop (some (_, _)) => simpa [underWay] using hlap.1
  apply List.Nodup.of_map Fin.val
  rw [hrange]
  exact List.nodup_range

/-- A visit hands one word on at most. -/
theorem size_transfer_le (budget : Nat) (loop : Loop σ n) : (loop.transfer budget).size ≤ 1 := by
  rw [transfer]
  split
  · next stopped _ =>
    cases stopped.pop? with
    | none => simp [Traffic.ofStage]
    | some popped => simp [Traffic.ofStage]
  · simp

theorem Moment.size_le (h : Moment ring signal visits transfers turn) :
    transfers.size ≤ visits.length := by
  induction h with
  | start => simp
  | @visit _ _ loop budget _ _ ih =>
    have hone := size_transfer_le budget loop
    simp only [Array.size_append, List.length_append, List.length_singleton]
    omega

/-- A visit comes to its end if the run of its stage does. -/
theorem visit_ne_stop_none (h : (loop.ring[loop.cursor].runToOutput budget).isSome) :
    loop.visit budget ≠ .stop none := by
  intro hnone
  have hring : ringAfter (loop.visit budget) = none := by
    rw [hnone]
    rfl
  cases loop.visiting budget with
  | endless hrun => simp [hrun] at h
  | failed _ _ _ _ _ hvisit | handedOn _ _ _ _ _ _ _ _ _ _ _ hvisit
  | halted _ _ _ _ _ _ _ hvisit =>
    rw [hvisit] at hring
    cases hring
  | finished _ _ _ _ _ _ hvisit =>
    rw [hvisit, ringAfter_finish] at hring
    cases hring
  | idle _ _ _ _ _ _ _ hvisit =>
    rw [hvisit, ringAfter_settle] at hring
    cases hring

/-- A moment comes about in the iteration of the visits, on every budget that is large enough. -/
theorem Moment.iterate_eq (h : Moment ring signal visits transfers turn) :
    ∃ enough, ∀ budget, enough ≤ budget → ∀ more,
      (∀ loop, turn = .next loop → iterate (Loop.visit budget) (visits.length + more)
        (Loop.start ring signal) = iterate (Loop.visit budget) more loop) ∧
      ∀ outcome, turn = .stop outcome → iterate (Loop.visit budget) (visits.length + more)
        (Loop.start ring signal) = some outcome := by
  induction h with
  | start =>
    refine ⟨0, fun budget _ more => ⟨?_, by simp⟩⟩
    rintro loop hloop
    cases hloop
    simp
  | @visit visits transfers loop budget _ hvisit ih =>
    obtain ⟨enough, hiterate⟩ := ih
    refine ⟨enough + budget, fun larger hlarger more => ?_⟩
    have hbefore := (hiterate larger (by omega) (more + 1)).1 loop rfl
    have hmono : loop.visit larger = loop.visit budget := by
      rw [← Nat.add_sub_cancel' (Nat.le_of_add_left_le hlarger)]
      exact visit_mono hvisit _
    rw [List.length_append, List.length_singleton, Nat.add_right_comm, Nat.add_assoc, hbefore,
      iterate, hmono]
    constructor
    · intro next hnext
      rw [hnext]
    · intro outcome hstop
      rw [hstop]

/-- Every visit to come has its end. -/
def VisitsEnd (ring : Ring σ n) (signal : Word) : Prop :=
  ∀ visits transfers loop, Moment ring signal visits transfers (.next loop) →
    ∃ ended, Returns (fun budget => loop.ring[loop.cursor].runToOutput budget) ended

/-- If every visit comes to its end, any number of visits is made unless the loop is over before. -/
theorem VisitsEnd.exists_moment (h : VisitsEnd ring signal) (count : Nat) :
    (∃ visits transfers ended, Moment ring signal visits transfers (.stop (some ended))) ∨
      ∃ visits transfers loop, visits.length = count ∧
        Moment ring signal visits transfers (.next loop) := by
  induction count with
  | zero => exact .inr ⟨[], #[], start ring signal, rfl, .start⟩
  | succ count ih =>
    rcases ih with hover | ⟨visits, transfers, loop, rfl, hmoment⟩
    · exact .inl hover
    obtain ⟨ended, budget, hrun⟩ := h visits transfers loop hmoment
    have hvisit : loop.visit budget ≠ .stop none :=
      visit_ne_stop_none (Option.isSome_iff_exists.mpr ⟨ended, hrun⟩)
    have hafter := hmoment.visit hvisit
    cases hturn : loop.visit budget with
    | next after =>
      rw [hturn] at hafter
      exact .inr ⟨_, _, after, by simp, hafter⟩
    | stop outcome =>
      cases outcome with
      | none => exact absurd hturn hvisit
      | some ended =>
        rw [hturn] at hafter
        exact .inl ⟨_, _, ended, hafter⟩

/-- With a bound on the words handed on there is one on the visits, so the loop comes to its end. -/
theorem VisitsEnd.exists_stop (h : VisitsEnd ring signal) {bound : Nat}
    (hbound : ∀ visits transfers turn, Moment ring signal visits transfers turn →
      transfers.size ≤ bound) :
    ∃ visits transfers ended, Moment ring signal visits transfers (.stop (some ended)) := by
  rcases h.exists_moment ((n + 1) * (bound + n + 1)) with hover |
    ⟨visits, transfers, loop, hcount, hmoment⟩
  · exact hover
  · have hlength := hmoment.length_le rfl
    have hsize := hbound visits transfers _ hmoment
    have hhalts := ring.card_newlyHalted_le loop.ring
    have hprogress : ring.progress loop.ring transfers ≤ bound + n := Nat.add_le_add hsize hhalts
    have hmost := Nat.mul_le_mul_left (n + 1) (Nat.add_le_add_right hprogress 1)
    simp only [List.length_append, underWay, List.length_singleton] at hlength
    omega

end Loop

namespace Circuit

variable [Store σ]

theorem runLoop_toList (ring : Ring σ n) (budget : Nat) (signal : Word) :
    runLoop budget ring.toList signal =
      (iterate (Loop.visit budget) budget (Loop.start ring signal)).join.map
        fun (ring, answer) => (ring.toList, answer) := by
  obtain ⟨⟨stages⟩, hsize⟩ := ring
  cases stages with
  | nil => cases hsize
  | cons first rest =>
    cases hsize
    rfl

/-- A loop returns with what its visits lead to in the end. -/
theorem returns_runLoop_iff {ring : Ring σ n} {signal : Word} {circuit : Circuit σ}
    {answer : Except Failure Word} :
    Returns (fun budget => runLoop budget ring.toList signal) (circuit, answer) ↔
      ∃ visits transfers after, circuit = Vector.toList after ∧
        Loop.Moment ring signal visits transfers (.stop (some (after, answer))) := by
  constructor
  · rintro ⟨budget, hrun⟩
    obtain ⟨after, rfl, hloop⟩ := exists_of_runLoop hrun
    have hstart : ∃ visits transfers,
        Loop.Moment ring signal visits transfers (.next (Loop.start ring signal)) :=
      ⟨[], #[], .start⟩
    have hends := iterate_keeps (fun _ => (#[] : Array Unit))
      (fun _ turn => turn ≠ .stop none →
        ∃ visits transfers, Loop.Moment ring signal visits transfers turn) ?_ #[]
      (fun _ => hstart) hloop
    · obtain ⟨visits, transfers, hmoment⟩ := hends (by simp)
      exact ⟨visits, transfers, after, rfl, hmoment⟩
    · intro loop _ hmoment hvisit
      obtain ⟨visits, transfers, hmoment⟩ := hmoment (by simp)
      exact ⟨_, _, hmoment.visit hvisit⟩
  · rintro ⟨visits, transfers, after, rfl, hmoment⟩
    obtain ⟨enough, hiterate⟩ := hmoment.iterate_eq
    refine ⟨visits.length + enough, ?_⟩
    have hends := (hiterate (visits.length + enough) (by omega) enough).2 _ rfl
    dsimp only
    rw [runLoop_toList, hends]
    rfl

/-- A loop does not go round for nothing. At every moment its visits, the one under way included,
are at most a lap for each word handed on, each stage other than the last that has halted since the
start, and one lap more. So if every visit comes to its end and the words handed on are bounded, the
loop returns. If the last stage had halted before, no stage is visited twice, and there is no answer
and no deadlock. -/
theorem runLoop_makes_progress (ring : Ring σ n) (signal : Word) :
    (∀ visits transfers turn after, Loop.Moment ring signal visits transfers turn →
      Loop.ringAfter turn = some after →
      (visits ++ Loop.underWay turn).length ≤
        (n + 1) * (transfers.size + (ring.newlyHalted after).card + 1) ∧
      (ring.newlyHalted after).card ≤ n) ∧
    (Loop.VisitsEnd ring signal →
      (∃ bound, ∀ visits transfers turn, Loop.Moment ring signal visits transfers turn →
        transfers.size ≤ bound) →
      ∃ outcome, Returns (fun budget => runLoop budget ring.toList signal) outcome) ∧
    (ring[Fin.last n].status = .halted →
      (∀ visits transfers turn, Loop.Moment ring signal visits transfers turn →
        (visits ++ Loop.underWay turn).Nodup) ∧
      ∀ circuit answer,
        Returns (fun budget => runLoop budget ring.toList signal) (circuit, answer) →
        answer = .error .noOutput ∨ ∃ fault, answer = .error (.fault fault)) := by
  refine ⟨?_, ?_, ?_⟩
  · intro visits transfers turn after hmoment hafter
    exact ⟨hmoment.length_le hafter, ring.card_newlyHalted_le after⟩
  · intro hends ⟨bound, hbound⟩
    obtain ⟨visits, transfers, ⟨after, answer⟩, hmoment⟩ := hends.exists_stop hbound
    exact ⟨_, returns_runLoop_iff.mpr ⟨visits, transfers, after, rfl, hmoment⟩⟩
  · intro hlast
    refine ⟨fun visits transfers turn hmoment => hmoment.nodup hlast, ?_⟩
    intro circuit answer hreturns
    obtain ⟨visits, transfers, after, rfl, hmoment⟩ := returns_runLoop_iff.mp hreturns
    exact (hmoment.keepsLap hlast).2

/-- The first stage hands one word on to the second one, which has halted before. -/
theorem runLoop_makes_progress_once :
    let first : Machine Dense := .load [104, 5, 99]
    let ring : Ring Dense 1 := #v[first, (Machine.load [99]).step.1]
    Loop.VisitsEnd ring 7 ∧
      (∀ visits transfers turn, Loop.Moment ring 7 visits transfers turn → transfers.size ≤ 2) ∧
      ring[Fin.last 1].status = .halted ∧
      (∃ loop, Loop.Moment ring 7 [0] #[(0, 5)] (.next loop) ∧
        ([0] ++ [loop.cursor]).length ≤ 2 * (1 + (ring.newlyHalted loop.ring).card + 1) ∧
        ([0] ++ [loop.cursor]).Nodup) ∧
      ∃ circuit answer, Returns (fun budget => runLoop budget ring.toList 7) (circuit, answer) ∧
        (answer = .error .noOutput ∨ ∃ fault, answer = .error (.fault fault)) := by
  intro first ring
  have hlast : ring[Fin.last 1].status = .halted := by decide
  obtain ⟨hpace, hreturns, hlap⟩ := runLoop_makes_progress ring 7
  obtain ⟨hnodup, hanswer⟩ := hlap hlast
  have hspeaks : (Machine.runToOutput 5 (Loop.start ring 7).ring[(0 : Fin 2)]).map
      (fun ended => (ended.1.output, ended.2)) = some ([5], .ok .afterOutput) := by cbv
  obtain ⟨⟨stopped, result⟩, hrun, hpair⟩ := Option.map_eq_some_iff.mp hspeaks
  obtain ⟨houtput, rfl⟩ := Prod.mk.inj hpair
  have hends : Loop.VisitsEnd ring 7 := by
    intro visits transfers loop hmoment
    have hcursor := (hmoment.keepsLap hlast).cursor_eq
    have hhalted := (hmoment.keepsLap hlast).halted
    generalize hturn : Turn.next loop = turn at hmoment
    cases hmoment with
    | start =>
      cases hturn
      exact ⟨_, 5, hrun⟩
    | visit _ _ =>
      have hlate : loop.cursor = Fin.last 1 := by
        rw [List.length_append, List.length_singleton] at hcursor
        have hlt := loop.cursor.isLt
        apply Fin.ext
        rw [Fin.val_last]
        omega
      rw [hlate]
      exact ⟨_, 1, (Machine.stopped_of_halted hhalted).runToOutput_eq 0⟩
  have hbound : ∀ visits transfers turn, Loop.Moment ring 7 visits transfers turn →
      transfers.size ≤ 2 := by
    intro visits transfers turn hmoment
    have hsize := hmoment.size_le
    have hcard := (hnodup visits transfers turn hmoment).length_le_card
    simp only [List.length_append, Fintype.card_fin] at hcard
    omega
  refine ⟨hends, hbound, hlast, ?_, ?_⟩
  · have hvisit := Loop.visit_of_spoken hrun houtput
    have hgoesOn : (Loop.start ring 7).visit 5 ≠ .stop none := by simp [hvisit]
    have hmoment := Loop.Moment.start.visit hgoesOn
    have htransfer : #[] ++ Traffic.ofStage (Loop.start ring 7).cursor #[5] = #[(0, 5)] := by
      simp [Traffic.ofStage, Loop.start]
    rw [hvisit, Loop.transfer_of_afterOutput hrun houtput, htransfer] at hmoment
    exact ⟨_, hmoment, (hpace _ _ _ _ hmoment rfl).1, hnodup _ _ _ hmoment⟩
  · obtain ⟨⟨circuit, answer⟩, hloop⟩ := hreturns hends ⟨2, hbound⟩
    exact ⟨circuit, answer, hloop, hanswer circuit answer hloop⟩

end Circuit

end Intcode
