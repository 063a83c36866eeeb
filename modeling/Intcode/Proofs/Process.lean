import Mathlib
import Intcode.Process

/-!
Runs of processes, whatever the budget. What holds at the start and is kept by every turn holds
when the process stops, and two processes that go turn by turn together answer together.
-/
namespace Intcode

variable {α : Type u} {β : Type v} {ω : Type w}

/-- Some budget is enough for the answer. -/
def Returns (process : Nat → Option β) (answer : β) : Prop :=
  ∃ budget, process budget = some answer

/-- An invariant of the states and of the notes taken before them, kept by every turn that goes on,
and what a turn that stops makes of it. -/
theorem iterate_induction {turn : α → Turn α β} (notes : α → Array ω)
    (Inv : α → Array ω → Prop) (Post : β → Array ω → Prop)
    (hnext : ∀ state taken after, Inv state taken → turn state = .next after →
      Inv after (taken ++ notes state))
    (hstop : ∀ state taken answer, Inv state taken → turn state = .stop answer →
      Post answer (taken ++ notes state))
    {budget : Nat} {state : α} (taken : Array ω) {answer : β}
    (hstart : Inv state taken) (h : iterate turn budget state = some answer) :
    Post answer (journal turn notes budget state taken) := by
  induction budget generalizing state taken with
  | zero => simp [iterate] at h
  | succ budget ih =>
    rw [iterate] at h
    rw [journal]
    cases hturn : turn state with
    | next after =>
      rw [hturn] at h
      exact ih _ (hnext state taken after hstart hturn) h
    | stop last =>
      rw [hturn] at h
      cases h
      exact hstop state taken answer hstart hturn

/-- The same, with one property for whatever a turn leads to. -/
theorem iterate_keeps {turn : α → Turn α β} (notes : α → Array ω)
    (Keeps : Array ω → Turn α β → Prop)
    (hturn : ∀ state taken, Keeps taken (.next state) → Keeps (taken ++ notes state) (turn state))
    {budget : Nat} {state : α} (taken : Array ω) {answer : β}
    (hstart : Keeps taken (.next state)) (h : iterate turn budget state = some answer) :
    Keeps (journal turn notes budget state taken) (.stop answer) := by
  refine iterate_induction notes (fun state taken => Keeps taken (.next state))
    (fun answer taken => Keeps taken (.stop answer)) ?_ ?_ taken hstart h
  · intro state taken after hstate hnext
    exact hnext ▸ hturn state taken hstate
  · intro state taken answer hstate hstop
    exact hstop ▸ hturn state taken hstate

/-- The same with two kinds of notes, taken at the same time. -/
theorem iterate_keeps_both {ω' : Type w'} {turn : α → Turn α β} (notes : α → Array ω)
    (notes' : α → Array ω') (Keeps : Array ω → Array ω' → Turn α β → Prop)
    (hturn : ∀ state taken taken', Keeps taken taken' (.next state) →
      Keeps (taken ++ notes state) (taken' ++ notes' state) (turn state))
    {budget : Nat} {state : α} (taken : Array ω) (taken' : Array ω') {answer : β}
    (hstart : Keeps taken taken' (.next state)) (h : iterate turn budget state = some answer) :
    Keeps (journal turn notes budget state taken) (journal turn notes' budget state taken')
      (.stop answer) := by
  induction budget generalizing state taken taken' with
  | zero => simp [iterate] at h
  | succ budget ih =>
    have hafter := hturn state taken taken' hstart
    rw [iterate] at h
    rw [journal, journal]
    cases hcase : turn state with
    | next after =>
      rw [hcase] at h hafter
      exact ih _ _ hafter h
    | stop last =>
      rw [hcase] at h hafter
      cases h
      exact hafter

/-- Both turns go on, to states that are related, or both stop, with answers that are. -/
inductive Turn.Matches {α' : Type u'} {β' : Type v'} (R : α → α' → Prop) (Q : β → β' → Prop) :
    Turn α β → Turn α' β' → Prop
  | next {state : α} {other : α'} (h : R state other) : Matches R Q (.next state) (.next other)
  | stop {answer : β} {other : β'} (h : Q answer other) : Matches R Q (.stop answer) (.stop other)

theorem iterate_matches {α' : Type u'} {β' : Type v'} {turn : α → Turn α β}
    {turn' : α' → Turn α' β'} {R : α → α' → Prop} {Q : β → β' → Prop}
    (hturn : ∀ state other, R state other → (turn state).Matches R Q (turn' other))
    (budget : Nat) {state : α} {other : α'} (h : R state other) :
    Option.Rel Q (iterate turn budget state) (iterate turn' budget other) := by
  induction budget generalizing state other with
  | zero => exact .none
  | succ budget ih =>
    have hmatch := hturn state other h
    rw [iterate, iterate]
    generalize turn state = left at hmatch
    generalize turn' other = right at hmatch
    cases hmatch with
    | next hafter => exact ih hafter
    | stop hanswer => exact .some hanswer

/-- A process that is sure to go on for a number of turns has then that much of its budget less. -/
theorem exists_iterate_of_next {turn : α → Turn α β} (Inv : Nat → α → Prop) {count : Nat}
    {state : α} (hnext : ∀ k state, k < count → Inv k state →
      ∃ after, turn state = .next after ∧ Inv (k + 1) after)
    (hstart : Inv 0 state) :
    ∃ last, Inv count last ∧ ∀ budget, iterate turn (count + budget) state =
      iterate turn budget last := by
  induction count with
  | zero =>
    refine ⟨state, hstart, ?_⟩
    intro budget
    rw [Nat.zero_add]
  | succ count ih =>
    obtain ⟨last, hlast, hcount⟩ := ih fun k state hk => hnext k state (Nat.lt_succ_of_lt hk)
    obtain ⟨after, hturn, hafter⟩ := hnext count last (Nat.lt_succ_self count) hlast
    refine ⟨after, hafter, ?_⟩
    intro budget
    rw [Nat.succ_add_eq_add_succ, hcount, iterate, hturn]

/-- A process whose turns may be broken off for want of a budget of their own: if they are the same
on a larger one, once they have not been broken off, its answers are the same as well. -/
theorem iterate_mono_of_turn {turn turn' : α → Turn α (Option β)}
    (hturn : ∀ state, turn state ≠ .stop none → turn' state = turn state) {budget : Nat} {state : α}
    {answer : β} (h : iterate turn budget state = some (some answer)) (more : Nat) :
    iterate turn' (budget + more) state = some (some answer) := by
  refine iterate_mono ?_ more
  induction budget generalizing state with
  | zero => cases h
  | succ budget ih =>
    rw [iterate] at h ⊢
    cases hstate : turn state with
    | next after =>
      have hgoes : turn state ≠ .stop none := by simp [hstate]
      rw [hstate] at h
      rw [hturn state hgoes, hstate]
      exact ih h
    | stop last =>
      rw [hstate] at h
      cases h
      have hends : turn state ≠ .stop none := by simp [hstate]
      rw [hturn state hends, hstate]

/-- A process that keeps its answer on every larger budget has at most one. -/
theorem Returns.unique {process : Nat → Option β} {answer other : β}
    (hmono : ∀ {budget answer}, process budget = some answer → ∀ more,
      process (budget + more) = some answer)
    (h : Returns process answer) (h' : Returns process other) : answer = other := by
  obtain ⟨budget, hbudget⟩ := h
  obtain ⟨budget', hbudget'⟩ := h'
  have hleft := hmono hbudget budget'
  have hright := hmono hbudget' budget
  rw [Nat.add_comm, hleft] at hright
  exact Option.some.inj hright

theorem Returns.iff_eq {process : Nat → Option β} {answer : β}
    (hmono : ∀ {budget answer}, process budget = some answer → ∀ more,
      process (budget + more) = some answer)
    (h : Returns process answer) (other : β) : Returns process other ↔ other = answer := by
  constructor
  · intro hother
    exact hother.unique hmono h
  · intro heq
    rw [heq]
    exact h

theorem eq_map_of_rel {f : α → β} {a : Option α} {b : Option β}
    (h : Option.Rel (fun a b => b = f a) a b) : b = a.map f := by
  cases h with
  | none => rfl
  | some h => exact congrArg some h

theorem exists_of_rel_some {R : α → β → Prop} {a : α} {other : Option β}
    (h : Option.Rel R (some a) other) : ∃ b, other = some b ∧ R a b := by
  cases h with
  | some h => exact ⟨_, rfl, h⟩

end Intcode
