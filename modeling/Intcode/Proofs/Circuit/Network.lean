import Intcode.Circuit.Loop
import Intcode.Proofs.Machine.Output

/-!
A ring of machines in which any machine may take the next step. A machine keeps all that it has put
out, and the machine behind it is given each word at once. Steps of two machines commute, though one
of them may feed the other: a step takes at most the front of its input, and new words come in at
the back. So whichever machines take the steps, one that halts has always put out the same words.
-/
namespace Intcode

abbrev Network (σ : Type) (n : Nat) := Fin (n + 1) → Machine σ

namespace Network

variable {σ : Type} {n : Nat}

/-- What a stage has put out when it is replaced by a machine later in its course. -/
def said (network : Network σ n) (stage : Fin (n + 1)) (next : Machine σ) : List Word :=
  next.output.drop (network stage).output.length

/-- The words that a stage is given when another one is replaced. -/
def heard (network : Network σ n) (stage : Fin (n + 1)) (next : Machine σ)
    (other : Fin (n + 1)) : List Word :=
  if other = stage + 1 then network.said stage next else []

def advance (network : Network σ n) (stage : Fin (n + 1)) (next : Machine σ) : Network σ n :=
  fun other =>
    (Function.update network stage next other).framed [] (network.heard stage next other)

theorem advance_self (network : Network σ n) (stage : Fin (n + 1)) (next : Machine σ) :
    network.advance stage next stage = next.framed [] (network.heard stage next stage) := by
  rw [advance, Function.update_self]

theorem advance_of_ne (network : Network σ n) {stage other : Fin (n + 1)} (h : other ≠ stage)
    (next : Machine σ) :
    network.advance stage next other =
      (network other).framed [] (network.heard stage next other) := by
  rw [advance, Function.update_of_ne h]

/-- A step that puts nothing out changes one stage only. -/
theorem advance_of_silent (network : Network σ n) (stage : Fin (n + 1)) {next : Machine σ}
    (h : next.output = (network stage).output) :
    network.advance stage next = Function.update network stage next := by
  have hsaid : network.said stage next = [] := by
    rw [said, h, List.drop_length]
  funext other
  rw [advance, heard, hsaid, ite_self, Machine.framed_nil]

/-- Different stages feed different stages. -/
theorem heard_eq_nil_or (network : Network σ n) {stage stage' : Fin (n + 1)} (h : stage ≠ stage')
    (next next' : Machine σ) (other : Fin (n + 1)) :
    network.heard stage next other = [] ∨ network.heard stage' next' other = [] := by
  by_cases hother : other = stage + 1
  · right
    have hne : other ≠ stage' + 1 := fun h' => h (add_right_cancel (hother.symm.trans h'))
    rw [heard, if_neg hne]
  · left
    rw [heard, if_neg hother]

theorem heard_of_ne (network : Network σ n) {stage other : Fin (n + 1)} (h : other - 1 ≠ stage)
    (next : Machine σ) : network.heard stage next other = [] :=
  if_neg fun hother => h (sub_eq_iff_eq_add.mpr hother)

theorem framed_comm {machine : Machine σ} {left right : List Word} (h : left = [] ∨ right = []) :
    (machine.framed [] left).framed [] right = (machine.framed [] right).framed [] left := by
  rcases h with rfl | rfl <;> rw [Machine.framed_nil, Machine.framed_nil]

/-- A stage says the same after another one has fed it. -/
theorem heard_advance (network : Network σ n) {stage stage' : Fin (n + 1)} (h : stage' ≠ stage)
    (next next' : Machine σ) :
    (network.advance stage next).heard stage'
        (next'.framed [] (network.heard stage next stage')) =
      network.heard stage' next' := by
  funext other
  simp only [heard, said, advance_of_ne network h]
  rfl

theorem advance_comm (network : Network σ n) {stage stage' : Fin (n + 1)} (h : stage ≠ stage')
    (next next' : Machine σ) :
    (network.advance stage next).advance stage'
        (next'.framed [] (network.heard stage next stage')) =
      (network.advance stage' next').advance stage
        (next.framed [] (network.heard stage' next' stage)) := by
  funext other
  have hnil := network.heard_eq_nil_or h next next' other
  by_cases hstage : other = stage
  · subst other
    rw [advance_self, advance_of_ne _ h, advance_self, heard_advance network h.symm,
      heard_advance network h]
    exact framed_comm hnil
  · by_cases hstage' : other = stage'
    · subst other
      rw [advance_self, advance_of_ne _ h.symm, advance_self, heard_advance network h.symm,
        heard_advance network h]
      exact framed_comm hnil
    · rw [advance_of_ne _ hstage', advance_of_ne _ hstage, advance_of_ne _ hstage,
        advance_of_ne _ hstage', heard_advance network h.symm, heard_advance network h]
      exact framed_comm hnil

variable [Store σ]

/-- Some stage goes one step along its course. -/
def Fires (network after : Network σ n) : Prop :=
  ∃ stage next, (network stage).course = .next next ∧ after = network.advance stage next

/-- Any number of steps, each by any stage. -/
def Leads : Network σ n → Network σ n → Prop := Relation.ReflTransGen Fires

/-- A stage may go along its course in silence. -/
theorem leads_of_silent {network : Network σ n} {stage : Fin (n + 1)} {machine last : Machine σ}
    {earlier : List Word} (hstage : network stage = machine.framed earlier [])
    (h : machine.ReachesSilently last) :
    network.Leads (Function.update network stage (last.framed earlier [])) := by
  induction h with
  | refl =>
    rw [← hstage, Function.update_eq_self]
    exact .refl
  | @tail middle last _ hnext ih =>
    refine ih.tail ⟨stage, last.framed earlier [], ?_, ?_⟩
    · rw [Function.update_self]
      exact Machine.course_framed hnext.1 earlier []
    · rw [advance_of_silent, Function.update_idem]
      rw [Function.update_self]
      exact congrArg (earlier ++ ·) hnext.2

/-- A stage may go along its course in silence and then take one step more. -/
theorem leads_of_silent_step {network : Network σ n} {stage : Fin (n + 1)}
    {machine before next : Machine σ} {earlier : List Word}
    (hstage : network stage = machine.framed earlier [])
    (h : machine.ReachesSilently before) (hnext : before.course = .next next) :
    network.Leads (network.advance stage (next.framed earlier [])) := by
  refine (leads_of_silent hstage h).tail ⟨stage, next.framed earlier [], ?_, ?_⟩
  · rw [Function.update_self]
    exact Machine.course_framed hnext earlier []
  · have houtput : (before.framed earlier []).output = (network stage).output := by
      rw [hstage]
      exact congrArg (earlier ++ ·) h.output_eq
    have hsaid (last : Machine σ) :
        said (Function.update network stage (before.framed earlier [])) stage last =
          network.said stage last := by
      rw [said, said, Function.update_self, houtput]
    funext other
    simp only [advance, heard, hsaid, Function.update_idem]

theorem fires_diamond (network left right : Network σ n) (hleft : network.Fires left)
    (hright : network.Fires right) :
    ∃ after, Relation.ReflGen Fires left after ∧ right.Leads after := by
  obtain ⟨stage, next, hnext, rfl⟩ := hleft
  obtain ⟨stage', next', hnext', rfl⟩ := hright
  by_cases h : stage = stage'
  · subst h
    cases hnext.symm.trans hnext'
    exact ⟨_, .refl, .refl⟩
  · refine ⟨_, .single ⟨stage', _, ?_, rfl⟩,
      .single ⟨stage, _, ?_, network.advance_comm h next next'⟩⟩
    · rw [advance_of_ne network (Ne.symm h)]
      exact Machine.course_framed hnext' [] _
    · rw [advance_of_ne network h]
      exact Machine.course_framed hnext [] _

theorem Leads.join {network left right : Network σ n} (hleft : network.Leads left)
    (hright : network.Leads right) : ∃ after, left.Leads after ∧ right.Leads after :=
  Relation.church_rosser fires_diamond hleft hright

theorem Leads.halted {network after : Network σ n} (h : network.Leads after) {stage : Fin (n + 1)}
    (hstatus : (network stage).status = .halted) :
    (after stage).status = .halted ∧ (after stage).output = (network stage).output := by
  induction h with
  | refl => exact ⟨hstatus, rfl⟩
  | @tail middle after _ hfires ih =>
    obtain ⟨moved, next, hnext, rfl⟩ := hfires
    have hne : stage ≠ moved := by
      rintro rfl
      rw [Machine.course, if_pos ih.1] at hnext
      cases hnext
    rw [advance_of_ne middle hne]
    exact ih

/-- No stage can go on. -/
def Stuck (network : Network σ n) : Prop :=
  ∀ stage, ∃ result, (network stage).course = .stop result

theorem Stuck.eq_of_leads {network after : Network σ n} (hstuck : network.Stuck)
    (h : network.Leads after) : after = network := by
  rcases Relation.ReflTransGen.cases_head h with rfl | ⟨middle, ⟨stage, next, hnext, _⟩, _⟩
  · rfl
  · obtain ⟨result, hstop⟩ := hstuck stage
    cases hstop.symm.trans hnext

/-- Whatever the order of the steps, a stage that halts has put out the same words. -/
theorem output_eq_of_halted {network left right : Network σ n} (hleft : network.Leads left)
    (hright : network.Leads right) {stage : Fin (n + 1)}
    (hstatus : (left stage).status = .halted) (hstatus' : (right stage).status = .halted) :
    (left stage).output = (right stage).output := by
  obtain ⟨after, hafter, hafter'⟩ := hleft.join hright
  exact (hafter.halted hstatus).2.symm.trans (hafter'.halted hstatus').2

/-- A stage that has not halted when the ring is stuck does not halt in any order of the steps. -/
theorem Stuck.not_halted {network stuck other : Network σ n} (hstuck : stuck.Stuck)
    (h : network.Leads stuck) (hother : network.Leads other) {stage : Fin (n + 1)}
    (hstatus : (stuck stage).status ≠ .halted) : (other stage).status ≠ .halted := by
  intro hhalted
  obtain ⟨after, hafter, hafter'⟩ := h.join hother
  have heq := hstuck.eq_of_leads hafter
  subst heq
  exact hstatus (hafter'.halted hhalted).1

end Network

end Intcode
