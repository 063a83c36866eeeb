import Intcode.Circuit.Run
import Intcode.Proofs.Circuit.Network
import Intcode.Proofs.Machine.Output

/-!
The words put out in a ring while its loop runs, and the ring seen as a network: each stage at rest,
with all that it has put out still in its queue. A visit of the loop is a number of steps of the
network, and a lap of idle visits leaves no stage that can go on.
-/
namespace Intcode

/-- Words put out by stages, each with its stage, oldest first. -/
abbrev Traffic (n : Nat) := Array (Fin (n + 1) × Word)

namespace Traffic

variable {n : Nat}

/-- The words put out by one stage. -/
def putOut (traffic : Traffic n) (stage : Nat) : List Word :=
  traffic.toList.filterMap fun (source, value) => if source.val = stage then some value else none

def ofStage (stage : Fin (n + 1)) (words : Array Word) : Traffic n :=
  words.map fun value => (stage, value)

theorem putOut_empty (stage : Nat) : putOut (#[] : Traffic n) stage = [] := rfl

theorem putOut_append (traffic more : Traffic n) (stage : Nat) :
    (traffic ++ more).putOut stage = traffic.putOut stage ++ more.putOut stage := by
  simp only [putOut, Array.toList_append, List.filterMap_append]

theorem append_ofStage_empty (traffic : Traffic n) (stage : Fin (n + 1)) :
    traffic ++ ofStage stage #[] = traffic := by
  rw [ofStage, Array.map_empty, Array.append_empty]

theorem putOut_ofStage (source stage : Fin (n + 1)) (words : Array Word) :
    (ofStage source words).putOut stage = if source = stage then words.toList else [] := by
  rw [putOut, ofStage, Array.toList_map, List.filterMap_map]
  by_cases h : source = stage
  · rw [if_pos h]
    have hall : (fun value : Word => if source.val = stage.val then some value else none) = some :=
      funext fun _ => if_pos (congrArg Fin.val h)
    exact (congrArg (List.filterMap · words.toList) hall).trans List.filterMap_some
  · rw [if_neg h]
    exact List.filterMap_eq_nil_iff.mpr fun _ _ => if_neg fun hval => h (Fin.ext hval)

theorem putOut_self (traffic : Traffic n) (stage : Fin (n + 1)) (value : Word) :
    (traffic ++ ofStage stage #[value]).putOut stage = traffic.putOut stage ++ [value] := by
  rw [putOut_append, putOut_ofStage, if_pos rfl]

theorem putOut_of_ne (traffic : Traffic n) {source stage : Fin (n + 1)} (h : source ≠ stage)
    (words : Array Word) :
    (traffic ++ ofStage source words).putOut stage = traffic.putOut stage := by
  rw [putOut_append, putOut_ofStage, if_neg h, List.append_nil]

end Traffic

namespace Ring

variable {σ : Type} {n : Nat}

theorem getElem?_toList (ring : Ring σ n) (stage : Fin (n + 1)) :
    ring.toList[stage.val]? = some ring[stage] := by
  rw [Vector.getElem?_toList]
  exact Vector.getElem?_eq_getElem stage.isLt

theorem getElem_set (ring : Ring σ n) (stage other : Fin (n + 1)) (machine : Machine σ) :
    (ring.set stage machine)[other] = if other = stage then machine else ring[other] := by
  change (Vector.set ring stage machine)[other.val] =
    if other = stage then machine else (ring : Vector _ _)[other.val]
  rw [Vector.getElem_set]
  simp only [Fin.ext_iff, eq_comm]

theorem eq_of_getElem {ring other : Ring σ n}
    (h : ∀ stage : Fin (n + 1), ring[stage] = other[stage]) : ring = other :=
  Vector.ext fun stage hstage => h ⟨stage, hstage⟩

theorem set_set (ring : Ring σ n) (stage : Fin (n + 1)) (first second : Machine σ) :
    (ring.set stage first).set stage second = ring.set stage second :=
  Vector.set_set first _

theorem set_getElem (ring : Ring σ n) (stage : Fin (n + 1)) :
    ring.set stage ring[stage] = ring := by
  apply eq_of_getElem
  intro other
  rw [getElem_set]
  split
  · next heq => rw [heq]
  · rfl

theorem getElem_send (ring : Ring σ n) (stage other : Fin (n + 1)) (value : Word) :
    (ring.send stage value)[other] =
      if other = stage then ring[other].push value else ring[other] := by
  rw [send, getElem_set]
  split
  · next h => rw [h]
  · rfl

/-- What holds of the machine put in and of the other stages holds of all stages. -/
theorem forall_set {ring : Ring σ n} {P : Fin (n + 1) → Machine σ → Prop} {target : Fin (n + 1)}
    {machine : Machine σ} (hmachine : P target machine)
    (hothers : ∀ stage : Fin (n + 1), stage ≠ target → P stage ring[stage]) (stage : Fin (n + 1)) :
    P stage (ring.set target machine)[stage] := by
  rw [getElem_set]
  split
  · next heq => exact heq ▸ hmachine
  · next hne => exact hothers stage hne

theorem output_send (ring : Ring σ n) (stage other : Fin (n + 1)) (value : Word) :
    (ring.send stage value)[other].output = ring[other].output := by
  rw [getElem_send]
  split
  · rfl
  · rfl

theorem empty_set {ring : Ring σ n} (hempty : ∀ stage : Fin (n + 1), ring[stage].output = [])
    (target : Fin (n + 1)) {machine : Machine σ} (hmachine : machine.output = []) :
    ∀ stage : Fin (n + 1), (ring.set target machine)[stage].output = [] := by
  intro stage
  have hothers (other : Fin (n + 1)) (_ : other ≠ target) := hempty other
  exact forall_set (P := fun _ machine => machine.output = []) hmachine hothers stage

theorem empty_send {ring : Ring σ n} (hempty : ∀ stage : Fin (n + 1), ring[stage].output = [])
    (target : Fin (n + 1)) (value : Word) :
    ∀ stage : Fin (n + 1), (ring.send target value)[stage].output = [] := by
  intro stage
  rw [output_send]
  exact hempty stage

theorem rested_send (ring : Ring σ n) (stage other : Fin (n + 1)) (value : Word) :
    (ring.send stage value)[other].rested =
      ring[other].rested.framed [] (if other = stage then [value] else []) := by
  rw [getElem_send]
  split
  · exact Machine.rested_push _ value
  · exact (Machine.framed_nil _).symm

/-- The stages at rest, with what they have put out. -/
def network (ring : Ring σ n) (traffic : Traffic n) : Network σ n :=
  fun stage => ring[stage].rested.framed (traffic.putOut stage) []

theorem halted_network (ring : Ring σ n) (traffic : Traffic n) (stage : Fin (n + 1)) :
    (ring.network traffic stage).status = .halted ↔ ring[stage].status = .halted :=
  Processor.status_rested ring[stage].toProcessor

theorem output_network {ring : Ring σ n} {stage : Fin (n + 1)} (h : ring[stage].output = [])
    (traffic : Traffic n) : (ring.network traffic stage).output = traffic.putOut stage := by
  change traffic.putOut stage ++ ring[stage].output = traffic.putOut stage
  rw [h, List.append_nil]

theorem network_set (ring : Ring σ n) (stage : Fin (n + 1)) (machine : Machine σ)
    (traffic : Traffic n) :
    network (ring.set stage machine) traffic =
      Function.update (ring.network traffic) stage
        (machine.rested.framed (traffic.putOut stage) []) := by
  funext other
  by_cases h : other = stage
  · subst other
    rw [Function.update_self, network, getElem_set, if_pos rfl]
  · rw [Function.update_of_ne h, network, getElem_set, if_neg h]
    rfl

/-- Taking a word from the output of a stage to the next one. -/
theorem network_handOn {ring : Ring σ n} {stage : Fin (n + 1)} {machine : Machine σ} {value : Word}
    (hring : ring[stage].output = []) (hmachine : machine.output = [value]) (traffic : Traffic n) :
    network (send (ring.set stage { machine with output := [] }) (stage + 1) value)
        (traffic ++ Traffic.ofStage stage #[value]) =
      (ring.network traffic).advance stage
        (machine.rested.framed (traffic.putOut stage) []) := by
  have hsaid : (ring.network traffic).said stage (machine.rested.framed (traffic.putOut stage) []) =
      [value] := by
    change (traffic.putOut stage ++ machine.output).drop
      (traffic.putOut stage ++ ring[stage].output).length = [value]
    rw [hring, hmachine, List.append_nil, List.drop_left]
  funext other
  rw [Network.advance, Network.heard, hsaid, network, rested_send, Machine.framed_framed,
    List.append_nil, List.append_nil, Traffic.putOut_append, Traffic.putOut_ofStage]
  by_cases h : other = stage
  · subst other
    rw [Function.update_self, getElem_set, if_pos rfl, if_pos rfl, Machine.framed_framed]
    simp only [Machine.framed, Machine.rested, Processor.framed, Processor.rested, hmachine,
      List.append_nil, List.nil_append]
  · rw [Function.update_of_ne h, getElem_set, if_neg h, if_neg (Ne.symm h), network,
      Machine.framed_framed, List.append_nil]
    rfl

end Ring

end Intcode
