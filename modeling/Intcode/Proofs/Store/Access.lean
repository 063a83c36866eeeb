import Mathlib
import Intcode.Store.Dense
import Intcode.Store.Sparse

/-!
Accesses to a store, one after another. An access to a negative address is refused and changes
nothing. Every other write is done, and every other read gives the word written there last, or what
the program has there if nothing has been written. What is read can be told from the program and the
accesses alone, so two stores loaded with one program answer alike.
-/
namespace Intcode

namespace Word

theorem cell_of_neg {address : Word} (h : address < 0) :
    address.cell = .error (.negativeAddress address) := if_pos h

theorem cell_of_not_neg {address : Word} (h : ¬address < 0) :
    address.cell = .ok address.toInt.toNat := if_neg h

theorem neg_iff {address : Word} : address < 0 ↔ address.toInt < 0 := by
  rw [Int64.lt_iff_toInt_lt, Int64.toInt_zero]

theorem not_neg_iff {address : Word} : ¬address < 0 ↔ 0 ≤ address.toInt := by
  rw [neg_iff]
  omega

theorem cell_ofNat {cell : Nat} (h : cell < 2 ^ 63) : Word.cell (Int64.ofNat cell) = .ok cell := by
  have hvalue := Int64.toInt_ofNat_of_lt h
  have hsign : ¬Int64.ofNat cell < 0 := by
    rw [not_neg_iff, hvalue]
    omega
  rw [cell_of_not_neg hsign, hvalue, Int.toNat_natCast]

theorem cell_lt {address : Word} {cell : Nat} (h : address.cell = .ok cell) : cell < 2 ^ 63 := by
  have hmax := address.toInt_lt
  unfold Word.cell at h
  split at h
  · cases h
  · cases h
    omega

/-- Addresses that are not negative are apart from each other as cells. -/
theorem toNat_toInt_inj {address other : Word} (h : ¬address < 0) (hother : ¬other < 0) :
    address.toInt.toNat = other.toInt.toNat ↔ address = other := by
  have hpos := not_neg_iff.mp h
  have hpos' := not_neg_iff.mp hother
  rw [← Int64.toInt_inj]
  omega

end Word

/-- What can be asked of a store. -/
inductive Access where
  | read (address : Word)
  | write (address value : Word)
  deriving DecidableEq, Repr

namespace Access

def address : Access → Word
  | read address => address
  | write address _ => address

/-- The word that the access writes at the address, if it writes there. -/
def written? (address : Word) : Access → Option Word
  | read _ => none
  | write other value => if other = address then some value else none

/-- The word that was written at the address last, if one was. -/
def lastWritten (history : List Access) (address : Word) : Option Word :=
  history.reverse.findSome? (written? address)

/-- What stands at an address after the program has been loaded and the accesses have been made. -/
def held (program : List Word) (history : List Access) (address : Word) : Word :=
  (lastWritten history address).getD (program.getD address.toInt.toNat 0)

theorem lastWritten_append (history : List Access) (access : Access) (address : Word) :
    lastWritten (history ++ [access]) address =
      (access.written? address).or (lastWritten history address) := by
  rw [lastWritten, List.reverse_append, List.reverse_singleton, List.singleton_append,
    List.findSome?_cons]
  cases access.written? address with
  | none => rfl
  | some value => rfl

end Access

namespace Store

variable {σ τ : Type} [Store σ] [Store τ]

/-- The store after the access, with the word that was read. -/
def access (store : σ) : Access → σ × Except Fault (Option Word)
  | .read address => (store, (read store address).map some)
  | .write address value =>
    match writeAt store address value with
    | .error fault => (store, .error fault)
    | .ok after => (after, .ok none)

def after (store : σ) (history : List Access) : σ :=
  history.foldl (fun store request => (access store request).1) store

/-- The answers to the accesses, each made after those in front of it. -/
def answers (store : σ) : List Access → List (Except Fault (Option Word))
  | [] => []
  | request :: rest => (access store request).2 :: answers (access store request).1 rest

theorem after_append (store : σ) (history : List Access) (request : Access) :
    after store (history ++ [request]) = (access (after store history) request).1 := by
  rw [after, List.foldl_append]
  rfl

theorem access_of_neg (store : σ) {request : Access} (h : request.address < 0) :
    access store request = (store, .error (.negativeAddress request.address)) := by
  have hcell := Word.cell_of_neg h
  cases request with
  | read address =>
    rw [Access.address] at hcell
    rw [access, read, Memory.read, hcell]
    rfl
  | write address value =>
    rw [Access.address] at hcell
    rw [access, writeAt, hcell]
    rfl

theorem access_write (store : σ) {address : Word} (h : ¬address < 0) (value : Word) :
    access store (.write address value) = (write store address.toInt.toNat value, .ok none) := by
  rw [access, writeAt, Word.cell_of_not_neg h]
  rfl

theorem access_read (store : σ) {address : Word} (h : ¬address < 0) :
    access store (.read address) = (store, .ok (some (memory store address.toInt.toNat))) := by
  rw [access, read, Memory.read, Word.cell_of_not_neg h]
  rfl

variable [LawfulStore σ] [LawfulStore τ]

/-- What an access makes of the memory at an address that is not negative. -/
theorem memory_access (store : σ) (request : Access) {address : Word} (h : ¬address < 0) :
    memory (access store request).1 address.toInt.toNat =
      (request.written? address).getD (memory store address.toInt.toNat) := by
  cases request with
  | read other => rfl
  | write other value =>
    rw [Access.written?]
    by_cases hother : other < 0
    · have hne : other ≠ address := by
        rintro rfl
        exact h hother
      have hrefused : (Access.write other value).address < 0 := hother
      rw [access_of_neg store hrefused, if_neg hne]
      rfl
    · have hcell := Word.toNat_toInt_inj h hother
      rw [access_write store hother, LawfulStore.memory_write, Memory.set]
      by_cases heq : other = address
      · rw [if_pos (hcell.mpr heq.symm), if_pos heq]
        rfl
      · rw [if_neg (mt hcell.mp (Ne.symm heq)), if_neg heq]
        rfl

/-- Whatever has been written where before, the store holds what was written last. -/
theorem memory_after (program : List Word) (history : List Access) {address : Word}
    (h : ¬address < 0) :
    memory (after (ofList program : σ) history) address.toInt.toNat =
      Access.held program history address := by
  induction history using List.reverseRecOn with
  | nil =>
    change memory (ofList program : σ) _ = _
    rw [LawfulStore.memory_ofList]
    rfl
  | append_singleton history request ih =>
    rw [after_append, memory_access _ _ h, ih, Access.held, Access.held,
      Access.lastWritten_append]
    cases request.written? address with
    | none => rfl
    | some value => rfl

/-- Stores of the same memory answer an access alike and stay of the same memory. -/
theorem access_congr {store : σ} {other : τ} (h : memory store = memory other)
    (request : Access) : (access store request).2 = (access other request).2 ∧
      memory (access store request).1 = memory (access other request).1 := by
  by_cases hneg : request.address < 0
  · rw [access_of_neg store hneg, access_of_neg other hneg]
    exact ⟨rfl, h⟩
  · cases request with
    | read address =>
      rw [Access.address] at hneg
      rw [access_read store hneg, access_read other hneg]
      exact ⟨by rw [h], h⟩
    | write address value =>
      rw [Access.address] at hneg
      rw [access_write store hneg, access_write other hneg]
      refine ⟨rfl, ?_⟩
      rw [LawfulStore.memory_write, LawfulStore.memory_write, h]

theorem answers_congr {store : σ} {other : τ} (h : memory store = memory other)
    (requests : List Access) : answers store requests = answers other requests := by
  induction requests generalizing store other with
  | nil => rfl
  | cons request rest ih =>
    obtain ⟨hanswer, hmemory⟩ := access_congr h request
    rw [answers, answers, hanswer, ih hmemory]

/-- How a store that has been loaded with the program answers once the accesses have been made. -/
structure Serves (σ : Type) [Store σ] (program : List Word) (history : List Access) : Prop where
  refuses : ∀ request : Access, request.address < 0 →
    access (after (ofList program : σ) history) request =
      (after (ofList program) history, .error (.negativeAddress request.address))
  writes : ∀ address value : Word, ¬address < 0 →
    (access (after (ofList program : σ) history) (.write address value)).2 = .ok none
  reads : ∀ address : Word, ¬address < 0 →
    (access (after (ofList program : σ) history) (.read address)).2 =
      .ok (some (Access.held program history address))

theorem serves (program : List Word) (history : List Access) : Serves σ program history where
  refuses _ h := access_of_neg _ h
  writes address value h := by rw [access_write _ h]
  reads address h := by rw [access_read _ h, memory_after program history h]

/-- Dense and sparse stores are two forms of one map, which is total and zero where nothing has been
written, so they cannot be told apart by their answers. -/
theorem stores_hold_last_written (program : List Word) :
    (∀ history, Serves Dense program history ∧ Serves Sparse program history) ∧
    ∀ requests, answers (ofList program : Dense) requests =
      answers (ofList program : Sparse) requests := by
  refine ⟨fun history => ⟨serves program history, serves program history⟩, fun requests => ?_⟩
  apply answers_congr
  rw [LawfulStore.memory_ofList, LawfulStore.memory_ofList]

/-- A cell that a dense store first parks and takes in later, with a refused write on the way. -/
theorem stores_hold_last_written_far :
    let program : List Word := [3, 4]
    let history : List Access :=
      [.write 2000000 5, .write 1000000 6, .write (-1) 7, .write 2000001 8]
    let dense : Dense := after (ofList program) history
    let sparse : Sparse := after (ofList program) history
    (access dense (.read 2000000)).2 = .ok (some 5) ∧
      (access sparse (.read 2000000)).2 = .ok (some 5) ∧
      access dense (.write (-1) 9) = (dense, .error (.negativeAddress (-1))) ∧
      answers (ofList program : Dense) history = answers (ofList program : Sparse) history := by
  intro program history dense sparse
  obtain ⟨hserves, hanswers⟩ := stores_hold_last_written program
  obtain ⟨hdense, hsparse⟩ := hserves history
  have hheld : Access.held program history 2000000 = 5 := by decide
  refine ⟨?_, ?_, hdense.refuses (.write (-1) 9) (by decide), hanswers history⟩
  · rw [hdense.reads 2000000 (by decide), hheld]
  · rw [hsparse.reads 2000000 (by decide), hheld]

end Store

end Intcode
