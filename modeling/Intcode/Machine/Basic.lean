import Intcode.Processor.Execute

/-!
A machine is a processor with a store. One step carries out one instruction, or fails and leaves the
machine as it was.
-/
namespace Intcode

structure Machine (σ : Type) extends Processor where
  store : σ
  deriving DecidableEq

namespace Machine

variable {σ : Type}

/-- A machine at rest before cell zero of a store. -/
def ofStore (store : σ) : Machine σ := ⟨.initial, store⟩

def push (machine : Machine σ) (value : Word) : Machine σ :=
  { machine with toProcessor := machine.toProcessor.push value }

def pushAll (machine : Machine σ) (values : List Word) : Machine σ := values.foldl push machine

def pop? (machine : Machine σ) : Option (Word × Machine σ) :=
  machine.toProcessor.pop?.map fun (value, processor) =>
    (value, { machine with toProcessor := processor })

def drain (machine : Machine σ) : List Word × Machine σ :=
  (machine.output, { machine with output := [] })

variable [Store σ]

def load (program : List Word) : Machine σ := ofStore (Store.ofList program)

def memory (machine : Machine σ) : Memory := Store.memory machine.store

def fetch (machine : Machine σ) : Except Fault Instruction :=
  Instruction.fetch machine.memory machine.pc

def read (machine : Machine σ) (address : Word) : Except Fault Word :=
  Store.read machine.store address

/-- The machine with a word written into its store from outside. -/
def patch (machine : Machine σ) (address value : Word) : Except Fault (Machine σ) :=
  address.cell.map fun cell => { machine with store := Store.write machine.store cell value }

/-- The machine after a move. -/
def perform (machine : Machine σ) (move : Move) : Machine σ :=
  match move.write with
  | none => { machine with toProcessor := move.processor }
  | some (cell, value) => ⟨move.processor, Store.write machine.store cell value⟩

/-- What the next instruction is going to do. -/
def move (machine : Machine σ) : Except Fault Move := machine.toProcessor.move machine.memory

def step (machine : Machine σ) : Machine σ × Except Fault Status :=
  match machine.move with
  | .error fault => (machine, .error fault)
  | .ok move =>
    let status := move.processor.status
    (machine.perform move, .ok status)

end Machine

end Intcode
