import Intcode.Command.Transcript
import Intcode.Listing
import Intcode.Log.Machine
import Intcode.SelfCheck.Program

/-!
The self check steps a machine through the built-in diagnostic program and judges what it puts out.
A keycode alone means that every instruction works.
-/
namespace Intcode.SelfCheck

open Log

/-- The input that makes the diagnostic program test the machine. -/
def testMode : Word := 1

/-- A machine on its way, with the number of steps that it has taken short of its halt. -/
structure Progress where
  machine : Machine Dense
  steps : Nat

inductive Verdict where
  | halted (steps : Nat) (outputs : List Word)
  | starved (processor : Processor)
  | broken (steps : Nat) (fault : Fault) (processor : Processor)

def turn (progress : Progress) : Turn Progress Verdict :=
  match progress.machine.step with
  | (machine, .ok .halted) => .stop (.halted progress.steps machine.output)
  | (machine, .ok .awaitingInput) => .stop (.starved machine.toProcessor)
  | (machine, .ok .ready) | (machine, .ok .afterOutput) => .next ⟨machine, progress.steps + 1⟩
  | (machine, .error fault) => .stop (.broken progress.steps fault machine.toProcessor)

def notice (level : Level) (message : String) : Record := ⟨level, "intcode_test", message⟩

def outputTranscript : List Word → Transcript
  | [keycode] => { output := s!"All opcodes check out. BOOST keycode: {keycode.text}\n" }
  | [] => { output := "BOOST halted without saying anything?!\n", code := 1 }
  | outputs =>
    { output := String.join
        (outputs.dropLast.map fun opcode => s!"Malfunctioning opcode: {opcode.text}\n")
      code := 1 }

def verdictTranscript (threshold : Option Level) : Verdict → Transcript
  | .halted steps outputs =>
    (outputTranscript outputs).logging threshold
      [notice .info s!"BOOST halted after {steps.repr} steps"]
  | .starved processor =>
    Transcript.logging threshold
      [notice .error s!"BOOST asked for more input at {processor.pc.text}. {processor.text}"]
      { code := 1 }
  | .broken steps fault processor =>
    Transcript.logging threshold
      [notice .error s!"Engine fault after {steps.repr} steps: {fault.message}. {processor.text}"]
      { code := 1 }

def runProgram (budget : Nat) (threshold : Option Level) (program : List Word) :
    Option Transcript :=
  let progress : Progress := ⟨(Machine.load program).push testMode, 0⟩
  let events := journal turn (fun progress => keep threshold (stepEvents progress.machine)) budget
    progress #[]
  (iterate turn budget progress).map fun verdict =>
    (verdictTranscript threshold verdict).logging threshold (events.toList.map Event.record)

def runListing (budget : Nat) (threshold : Option Level) (text : String) : Option Transcript :=
  match Listing.parse text with
  | .ok program => runProgram budget threshold program
  | .error bad =>
    some (Transcript.logging threshold
      [notice .error s!"The bundled BOOST program doesn't even parse: {bad.message}"] { code := 1 })

def run (budget : Nat) (threshold : Option Level) : Option Transcript :=
  runListing budget threshold listing

end Intcode.SelfCheck
