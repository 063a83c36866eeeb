import Intcode.Command.Directory
import Intcode.Command.Dump
import Intcode.Command.Options
import Intcode.Command.Solo
import Intcode.Command.Transcript
import Intcode.Log.Circuit

/-!
The command that runs a program file. Its whole behaviour is a function from its arguments, the text
of the file and the log's threshold to a transcript.
-/
namespace Intcode.Command

open Log

def usageLines : List String :=
  ["Usage: intcode-run [OPTIONS] path/to/program.txt [INPUT...]",
   "",
   "Runs the program with the given inputs and prints everything it outputs.",
   "",
   "Options:",
   "    --chain PHASES   run one copy per phase (e.g. 4,3,2,1,0) in a line, feeding",
   "                     INPUT (default 0) to the first, and print the last output",
   "    --loop PHASES    like --chain, but the last copy feeds back into the first",
   "    --sparse         keep memory in a map instead of a flat vector",
   "    --entry ADDRESS  start executing at ADDRESS instead of 0",
   "    --dump           print the final memory contents after a plain run"]

def usage : String := String.join (usageLines.map fun line => line ++ "\n")

/-- What the command itself has to tell. -/
inductive Notice where
  | noPath
  | opening (path : String)
  | loaded (words : Nat)
  | ignoring
  | halted (processor : Processor)

namespace Notice

def level : Notice → Level
  | noPath => .error
  | ignoring => .warn
  | opening _ | loaded _ | halted _ => .info

def message : Notice → String
  | noPath => "Please provide the path to a program file."
  | opening path => "Attempting to open path: '" ++ path ++ "'"
  | loaded words => s!"loaded {words.repr} words"
  | ignoring => "--sparse, --entry and --dump only apply to a plain run; ignoring them"
  | halted processor => "halted: " ++ processor.text

def record (notice : Notice) : Record := ⟨notice.level, "intcode_run", notice.message⟩

end Notice

def eventRecords (events : Array Event) : List Record := events.toList.map Event.record

/-- A word on a line of its own. -/
def wordLine (word : Word) : String := word.text ++ "\n"

/-- Runs one machine and prints its outputs, then its store if that is asked for. -/
def runSolo {σ : Type} [Store σ] [Parking σ] [Dump σ] (budget : Nat) (threshold : Option Level)
    (options : Options) (machine : Machine σ) : Option Transcript :=
  let solo := Solo.start machine options.entry options.inputs
  let records := eventRecords (if threshold.isSome then solo.events threshold budget else #[])
  (solo.run budget).map fun (solo, result) =>
    let transcript := match result with
      | .error cause => Transcript.failure cause.message none
      | .ok () =>
        Transcript.logging threshold [(Notice.halted solo.machine.toProcessor).record]
          { output := if options.dump then Dump.dump solo.machine.store else "" }
    (transcript.printing (String.join (solo.printed.map wordLine))).logging threshold records

def runCircuit (budget : Nat) (threshold : Option Level) (wiring : Wiring)
    (circuit : Circuit Dense) (signal : Word) : Option Transcript :=
  let records := eventRecords
    (if threshold.isSome then circuitEvents threshold budget wiring circuit signal else #[])
  (circuit.run budget wiring signal).map fun (_, result) =>
    let transcript := match result with
      | .error cause => Transcript.failure cause.message none
      | .ok answer => { output := wordLine answer }
    transcript.logging threshold records

def runWired (budget : Nat) (threshold : Option Level) (wiring : Wiring) (phases : List Word)
    (options : Options) (program : List Word) : Option Transcript :=
  let circuit := Circuit.ofPhases program phases
  match options.inputs with
  | [] => runCircuit budget threshold wiring circuit 0
  | [signal] => runCircuit budget threshold wiring circuit signal
  | _ => some (Transcript.failure "a pipeline takes a single initial input" none)

def runProgram (budget : Nat) (threshold : Option Level) (options : Options)
    (program : List Word) : Option Transcript :=
  match options.wiring with
  | some (wiring, phases) =>
    let ignored := options.sparse || options.entry.isSome || options.dump
    (runWired budget threshold wiring phases options program).map
      (Transcript.logging threshold (if ignored then [Notice.ignoring.record] else []))
  | none =>
    if options.sparse then
      runSolo budget threshold options (Machine.load program : Machine Sparse)
    else
      runSolo budget threshold options (Machine.load program : Machine Dense)

def runFile (budget : Nat) (threshold : Option Level) (options : Options) (path : String)
    (file : Except ReadFault String) : Option Transcript :=
  match file with
  | .error cause => some (Transcript.failure ("failed to read " ++ path) (some cause.message))
  | .ok text =>
    match Listing.parse text with
    | .error cause => some (Transcript.failure ("failed to parse " ++ path) (some cause.message))
    | .ok program =>
      (runProgram budget threshold options program).map
        (Transcript.logging threshold [(Notice.loaded program.length).record])

/-- The transcript of the command, where `files` gives the text of the file at a path. -/
def run (budget : Nat) (threshold : Option Level) (files : String → Except ReadFault String)
    (arguments : List String) : Option Transcript :=
  match Request.ofArguments arguments with
  | .help => some { output := usage }
  | .misuse cause => some (Transcript.failure cause.message cause.cause?)
  | .run options =>
    match options.path with
    | none =>
      some (Transcript.logging threshold [Notice.noPath.record] { errors := usage, code := 2 })
    | some path =>
      (runFile budget threshold options path (files path)).map
        (Transcript.logging threshold [(Notice.opening path).record])

end Intcode.Command
