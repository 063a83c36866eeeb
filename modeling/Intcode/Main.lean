import Intcode.Command.Run
import Intcode.SelfCheck.Basic

/-!
The command as an executable. The log's threshold is taken from the environment.
-/
namespace Intcode

/-- More turns than can ever be taken. -/
def budget : Nat := 4611686018427387904

def readFault : IO.Error → Command.ReadFault
  | .noFileOrDirectory .. => .notFound
  | .inappropriateType .. => .isDirectory
  | failure => .other failure.toString

def readFile (path : String) : IO (Except Command.ReadFault String) := do
  match ← (IO.FS.readBinFile path).toBaseIO with
  | .ok bytes => return Command.decode bytes
  | .error failure => return .error (readFault failure)

def threshold : IO (Option Log.Level) := do
  return (← IO.getEnv "INTCODE_LOG").bind Log.Level.ofName?

def report (transcript : Option Transcript) : IO UInt32 := do
  match transcript with
  | none => return 1
  | some transcript =>
    IO.print transcript.output
    IO.eprint transcript.errors
    return transcript.code.toUInt32

/-- Runs the self check and reports on it. -/
def selfCheck : IO UInt32 := do
  report (SelfCheck.run budget (← threshold))

/-- Runs the command and reports on it. -/
def command (arguments : List String) : IO UInt32 := do
  let file ← match Command.Request.ofArguments arguments with
    | .run { path := some path, .. } => readFile path
    | _ => pure (.error .notFound)
  report (Command.run budget (← threshold) (fun _ => file) arguments)

end Intcode

def main (arguments : List String) : IO UInt32 := Intcode.command arguments
