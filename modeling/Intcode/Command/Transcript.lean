import Intcode.Log.Record

/-!
A transcript is all that a command leaves behind: the two texts that it wrote and its exit code.
-/
namespace Intcode

structure Transcript where
  output : String := ""
  errors : String := ""
  code : UInt8 := 0
  deriving DecidableEq

namespace Transcript

open Log

/-- The lines of the records that the threshold admits. -/
def logText (threshold : Option Level) (records : List Record) : String :=
  String.join ((records.filter fun record => admits threshold record.level).map Record.line)

/-- The transcript with records written ahead of it. -/
def logging (threshold : Option Level) (records : List Record) (transcript : Transcript) :
    Transcript :=
  { transcript with errors := logText threshold records ++ transcript.errors }

/-- The transcript with output written ahead of it. -/
def printing (text : String) (transcript : Transcript) : Transcript :=
  { transcript with output := text ++ transcript.output }

/-- A command that fails reports why, and what that was due to. -/
def failure (message : String) (cause? : Option String) : Transcript :=
  match cause? with
  | none => { errors := "Error: " ++ message ++ "\n", code := 1 }
  | some cause =>
    { errors := "Error: " ++ message ++ "\n\nCaused by:\n    " ++ cause ++ "\n", code := 1 }

end Transcript

end Intcode
