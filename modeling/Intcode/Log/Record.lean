/-!
A log is a sequence of records. Each has a level, and a log that is kept up to a threshold holds the
records of that level and of the more urgent ones; without a threshold it holds none.
-/
namespace Intcode.Log

inductive Level where
  | error
  | warn
  | info
  | debug
  | trace
  deriving DecidableEq, Repr

namespace Level

/-- Urgent levels have low ranks. -/
def rank : Level → Nat
  | error => 1
  | warn => 2
  | info => 3
  | debug => 4
  | trace => 5

def text : Level → String
  | error => "ERROR"
  | warn => "WARN"
  | info => "INFO"
  | debug => "DEBUG"
  | trace => "TRACE"

/-- The level that a name stands for, if it stands for one. -/
def ofName? : String → Option Level
  | "error" => some error
  | "warn" => some warn
  | "info" => some info
  | "debug" => some debug
  | "trace" => some trace
  | _ => none

end Level

def admits (threshold : Option Level) (level : Level) : Bool :=
  match threshold with
  | none => false
  | some threshold => level.rank ≤ threshold.rank

structure Record where
  level : Level
  /-- The part of the program that the record comes from. -/
  source : String
  message : String
  deriving DecidableEq, Repr

namespace Record

/-- The width of the longest level name. -/
def levelWidth : Nat := 5

/-- The further lines of a message are indented. -/
def indent : Char → List Char
  | '\n' => '\n' :: List.replicate 4 ' '
  | c => [c]

/-- One line, as in `[INFO  intcode_run] loaded 5 words`. -/
def line (record : Record) : String :=
  "[" ++ String.ofList (record.level.text.toList.rightpad levelWidth ' ') ++ " " ++ record.source
    ++ "] " ++ String.ofList (record.message.toList.flatMap indent) ++ "\n"

end Record

end Intcode.Log
