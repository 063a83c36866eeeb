import Intcode.Circuit.Basic
import Intcode.Listing

/-!
The arguments of the command line. They are cut into groups from the left: three options take the
argument after them, whatever it looks like, and every other argument is a group of its own. The
groups are then read in order. The first that asks for help or is at fault decides; otherwise each
group adds to the options, and of two groups that set the same thing the later wins.
-/
namespace Intcode.Command

structure Options where
  /-- The connection of a circuit and the phases of its stages; a plain run has neither. -/
  wiring : Option (Wiring × List Word) := none
  sparse : Bool := false
  entry : Option Word := none
  dump : Bool := false
  path : Option String := none
  inputs : List Word := []
  deriving DecidableEq, Repr

/-- Why an argument list has no meaning. -/
inductive Misuse where
  | missingPhases (wiring : Wiring)
  | badPhases (text : String) (cause : Listing.BadItem)
  | missingEntry
  | badEntry (text : String) (cause : Numeral.Fault)
  | badInput (text : String) (cause : Numeral.Fault)
  deriving DecidableEq, Repr

def optionName : Wiring → String
  | .series => "--chain"
  | .loop => "--loop"

namespace Misuse

def message : Misuse → String
  | missingPhases wiring => optionName wiring ++ " needs a list of phases"
  | badPhases text _ => "bad phase list " ++ Text.quote text.toList
  | missingEntry => "--entry needs an address"
  | badEntry text _ => "bad entry address " ++ Text.quote text.toList
  | badInput text _ => s!"input {Text.quote text.toList} is not an integer"

def cause? : Misuse → Option String
  | missingPhases _ | missingEntry => none
  | badPhases _ cause => some cause.message
  | badEntry _ cause | badInput _ cause => some cause.message

end Misuse

/-- Arguments that belong together. The value of an option is absent at the end of the list. -/
inductive Group where
  | wiring (wiring : Wiring) (phases : Option String)
  | entry (address : Option String)
  | sparse
  | dump
  | help
  | positional (text : String)
  deriving DecidableEq, Repr

namespace Group

/-- The group that an option opens, if it takes the argument after it. -/
def opened? : String → Option (Option String → Group)
  | "--chain" => some (wiring .series)
  | "--loop" => some (wiring .loop)
  | "--entry" => some entry
  | _ => none

def single : String → Group
  | "--sparse" => sparse
  | "--dump" => dump
  | "-h" | "--help" => help
  | text => positional text

end Group

def groups : List String → List Group
  | [] => []
  | [argument] =>
    match Group.opened? argument with
    | some group => [group none]
    | none => [Group.single argument]
  | argument :: next :: rest =>
    match Group.opened? argument with
    | some group => group (some next) :: groups rest
    | none => Group.single argument :: groups (next :: rest)

/-- What the arguments ask for. -/
inductive Request where
  | help
  | misuse (cause : Misuse)
  | run (options : Options)
  deriving DecidableEq, Repr

namespace Options

def add (options : Options) : Group → Request
  | .wiring wiring none => .misuse (.missingPhases wiring)
  | .wiring wiring (some text) =>
    match Listing.parse text with
    | .ok phases => .run { options with wiring := some (wiring, phases) }
    | .error cause => .misuse (.badPhases text cause)
  | .entry none => .misuse .missingEntry
  | .entry (some text) =>
    match Numeral.read text.toList with
    | .ok address => .run { options with entry := some address }
    | .error cause => .misuse (.badEntry text cause)
  | .sparse => .run { options with sparse := true }
  | .dump => .run { options with dump := true }
  | .help => .help
  | .positional text =>
    match options.path with
    | none => .run { options with path := some text }
    | some _ =>
      match Numeral.read text.toList with
      | .ok input => .run { options with inputs := options.inputs ++ [input] }
      | .error cause => .misuse (.badInput text cause)

def addAll (options : Options) : List Group → Request
  | [] => .run options
  | group :: rest =>
    match options.add group with
    | .run options => options.addAll rest
    | decided => decided

end Options

def Request.ofArguments (arguments : List String) : Request :=
  ({} : Options).addAll (groups arguments)

end Intcode.Command
