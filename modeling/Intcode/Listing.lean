import Intcode.Numeral
import Intcode.Text.Blank
import Intcode.Text.Quoted

/-!
A listing is a program as text: numerals between commas, blanks around each of them and around the
whole ignored. A blank listing is the program without words. Formatting a program gives a listing
that reads back as the same program.
-/
namespace Intcode.Listing

/-- The first item of a listing that is no numeral, counted from zero and trimmed. -/
structure BadItem where
  index : Nat
  token : String
  deriving DecidableEq, Repr

def BadItem.message (bad : BadItem) : String :=
  s!"item {bad.index.repr} of the program text, {Text.quote bad.token.toList}, is not an integer"

def items (text : List Char) : List (List Char) :=
  (text.splitOn ',').map Text.trim

def readItem (item : List Char × Nat) : Except BadItem Word :=
  match Numeral.read item.1 with
  | .ok word => .ok word
  | .error _ => .error ⟨item.2, String.ofList item.1⟩

def parse (text : String) : Except BadItem (List Word) :=
  match Text.trim text.toList with
  | [] => .ok []
  | trimmed => (items trimmed).zipIdx.mapM readItem

def format (program : List Word) : String :=
  ",".intercalate (program.map Word.text)

end Intcode.Listing
