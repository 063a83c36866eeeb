import Intcode.Text.Extending
import Intcode.Text.Ignorable
import Intcode.Text.Unprintable

/-!
The quoted form of a text, in which every character can be told apart: double quotes around it, and
an escape for each character that would end it, cannot be seen or would melt into its neighbour.
-/
namespace Intcode.Text

/-- The code point in braces, in hexadecimal without leading zeros. -/
def codePointEscape (c : Char) : List Char :=
  '\\' :: 'u' :: '\x7b' :: Nat.toDigits 16 c.toNat ++ ['\x7d']

def escape (c : Char) : List Char :=
  if c = '\x00' then ['\\', '0']
  else if c = '\t' then ['\\', 't']
  else if c = '\r' then ['\\', 'r']
  else if c = '\n' then ['\\', 'n']
  else if c = '"' ∨ c = '\\' then ['\\', c]
  else if isExtending c || isIgnorable c || isUnprintable c then codePointEscape c
  else [c]

def quote (text : List Char) : String :=
  String.ofList ('"' :: text.flatMap escape ++ ['"'])

end Intcode.Text
