import Intcode.Word

/-!
Numerals are how words are written by hand: one sign or none, then decimal digits, leading zeros
allowed. A numeral is read from the left, so of two faults the one further left is reported.
-/
namespace Intcode.Numeral

inductive Fault where
  | empty
  /-- A character that is no digit where a digit is due, or a sign with nothing after it. -/
  | invalidDigit
  | tooLarge
  | tooSmall
  deriving DecidableEq, Repr

def Fault.message : Fault → String
  | .empty => "cannot parse integer from empty string"
  | .invalidDigit => "invalid digit found in string"
  | .tooLarge => "number too large to fit in target type"
  | .tooSmall => "number too small to fit in target type"

inductive Sign where
  | plus
  | minus
  deriving DecidableEq, Repr

namespace Sign

/-- The largest magnitude of a word with this sign. -/
def limit : Sign → Nat
  | .plus => 9223372036854775807
  | .minus => 9223372036854775808

def overflow : Sign → Fault
  | .plus => .tooLarge
  | .minus => .tooSmall

def apply : Sign → Nat → Word
  | .plus, magnitude => Int64.ofInt magnitude
  | .minus, magnitude => Int64.ofInt (-magnitude)

end Sign

/-- Goes on from the magnitude of the digits read so far, and stops at the first digit that takes it
past what a word can hold. -/
def readDigits (sign : Sign) (magnitude : Nat) : List Char → Except Fault Nat
  | [] => .ok magnitude
  | c :: rest =>
    if c.isDigit then
      let next := 10 * magnitude + (c.toNat - '0'.toNat)
      if next ≤ sign.limit then readDigits sign next rest else .error sign.overflow
    else .error .invalidDigit

def readUnsigned (sign : Sign) : List Char → Except Fault Word
  | [] => .error .invalidDigit
  | digits => (readDigits sign 0 digits).map sign.apply

def read : List Char → Except Fault Word
  | [] => .error .empty
  | '+' :: digits => readUnsigned .plus digits
  | '-' :: digits => readUnsigned .minus digits
  | digits => readUnsigned .plus digits

end Intcode.Numeral
