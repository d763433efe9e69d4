/-!
# Integers of 64 bits

The calculator computes exactly and refuses every result that 64 bits with a
sign cannot hold. A literal is an optional sign and decimal digits; it is read
from the left, and whichever comes first decides: a character that is no digit,
or a value out of range.
-/

namespace TableDriven.Calculator

/-- The least value. -/
def leastInt : Int := -9223372036854775808

/-- The greatest value. -/
def greatestInt : Int := 9223372036854775807

/-- The value if it is in range. -/
def inRange? (value : Int) : Option Int :=
  if leastInt ≤ value ∧ value ≤ greatestInt then some value else none

/-- Why a text is no literal. -/
inductive LiteralError where
  /-- The text is empty. -/
  | empty
  /-- A character is no digit, or no digit follows the sign. -/
  | invalidDigit
  /-- The value is above the range. -/
  | tooLarge
  /-- The value is below the range. -/
  | tooSmall
deriving DecidableEq, Repr

/-- The word for a reason. -/
def LiteralError.title : LiteralError → String
  | .empty => "Empty"
  | .invalidDigit => "InvalidDigit"
  | .tooLarge => "PosOverflow"
  | .tooSmall => "NegOverflow"

/-- What a reason means. -/
def LiteralError.explanation : LiteralError → String
  | .empty => "cannot parse integer from empty string"
  | .invalidDigit => "invalid digit found in string"
  | .tooLarge => "number too large to fit in target type"
  | .tooSmall => "number too small to fit in target type"

/-- The value of a decimal digit. -/
def digit? (character : Char) : Option Nat :=
  if character.isDigit then some (character.toNat - 48) else none

/-- Read digits behind those whose value is given. A negative value grows
downwards. -/
def readDigits (negative : Bool) (value : Int) : List Char → Except LiteralError Int
  | [] => .ok value
  | character :: rest =>
    match digit? character with
    | none => .error .invalidDigit
    | some digit =>
      let next := if negative then value * 10 - digit else value * 10 + digit
      match inRange? next with
      | some next => readDigits negative next rest
      | none => .error (if negative then .tooSmall else .tooLarge)

/-- Read a literal. -/
def readCharacters : List Char → Except LiteralError Int
  | [] => .error .empty
  | ['+'] => .error .invalidDigit
  | ['-'] => .error .invalidDigit
  | '+' :: digits => readDigits false 0 digits
  | '-' :: digits => readDigits true 0 digits
  | digits => readDigits false 0 digits

/-- Read the literal in a text. -/
def readLiteral (text : String) : Except LiteralError Int := readCharacters text.toList

end TableDriven.Calculator
