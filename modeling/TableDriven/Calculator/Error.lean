import TableDriven.Calculator.Literal
import TableDriven.Parsing.Outcome

/-!
# Errors of the calculator

A calculation fails because its file cannot be read, because its text is no
expression, or because the expression has no value.
-/

namespace TableDriven

/-- Why a file cannot be read. -/
inductive FileError where
  | notFound
  | notADirectory
  | isADirectory
  | nameTooLong
  | permissionDenied
  | other (text : String)
deriving DecidableEq, Repr

/-- The text of a reason. -/
def FileError.message : FileError → String
  | .notFound => "No such file or directory (os error 2)"
  | .notADirectory => "Not a directory (os error 20)"
  | .isADirectory => "Is a directory (os error 21)"
  | .nameTooLong => "File name too long (os error 36)"
  | .permissionDenied => "Permission denied (os error 13)"
  | .other text => text

namespace Calculator

/-- Why a calculation has no result. -/
inductive CalculatorError where
  /-- A number that is none, or is out of range. -/
  | literal (error : LiteralError)
  /-- Text that is no expression. -/
  | parse (error : ParseError)
  /-- Tables that describe no grammar. -/
  | grammar (error : GrammarError)
  | divisionByZero (line : Nat)
  | overflow (line : Nat)
  /-- A place at which a syntax error was recovered from. -/
  | recovered (line : Nat)
  /-- A node that is no part of an expression. -/
  | unexpectedNode (name : String) (line : Nat)
  /-- A file that cannot be read. -/
  | file (error : FileError)
deriving DecidableEq, Repr

/-- The text of an error. -/
def CalculatorError.message : CalculatorError → String
  | .literal error => s!"unable to parse ParseIntError \x7b kind: {error.title} \x7d"
  | .parse error => s!"parse error: {error.message}"
  | .grammar error => s!"grammar error: {error.message}"
  | .divisionByZero line => s!"division by zero at line {line}"
  | .overflow line => s!"integer overflow at line {line}"
  | .recovered line => s!"syntax error recovered at line {line}"
  | .unexpectedNode name line => s!"unexpected node <{name}> at line {line}"
  | .file error => s!"i/o error: {error.message}"

/-- The text of the error below an error, if there is one. -/
def CalculatorError.cause? : CalculatorError → Option String
  | .literal error => some error.explanation
  | .parse error => some error.message
  | .grammar error => some error.message
  | .file error => some error.message
  | .divisionByZero _ => none
  | .overflow _ => none
  | .recovered _ => none
  | .unexpectedNode _ _ => none

end Calculator

end TableDriven
