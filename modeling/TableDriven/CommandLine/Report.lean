import TableDriven.CommandLine.Help
import TableDriven.Tree.Render

/-!
# What the program answers

A report is an exit code and what goes to the two streams. Trees and values go
to the first stream. An error is told on the second one with the errors that it
comes from below it, numbered if there are several.
-/

namespace TableDriven.CommandLine

/-- What a program leaves behind. -/
structure Report where
  code : Nat
  stdout : String
  stderr : String
deriving DecidableEq, Repr

namespace Report

/-- A program that did what it was asked to do. -/
def success (stdout : String) : Report := ⟨0, stdout, ""⟩

/-- The causes of an error, each on a line. -/
def causeLines : List String → String
  | [] => ""
  | [cause] => s!"\nCaused by:\n    {cause}\n"
  | causes =>
    "\nCaused by:\n" ++ String.join (causes.zipIdx.map fun (cause, index) =>
      s!"    {index}: {cause}\n")

/-- A program that ran into an error. -/
def failure (headline : String) (causes : List String) : Report :=
  ⟨1, "", s!"Error: {headline}\n" ++ causeLines causes⟩

/-- A program that was called wrongly. -/
def misuse : Report := ⟨2, "", programHelp⟩

/-- A program that could not finish. -/
def abort (message : String) : Report := ⟨101, "", message ++ "\n"⟩

/-- The report of a failed parse of a file. -/
def parseFailure (path : String) (error : Calculator.CalculatorError) : Report :=
  failure s!"can't parse {Text.quoted path}" (error.message :: error.cause?.toList)

/-- The report of a failed evaluation. -/
def evalFailure (error : Calculator.CalculatorError) : Report :=
  failure error.message error.cause?.toList

/-- The report on a tree. -/
def ofTree (command : Command) (tree : Node) : Report :=
  match command with
  | .parse => success tree.display
  | .eval =>
    match Calculator.evaluate tree with
    | .ok value => success s!"{value}\n"
    | .error error => evalFailure error

end Report

/-- Answer a request, given the contents of the file that it needs. -/
def Request.answer (request : Request) (contents : Except FileError (Array UInt8))
    (limit : Nat) : Report :=
  match request with
  | .help topic => .success topic.text
  | .version => .success versionText
  | .misuse => .misuse
  | .job command path options =>
    match Calculator.parseFile contents options limit with
    | .done tree => .ofTree command tree
    | .failed error => .parseFailure path error
    | .broken defect => .abort defect.message
    | .unfinished => .abort "the parse was given up"

end TableDriven.CommandLine
