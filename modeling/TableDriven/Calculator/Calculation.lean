import TableDriven.Calculator.Evaluate
import TableDriven.Reporting.Transcript

/-!
# Calculations

A calculation parses a text by the calculator's grammar, with or without
trimming and recovery, and may then evaluate the tree. The text may come from a
file that cannot be read. What a calculation tells about itself is the loading
of the grammar, the parse, and the totals of the parse.
-/

namespace TableDriven.Calculator

/-- What a calculation is to do with its text. -/
structure Options where
  trim : Bool
  recover : Bool
deriving DecidableEq, Repr

/-- The grammar of the calculator. -/
def grammar? : Except GrammarError Grammar := Grammar.ofTables tables

/-- The parser of a calculation. -/
def parserFor (grammar : Grammar) (recover : Bool) : Parser :=
  if recover then Parser.recoveringBy grammar errorTerminal else Parser.ofGrammar grammar

/-- Parse a text, and say what becomes of the parser. -/
def parseWith (grammar : Grammar) (input : Array UInt8) (options : Options) (limit : Nat) :
    Parsed ByteSource :=
  (parserFor grammar options.recover).parse (ByteSource.ofBytes input) options.trim limit

/-- The tree of a text. -/
def parse (input : Array UInt8) (options : Options) (limit : Nat) :
    Outcome CalculatorError Node :=
  match grammar? with
  | .error error => .failed (.grammar error)
  | .ok grammar => (parseWith grammar input options limit).outcome.mapError .parse

/-- The tree of the text in a file. -/
def parseFile (contents : Except FileError (Array UInt8)) (options : Options) (limit : Nat) :
    Outcome CalculatorError Node :=
  match contents with
  | .error error => .failed (.file error)
  | .ok input => parse input options limit

/-- The value of a text. -/
def value (input : Array UInt8) (limit : Nat) : Outcome CalculatorError Int :=
  (parse input ⟨true, false⟩ limit).andThen evaluate

/-- The events of loading the grammar. -/
def loadingEvents : List Event :=
  match grammar? with
  | .error _ => []
  | .ok grammar => [.loaded grammar.tables]

/-- The events of parsing a text with a grammar that has been loaded. -/
def parseEvents (input : Array UInt8) (options : Options) (limit : Nat) : List Event :=
  match grammar? with
  | .error _ => []
  | .ok grammar =>
    let source := ByteSource.ofBytes input
    let made := if options.recover then Parser.errorTerminalEvents grammar errorTerminal else []
    let told := (parserFor grammar options.recover).transcript source options.trim limit
    let parsed := parseWith grammar input options limit
    let totals := match parsed.outcome with
      | .done _ => [.parserTotals parsed.parser.stats, .scanTotals parsed.parser.stats.scans]
      | .failed _ => [.parserTotals parsed.parser.stats, .scanTotals parsed.parser.stats.scans]
      | .broken _ => []
      | .unfinished => []
    made ++ told ++ totals

/-- The events of a calculation. -/
def events (input : Array UInt8) (options : Options) (limit : Nat) : List Event :=
  loadingEvents ++ parseEvents input options limit

/-- The events of a calculation on a file. A file that cannot be read is found
out after the grammar has been loaded. -/
def fileEvents (contents : Except FileError (Array UInt8)) (options : Options) (limit : Nat) :
    List Event :=
  match contents with
  | .error _ => loadingEvents
  | .ok input => events input options limit

end TableDriven.Calculator
