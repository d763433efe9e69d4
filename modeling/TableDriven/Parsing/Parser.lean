import TableDriven.Parsing.Run
import TableDriven.Source.Bytes

/-!
# Parsers

A parser is kept from one input to the next. Each parse starts over from the
initial state with nothing but a start entry on the stack; only the statistics
add up. A parse that ends in a tree or an error leaves an empty stack. One that
reveals a defect leaves everything as it was at that moment, and the totals of
its scans are lost.
-/

namespace TableDriven

/-- Totals over all parses: tokens fetched, steps of the automaton, scans. -/
structure ParserStats where
  tokens : Nat
  steps : StepTally
  scans : ScanTally
deriving DecidableEq, Repr

/-- A grammar, the terminal to recover by if there is one, and what earlier
parses left behind. -/
structure Parser where
  grammar : Grammar
  errorSymbol : Option SymbolId
  state : LalrStateId
  stack : Stack
  stats : ParserStats

/-- What became of a parse, and the parser and the source afterwards. -/
structure Parsed (σ : Type) where
  outcome : Outcome ParseError Node
  parser : Parser
  source : σ

namespace Parser

/-- A parser that reports the first error. -/
def ofGrammar (grammar : Grammar) : Parser :=
  ⟨grammar, none, grammar.tables.lalrInitial, [], ⟨0, .zero, .zero⟩⟩

/-- A parser that recovers from errors by the terminal of a given name. Where
there is no such terminal it reports the first error. -/
def recoveringBy (grammar : Grammar) (name : String) : Parser :=
  { ofGrammar grammar with errorSymbol := (grammar.terminalNamed? name).map Symbol.id }

/-- A limit on steps for when none is wanted: carrying out so many would take
longer than anybody waits. -/
def ampleSteps : Nat := 4611686018427387904

/-- The automaton of a parse. -/
def automaton (parser : Parser) (trim : Bool) : Automaton :=
  ⟨parser.grammar, parser.errorSymbol, trim⟩

/-- The lowest entry of every parse. -/
def startEntry (grammar : Grammar) (start : Symbol) : Entry :=
  ⟨grammar.tables.lalrInitial, ⟨start, 0, ""⟩, none⟩

variable {σ : Type} [Source σ]

/-- The run of a parse before its first step. -/
def begin? (parser : Parser) (source : σ) : Except Defect (Run σ) :=
  let grammar := parser.grammar
  (grammar.symbol grammar.tables.startSymbol).map fun start =>
    { machine := ⟨grammar.tables.lalrInitial, [startEntry grammar start], parser.stats.steps⟩
      source
      scanned := .zero
      fetched := parser.stats.tokens
      pending := none
      commentDepth := 0 }

/-- What a defect leaves on the stack. Where it shows as the input is accepted, the entry that
was to carry the tree has already been taken off. -/
def abandonedStack (defect : Defect) (stack : Stack) : Stack :=
  match defect with
  | .acceptDepth => stack.tail
  | .missingRoot => stack.tail
  | .missingEntry _ _ => stack
  | .errorEntry => stack

/-- The parser after a run that revealed a defect. -/
def abandon (parser : Parser) (defect : Defect) (last : Run σ) : Parser :=
  { parser with
    state := last.machine.state
    stack := abandonedStack defect last.machine.stack
    stats := ⟨last.fetched, last.machine.tally, parser.stats.scans⟩ }

/-- The parser after any other run that ended. -/
def settle (parser : Parser) (last : Run σ) : Parser :=
  { parser with
    state := last.machine.state
    stack := []
    stats := ⟨last.fetched, last.machine.tally, parser.stats.scans.add last.scanned⟩ }

/-- Parse a source to its end in at most `limit` steps. -/
def parse (parser : Parser) (source : σ) (trim : Bool) (limit : Nat) : Parsed σ :=
  match parser.begin? source with
  | .error defect => ⟨.broken defect, parser, source⟩
  | .ok run =>
    match run.finish (parser.automaton trim) limit with
    | none => ⟨.unfinished, parser, source⟩
    | some (result, last) =>
      let after := match result with
        | .error (.defect defect) => parser.abandon defect last
        | _ => parser.settle last
      ⟨Outcome.ofResult result, after, last.source⟩

/-- Parse bytes in memory, with every application of a rule in the tree. -/
def parseInMemory (parser : Parser) (bytes : Array UInt8) (limit : Nat) : Parsed ByteSource :=
  parser.parse (ByteSource.ofBytes bytes) false limit

end Parser

end TableDriven
