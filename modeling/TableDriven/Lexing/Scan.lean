import TableDriven.Lexing.Token
import TableDriven.Lexing.Walk
import TableDriven.Parsing.Outcome
import TableDriven.Text.Lossy

/-!
# Scanning

A scan takes the next token off a source. It walks as far as the lexical
automaton goes, decides by what the walk recognized how many bytes the token
covers, returns to where the walk began and reads them. Bytes that no token
begins with are covered whole as the error terminal when there is one to recover
by, and one by one as lexical errors when there is none. Past the last byte every
scan yields the same token and leaves the source alone.
-/

namespace TableDriven

/-- Totals over scans: tokens taken, bytes walked over, and bytes walked over
beyond the end of their token. -/
structure ScanTally where
  tokens : Nat
  walked : Nat
  returned : Nat
deriving DecidableEq, Repr

namespace ScanTally

/-- Nothing was scanned. -/
def zero : ScanTally := ⟨0, 0, 0⟩

/-- Add up totals. -/
def add (left right : ScanTally) : ScanTally :=
  ⟨left.tokens + right.tokens, left.walked + right.walked, left.returned + right.returned⟩

/-- Count a token of `length` bytes found by a walk over `walked` bytes. -/
def count (tally : ScanTally) (walked length : Nat) : ScanTally :=
  tally.add ⟨1, walked, walked - length⟩

end ScanTally

/-- Where a scan left its source, its moves in order, the bytes of the token
unless it marks the end of input, and the token. -/
structure Scan (σ : Type) where
  source : σ
  tally : ScanTally
  moves : List Move
  bytes : Option (List UInt8)
  result : Except Halt Token

/-- The symbol that error recovery works with: it stands among the terminals
whatever its kind in the tables. -/
def Grammar.errorTerminal (grammar : Grammar) (id : SymbolId) : Except Defect Symbol :=
  (grammar.symbol id).map fun symbol => { symbol with kind := .terminal }

namespace Scan

variable {σ : Type} [Source σ]

/-- The token past the last byte. -/
def endToken (grammar : Grammar) (line : Nat) : Token :=
  ⟨⟨grammar.endSymbol.id, .endOfInput, "EOF"⟩, line, "EOF"⟩

/-- The symbol of a token and the number of bytes it covers, by what a walk over
`walked` bytes recognized. -/
def classify (grammar : Grammar) (errorSymbol : Option SymbolId) (walked : Nat) :
    Option Match → Except Defect (Symbol × Nat)
  | some found => (grammar.symbol found.symbol).map fun symbol => (symbol, found.length)
  | none =>
    match errorSymbol with
    | some error => (grammar.errorTerminal error).map fun symbol => (symbol, walked)
    | none => .ok (grammar.lexicalError, 1)

/-- Return to where a token starts and read it. -/
def reread (source : σ) (start length : Nat) : Except SourceError (Nat × List UInt8) × σ :=
  match Source.seek source start with
  | (.error error, source) => (.error error, source)
  | (.ok (), source) =>
    let line := Source.line source
    match Source.take source length with
    | (.error error, source) => (.error error, source)
    | (.ok bytes, source) => (.ok (line, bytes), source)

/-- Take the next token off a source. -/
def next (grammar : Grammar) (errorSymbol : Option SymbolId) (tally : ScanTally) (source : σ) :
    Scan σ :=
  if Source.atEnd source then
    ⟨source, tally, [], none, .ok (endToken grammar (Source.line source))⟩
  else
    let start := Source.cursor source
    let walk := Walk.ofSource grammar source
    let moves := walk.moves.reverse
    let walked := Source.cursor walk.source - start
    match walk.outcome with
    | .error defect => ⟨walk.source, tally, moves, none, .error (.defect defect)⟩
    | .ok found =>
      match classify grammar errorSymbol walked found with
      | .error defect => ⟨walk.source, tally, moves, none, .error (.defect defect)⟩
      | .ok (symbol, length) =>
        let tally := tally.count walked length
        match reread walk.source start length with
        | (.error error, source) =>
          ⟨source, tally, moves, none, .error (.error (.source error))⟩
        | (.ok (line, bytes), source) =>
          ⟨source, tally, moves, some bytes, .ok ⟨symbol, line, Text.lossy bytes⟩⟩

end Scan

end TableDriven
