import TableDriven.Reporting.Event

/-!
# Transcripts

A transcript tells the events of a run in order. It is read off the run: the
events of a step follow from what the run was before the step and from what the
step makes of it. So a run does not depend on whether anybody listens.
-/

namespace TableDriven

/-- The events of a scan. The token is told only once its bytes have been read,
and the end of input is not told at all. -/
def Scan.events {σ : Type} (scan : Scan σ) : List Event :=
  let taken := match scan.bytes, scan.result with
    | some bytes, .ok token => [Event.scanned token bytes]
    | _, _ => []
  scan.moves.map .moved ++ taken

namespace Automaton

/-- The events of a reduction. -/
def reduceEvents (automaton : Automaton) (machine : Machine) (rule : RuleId) (lookahead : Token) :
    List Event :=
  match automaton.plan rule with
  | .error _ => []
  | .ok (found, head, trimmed) =>
    let (after, result) := automaton.reduce machine rule lookahead
    let landed := match result with
      | .ok () => [Event.went after.state]
      | .error _ => []
    .reduced rule head found.body.length trimmed :: landed

/-- The events of a recovery. -/
def recoverEvents (automaton : Automaton) (machine : Machine) (token : Token) : List Event :=
  match automaton.errorSymbol with
  | none => []
  | some error =>
    if token.symbol.id ≠ error then [.substituted token machine.state]
    else
      let advance := automaton.recover machine token
      match advance.result with
      | .ok _ => [.resumed token.line advance.machine.state]
      | .error _ => []

/-- The events of offering a token. -/
def stepEvents (automaton : Automaton) (machine : Machine) (token : Token) : List Event :=
  .offered machine.state machine.stack token ::
    match automaton.grammar.actionOn machine.state token.symbol.id with
    | .error _ => []
    | .ok none => automaton.recoverEvents machine token
    | .ok (some (.shift target)) => [.shifted target]
    | .ok (some (.goto target)) => [.went target]
    | .ok (some (.reduce rule)) => automaton.reduceEvents machine rule token
    | .ok (some .accept) => [.accepted]
    | .ok (some .error) => []

end Automaton

/-- Whether tokens of a kind reach the automaton. -/
def SymbolKind.isOffered : SymbolKind → Bool
  | .endOfInput => true
  | .terminal => true
  | .nonterminal => true
  | .commentEnd => true
  | .whitespace => false
  | .commentStart => false
  | .commentLine => false
  | .error => false

namespace Run

variable {σ : Type} [Source σ]

/-- The events of one step of a run. -/
def stepEvents (automaton : Automaton) (run : Run σ) : List Event :=
  match run.pending with
  | none => (Scan.next automaton.grammar automaton.errorSymbol run.scanned run.source).events
  | some token =>
    if run.commentDepth = 0 ∧ token.symbol.kind.isOffered then
      automaton.stepEvents run.machine token
    else []

/-- The events of a run until it ends or the limit is reached, behind those told
before, which are kept latest first. -/
def tellFrom (automaton : Automaton) : Nat → List Event → Run σ → List Event
  | 0, told, _ => told.reverse
  | limit + 1, told, run =>
    let told := run.stepEvents automaton |>.reverseAux told
    match run.step automaton with
    | .running next => tellFrom automaton limit told next
    | .ended _ _ => told.reverse

end Run

namespace Parser

variable {σ : Type} [Source σ]

/-- The events of making a parser that is to recover by a terminal. -/
def errorTerminalEvents (grammar : Grammar) (name : String) : List Event :=
  match grammar.terminalNamed? name with
  | some _ => []
  | none => [.noErrorTerminal name]

/-- The events of a parse. -/
def transcript (parser : Parser) (source : σ) (trim : Bool) (limit : Nat) : List Event :=
  match parser.begin? source with
  | .error _ => []
  | .ok run => run.tellFrom (parser.automaton trim) limit []

end Parser

end TableDriven
