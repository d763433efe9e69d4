import TableDriven.Parsing.Parser
import TableDriven.Text.Hex

/-!
# Events

What a scan, a step of the automaton or a whole parse has to say about itself is
an event. Each has a level that tells how much detail it gives away, and a text.
A listener names the finest level of detail it wants and hears of that and all
that is coarser.
-/

namespace TableDriven

/-- Levels of detail, the finest first. -/
inductive Level where
  | trace
  | debug
  | warn
deriving DecidableEq, Repr

namespace Level

/-- Coarser levels have a higher rank. -/
def rank : Level → Nat
  | .trace => 0
  | .debug => 1
  | .warn => 2

/-- The word for a level. -/
def title : Level → String
  | .trace => "TRACE"
  | .debug => "DEBUG"
  | .warn => "WARN"

end Level

/-- Something worth telling. -/
inductive Event where
  /-- Tables were found to describe a grammar. -/
  | loaded (tables : Tables)
  /-- A parser cannot recover because no terminal has the given name. -/
  | noErrorTerminal (name : String)
  /-- The lexical automaton moved. -/
  | moved (move : Move)
  /-- A token was taken off the source. -/
  | scanned (token : Token) (bytes : List UInt8)
  /-- A token is about to be offered to the automaton. -/
  | offered (state : LalrStateId) (stack : Stack) (token : Token)
  /-- A token was shifted. -/
  | shifted (target : LalrStateId)
  /-- A transition was taken on the head of a rule. -/
  | went (target : LalrStateId)
  /-- A reduction began. -/
  | reduced (rule : RuleId) (head : Symbol) (length : Nat) (trimmed : Bool)
  /-- The input was accepted. -/
  | accepted
  /-- A token was turned into the error terminal. -/
  | substituted (token : Token) (state : LalrStateId)
  /-- Recovery found a state to go on from. -/
  | resumed (line : Nat) (state : LalrStateId)
  /-- The totals of a parser. -/
  | parserTotals (stats : ParserStats)
  /-- The totals of its scans. -/
  | scanTotals (tally : ScanTally)

namespace Event

/-- How much detail an event gives away. -/
def level : Event → Level
  | .loaded _ => .debug
  | .noErrorTerminal _ => .warn
  | .substituted _ _ => .debug
  | .resumed _ _ => .debug
  | .parserTotals _ => .debug
  | .scanTotals _ => .debug
  | .moved _ => .trace
  | .scanned _ _ => .trace
  | .offered _ _ _ => .trace
  | .shifted _ => .trace
  | .went _ => .trace
  | .reduced _ _ _ _ => .trace
  | .accepted => .trace

/-- The stack from its lowest entry up, then the state and the token. -/
def offeredText (state : LalrStateId) (stack : Stack) (token : Token) : String :=
  String.join (stack.reverse.map fun entry => s!"<{entry.origin}> {entry.token.symbol.name}  ")
    ++ s!"<{state}>  <-  {token.symbol.name}"

/-- A token's bytes as text, or as digits where they are not well-formed text. -/
def shownBytes (bytes : List UInt8) : String :=
  (Text.strict? bytes).getD (Text.hex bytes)

/-- The text of an event. -/
def message : Event → String
  | .loaded tables =>
    s!"grammar: {tables.symbols.size} symbols, {tables.charSets.size} char sets, "
      ++ s!"{tables.dfaStates.size} DFA states, {tables.lalrStates.size} LALR states, "
      ++ s!"{tables.rules.size} rules"
  | .noErrorTerminal name =>
    s!"no terminal named {Text.quoted name}; error recovery disabled"
  | .moved move =>
    let shown := Text.quotedChar (Char.ofNat move.byte.toNat)
    s!"DFA: {move.origin} --{shown}--> {move.target}"
  | .scanned token bytes =>
    s!"TOKEN: {Text.quoted token.symbol.name} line={token.line} "
      ++ s!"len={bytes.length} text={Text.quoted (shownBytes bytes)}"
  | .offered state stack token => offeredText state stack token
  | .shifted target => s!"Shift {target}"
  | .went target => s!"Goto {target}"
  | .reduced rule head length trimmed =>
    let ending := if trimmed then " trimmed" else ""
    s!"Reduce {rule} <{head.name}> ({length} symbols){ending}"
  | .accepted => "Accept"
  | .substituted token state =>
    s!"line {token.line}: unexpected {Text.quoted token.symbol.name} in state {state}, "
      ++ "substituting error terminal"
  | .resumed line state => s!"line {line}: resuming in state {state}"
  | .parserTotals stats =>
    s!"parser stats: tokens={stats.tokens} shifts={stats.steps.shifts} "
      ++ s!"reductions={stats.steps.reductions} trims={stats.steps.trims} "
      ++ s!"recoveries={stats.steps.recoveries}"
  | .scanTotals tally =>
    s!"scanner stats: tokens={tally.tokens} chars={tally.walked} unreads={tally.returned}"

/-- The line a listener at `finest` gets for an event, if it hears of it. -/
def heard? (finest : Level) (event : Event) : Option String :=
  if finest.rank ≤ event.level.rank then some s!"{event.level.title} {event.message}" else none

end Event

/-- All that a listener at `finest` hears of some events. -/
def heard (finest : Level) (events : List Event) : List String :=
  events.filterMap (Event.heard? finest)

end TableDriven
