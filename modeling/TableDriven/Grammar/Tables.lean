import TableDriven.Grammar.ByteSet
import TableDriven.Grammar.Symbol

/-!
# Grammar tables

A grammar arrives as five tables and three entry points. Entries refer to one
another by position: the lexical automaton's edges name a character set and a
target, the actions of the parsing automaton name a symbol and a state or rule,
and rules name symbols. Nothing here says that a reference leads anywhere; that
is the business of validation.
-/

namespace TableDriven

/-- Position in the table of character sets. -/
abbrev CharSetId := Nat

/-- Position in the table of lexical states. -/
abbrev DfaStateId := Nat

/-- Position in the table of parsing states. -/
abbrev LalrStateId := Nat

/-- Position in the table of rules. -/
abbrev RuleId := Nat

/-- A numbered set of bytes, the label of lexical edges. -/
structure CharSet where
  id : CharSetId
  bytes : ByteSet
deriving DecidableEq, Repr

/-- A transition of the lexical automaton on any byte of a set. -/
structure Edge where
  charSet : CharSetId
  target : DfaStateId
deriving DecidableEq, Repr

/-- A state of the lexical automaton. Its edges are tried in order, so an
earlier one wins where two sets overlap. -/
structure DfaState where
  id : DfaStateId
  accept : Option SymbolId
  edges : List Edge
deriving DecidableEq, Repr

/-- What a parsing state does on a symbol. -/
inductive Action where
  /-- Push the symbol and move to a state. -/
  | shift (target : LalrStateId)
  /-- The same, meant for the heads of rules. -/
  | goto (target : LalrStateId)
  /-- Replace the body of a rule by its head. -/
  | reduce (rule : RuleId)
  /-- The input is complete. -/
  | accept
  /-- Nothing; the symbol does not belong here. -/
  | error
deriving DecidableEq, Repr

/-- An action and the symbol it answers to. -/
structure ActionEntry where
  symbol : SymbolId
  action : Action
deriving DecidableEq, Repr

/-- A state of the parsing automaton. -/
structure LalrState where
  id : LalrStateId
  actions : List ActionEntry
deriving DecidableEq, Repr

/-- The first action listed for `symbol`. An entry that lists an error counts as
no entry, so it does not hide a later one. -/
def LalrState.actionOn (state : LalrState) (symbol : SymbolId) : Option Action :=
  (state.actions.find? fun entry => entry.symbol = symbol ∧ entry.action ≠ .error).map
    ActionEntry.action

/-- A rule of the grammar; the body may be empty. -/
structure Rule where
  id : RuleId
  head : SymbolId
  body : List SymbolId
deriving DecidableEq, Repr

/-- All that describes a grammar, as delivered. -/
structure Tables where
  symbols : Array Symbol
  charSets : Array CharSet
  dfaStates : Array DfaState
  lalrStates : Array LalrState
  rules : Array Rule
  startSymbol : SymbolId
  dfaInitial : DfaStateId
  lalrInitial : LalrStateId
deriving DecidableEq, Repr

/-- The kinds of entry a reference can lead to. -/
inductive Referent where
  | symbol
  | charSet
  | dfaState
  | lalrState
  | rule
deriving DecidableEq, Repr

/-- The number of entries of each kind; a reference must be below it. -/
def Tables.count (tables : Tables) : Referent → Nat
  | .symbol => tables.symbols.size
  | .charSet => tables.charSets.size
  | .dfaState => tables.dfaStates.size
  | .lalrState => tables.lalrStates.size
  | .rule => tables.rules.size

end TableDriven
