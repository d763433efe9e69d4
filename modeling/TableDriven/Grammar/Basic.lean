import TableDriven.Grammar.Validation

/-!
# Grammars

A grammar is a set of tables without faults, together with the two symbols that
the scanner makes up tokens from: the end of input and text that is no token.
It is read only. A lookup answers with the entry at a position or says which
entry is missing; in a grammar made by `ofTables` no reference of the tables
leads to a missing entry.
-/

namespace TableDriven

/-- What only tables at odds with themselves, or a caller's own invention, can
bring about. It is no verdict on an input. -/
inductive Defect where
  /-- An entry was looked up that does not exist. -/
  | missingEntry (referent : Referent) (id : Nat)
  /-- The input was accepted while the stack held more or less than one tree. -/
  | acceptDepth
  /-- The accepted entry carries no tree. -/
  | missingRoot
  /-- An entry that lists an error was taken for an action. -/
  | errorEntry
deriving DecidableEq, Repr

/-- The text of a defect. -/
def Defect.message : Defect → String
  | .missingEntry _ _ => "index out of bounds"
  | .acceptDepth => "accept must leave only the start entry on the stack"
  | .missingRoot => "accepted entry carries no syntax node"
  | .errorEntry => "an error entry is no action"

/-- Validated tables. -/
structure Grammar where
  tables : Tables
  endSymbol : Symbol
  lexicalError : Symbol
deriving DecidableEq, Repr

namespace Grammar

/-- Labels text that is no token where the tables offer no symbol for it. -/
def unlistedError : Symbol := ⟨65535, .error, "Error"⟩

/-- The grammar that `tables` describe, or their first fault. -/
def ofTables (tables : Tables) : Except GrammarError Grammar :=
  match tables.faults with
  | fault :: _ => .error fault
  | [] =>
    match tables.endSymbol? with
    | none => .error .missingEndSymbol
    | some endSymbol =>
      .ok ⟨tables, endSymbol, tables.lexicalErrorSymbol?.getD unlistedError⟩

/-- The entry of `table` at `id`. -/
def entry {α : Type} (referent : Referent) (table : Array α) (id : Nat) : Except Defect α :=
  match table[id]? with
  | some found => .ok found
  | none => .error (.missingEntry referent id)

/-- The symbol at a position. -/
def symbol (grammar : Grammar) (id : SymbolId) : Except Defect Symbol :=
  entry .symbol grammar.tables.symbols id

/-- The character set at a position. -/
def charSet (grammar : Grammar) (id : CharSetId) : Except Defect CharSet :=
  entry .charSet grammar.tables.charSets id

/-- The lexical state at a position. -/
def dfaState (grammar : Grammar) (id : DfaStateId) : Except Defect DfaState :=
  entry .dfaState grammar.tables.dfaStates id

/-- The parsing state at a position. -/
def lalrState (grammar : Grammar) (id : LalrStateId) : Except Defect LalrState :=
  entry .lalrState grammar.tables.lalrStates id

/-- The rule at a position. -/
def rule (grammar : Grammar) (id : RuleId) : Except Defect Rule :=
  entry .rule grammar.tables.rules id

/-- The action of the parsing state at a position on a symbol. -/
def actionOn (grammar : Grammar) (state : LalrStateId) (symbol : SymbolId) :
    Except Defect (Option Action) :=
  (grammar.lalrState state).map fun found => found.actionOn symbol

/-- The first terminal of a given name. -/
def terminalNamed? (grammar : Grammar) (name : String) : Option Symbol :=
  grammar.tables.symbols.find? fun symbol => symbol.kind = .terminal ∧ symbol.name = name

end Grammar

end TableDriven
