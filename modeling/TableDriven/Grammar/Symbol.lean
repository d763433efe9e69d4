/-!
# Symbols

A symbol is what rules are written with and what tokens are labelled by. Its
kind says who deals with it: terminals and nonterminals belong to the automaton,
blanks and comments are dropped before they reach it, and two kinds mark the end
of the input and text that no token matches.
-/

namespace TableDriven

/-- Position in the symbol table. -/
abbrev SymbolId := Nat

/-- The part a symbol plays. -/
inductive SymbolKind where
  /-- The head of rules; only reductions produce it. -/
  | nonterminal
  /-- An ordinary token. -/
  | terminal
  /-- A token that is dropped. -/
  | whitespace
  /-- The end of the input. -/
  | endOfInput
  /-- Opens a region of text that is dropped. -/
  | commentStart
  /-- Closes such a region. -/
  | commentEnd
  /-- Drops the rest of its line. -/
  | commentLine
  /-- Text that is no token. -/
  | error
deriving DecidableEq, Repr

/-- An entry of the symbol table. -/
structure Symbol where
  id : SymbolId
  kind : SymbolKind
  name : String
deriving DecidableEq, Repr

end TableDriven
