import TableDriven.Grammar.Tables
import TableDriven.Lexing.Token
import TableDriven.Tree.Basic

/-!
# The stack of the parsing automaton

Every entry remembers the state that was left by pushing it, so taking an entry
off tells which state to return to. The lowest entry marks where the parse began;
no handle reaches down to it.
-/

namespace TableDriven

/-- A token on the stack, the state it was pushed from, and the tree it stands
for. -/
structure Entry where
  origin : LalrStateId
  token : Token
  node : Option Node

/-- Entries, the latest first. -/
abbrev Stack := List Entry

namespace Stack

/-- Push a token from a state. -/
def push (stack : Stack) (state : LalrStateId) (token : Token) (node : Option Node) : Stack :=
  ⟨state, token, node⟩ :: stack

/-- Take the latest `count` entries off, in the order in which they were pushed;
refused unless at least one more entry lies below them. -/
def takeHandle? (stack : Stack) (count : Nat) : Option (List Entry × Stack) :=
  match stack.drop count with
  | [] => none
  | rest => some ((stack.take count).reverse, rest)

end Stack

end TableDriven
