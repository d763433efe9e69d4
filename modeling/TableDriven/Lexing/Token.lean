import TableDriven.Grammar.Symbol

/-!
# Tokens

A token is a piece of the input with the symbol it was recognized as and the
line it starts on. Its text has been decoded and may differ from its bytes.
-/

namespace TableDriven

/-- A piece of the input. -/
structure Token where
  symbol : Symbol
  line : Nat
  text : String
deriving DecidableEq, Repr

end TableDriven
