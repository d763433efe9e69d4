import TableDriven.Proofs.Calculator.Grammar
import TableDriven.Proofs.Grammar.Paths

/-!
# The calculator's tables are consistent

For each parsing state of the calculator, the symbols that every path to it ends
with. They are the part of a rule that has been read in that state.
-/

namespace TableDriven.Calculator

/-- What has just been read in a parsing state. -/
def recent (state : LalrStateId) : List SymbolId :=
  [[],
   [Symbols.expr],
   [Symbols.term],
   [Symbols.factor],
   [Symbols.number],
   [Symbols.openParen],
   [Symbols.minus],
   [Symbols.error],
   [Symbols.expr, Symbols.plus],
   [Symbols.expr, Symbols.minus],
   [Symbols.term, Symbols.times],
   [Symbols.term, Symbols.divide],
   [Symbols.openParen, Symbols.expr],
   [Symbols.minus, Symbols.factor],
   [Symbols.expr, Symbols.plus, Symbols.term],
   [Symbols.expr, Symbols.minus, Symbols.term],
   [Symbols.term, Symbols.times, Symbols.factor],
   [Symbols.term, Symbols.divide, Symbols.factor],
   [Symbols.openParen, Symbols.expr, Symbols.closeParen]].getD state []

/-- What has been read agrees with all entries of the parsing states. -/
theorem recent_tables : tables.Recent recent where
  fresh := rfl
  entries := by
    have listed : ∀ state ∈ lalrStates, ∀ entry ∈ state.actions,
        tables.EntryRecent recent state.id entry := by
      decide
    intro state member
    exact listed state (List.mem_toArray.mp member)

/-- The calculator's grammar is well formed. -/
theorem wellFormed_tables : grammar.tables.WellFormed :=
  Grammar.wellFormed_of_ofTables ofTables_tables

/-- The calculator's parsing automaton agrees with its rules. -/
theorem consistent_grammar : grammar.Consistent :=
  Grammar.consistent_of_recent wellFormed_tables recent_tables

end TableDriven.Calculator
