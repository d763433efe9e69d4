import TableDriven.Calculator.Tables
import TableDriven.Proofs.Grammar.WellFormed

/-!
# The grammar of the calculator

The calculator's tables pass validation. The first symbols that mark the end of
the text and text that is no token are the only ones.
-/

namespace TableDriven.Calculator

/-- The grammar that the calculator's tables describe. -/
def grammar : Grammar where
  tables := tables
  endSymbol := ⟨Symbols.endOfInput, .endOfInput, "EOF"⟩
  lexicalError := ⟨Symbols.lexicalError, .error, "Error"⟩

/-- The calculator's tables describe a grammar. -/
theorem ofTables_tables : Grammar.ofTables tables = .ok grammar := by
  have faultless : tables.faults = [] := by decide
  exact Grammar.ofTables_eq_ok.mpr ⟨faultless, rfl, rfl, rfl⟩

end TableDriven.Calculator
