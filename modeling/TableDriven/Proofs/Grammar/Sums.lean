import TableDriven.Proofs.Grammar.Paths

/-!
# The language of sums

A small language by which the results about all tables are seen at work. Its texts are sums of
numbers. There are blanks between the tokens, comments from an opening brace to a closing one and
comments from a number sign to the end of the line, and there is a terminal to recover by.

    Sum  = Sum + Term | Term
    Term = Num | error

Every byte that a token begins with is a token by itself.
-/

namespace TableDriven.Sums

namespace Symbols

/-- The end of the text. -/
abbrev endOfInput : SymbolId := 0

/-- Text that is no token. -/
abbrev lexicalError : SymbolId := 1

/-- Blanks, tabs and line ends. -/
abbrev whitespace : SymbolId := 2

/-- The brace that closes a comment. -/
abbrev commentEnd : SymbolId := 3

/-- The mark of a comment up to the end of its line. -/
abbrev commentLine : SymbolId := 4

/-- The brace that opens a comment. -/
abbrev commentStart : SymbolId := 5

/-- The plus sign. -/
abbrev plus : SymbolId := 6

/-- What recovery puts in the place of text it cannot make sense of. -/
abbrev error : SymbolId := 7

/-- A run of digits. -/
abbrev number : SymbolId := 8

/-- A sum. -/
abbrev sum : SymbolId := 9

/-- A term. -/
abbrev term : SymbolId := 10

end Symbols

namespace Rules

/-- A sum of a sum and a term. -/
abbrev add : RuleId := 0

/-- A sum that is a term. -/
abbrev sumOfTerm : RuleId := 1

/-- A term that is a number. -/
abbrev number : RuleId := 2

/-- A term that recovery put in place. -/
abbrev error : RuleId := 3

end Rules

/-- The name of the terminal to recover by. -/
def errorTerminal : String := "error"

/-- The lexical automaton. -/
def dfaStates : List DfaState :=
  [⟨0, none, [⟨0, 1⟩, ⟨1, 2⟩, ⟨2, 3⟩, ⟨3, 4⟩, ⟨4, 5⟩, ⟨5, 6⟩]⟩,
   ⟨1, some Symbols.number, [⟨0, 1⟩]⟩,
   ⟨2, some Symbols.whitespace, [⟨1, 2⟩]⟩,
   ⟨3, some Symbols.plus, []⟩,
   ⟨4, some Symbols.commentStart, []⟩,
   ⟨5, some Symbols.commentEnd, []⟩,
   ⟨6, some Symbols.commentLine, []⟩]

/-- Reduce by a rule on each symbol that can follow a sum or a term. -/
def reduceBy (rule : RuleId) : List ActionEntry :=
  [⟨Symbols.endOfInput, .reduce rule⟩, ⟨Symbols.plus, .reduce rule⟩]

/-- The shifts of every state in which a term can begin. -/
def termShifts : List ActionEntry := [⟨Symbols.number, .shift 3⟩, ⟨Symbols.error, .shift 4⟩]

/-- The parsing automaton. -/
def lalrStates : List LalrState :=
  [⟨0, termShifts ++ [⟨Symbols.sum, .goto 1⟩, ⟨Symbols.term, .goto 2⟩]⟩,
   ⟨1, [⟨Symbols.endOfInput, .accept⟩, ⟨Symbols.plus, .shift 5⟩]⟩,
   ⟨2, reduceBy Rules.sumOfTerm⟩,
   ⟨3, reduceBy Rules.number⟩,
   ⟨4, reduceBy Rules.error⟩,
   ⟨5, termShifts ++ [⟨Symbols.term, .goto 6⟩]⟩,
   ⟨6, reduceBy Rules.add⟩]

/-- The tables of the language. -/
def tables : Tables where
  symbols := #[
    ⟨Symbols.endOfInput, .endOfInput, "EOF"⟩,
    ⟨Symbols.lexicalError, .error, "Error"⟩,
    ⟨Symbols.whitespace, .whitespace, "Whitespace"⟩,
    ⟨Symbols.commentEnd, .commentEnd, "Comment End"⟩,
    ⟨Symbols.commentLine, .commentLine, "Comment Line"⟩,
    ⟨Symbols.commentStart, .commentStart, "Comment Start"⟩,
    ⟨Symbols.plus, .terminal, "+"⟩,
    ⟨Symbols.error, .terminal, errorTerminal⟩,
    ⟨Symbols.number, .terminal, "Num"⟩,
    ⟨Symbols.sum, .nonterminal, "Sum"⟩,
    ⟨Symbols.term, .nonterminal, "Term"⟩]
  charSets := #[
    ⟨0, .ofRange 48 57⟩,
    ⟨1, .ofList [32, 9, 13, 10]⟩,
    ⟨2, .ofList [43]⟩,
    ⟨3, .ofList [123]⟩,
    ⟨4, .ofList [125]⟩,
    ⟨5, .ofList [35]⟩]
  dfaStates := dfaStates.toArray
  lalrStates := lalrStates.toArray
  rules := #[
    ⟨Rules.add, Symbols.sum, [Symbols.sum, Symbols.plus, Symbols.term]⟩,
    ⟨Rules.sumOfTerm, Symbols.sum, [Symbols.term]⟩,
    ⟨Rules.number, Symbols.term, [Symbols.number]⟩,
    ⟨Rules.error, Symbols.term, [Symbols.error]⟩]
  startSymbol := Symbols.sum
  dfaInitial := 0
  lalrInitial := 0

/-- The grammar that the tables describe. -/
def grammar : Grammar where
  tables := tables
  endSymbol := ⟨Symbols.endOfInput, .endOfInput, "EOF"⟩
  lexicalError := ⟨Symbols.lexicalError, .error, "Error"⟩

/-- The tables describe a grammar. -/
theorem ofTables_tables : Grammar.ofTables tables = .ok grammar := by
  have faultless : tables.faults = [] := by decide
  exact Grammar.ofTables_eq_ok.mpr ⟨faultless, rfl, rfl, rfl⟩

/-- What has just been read in a parsing state. -/
def recent (state : LalrStateId) : List SymbolId :=
  [[],
   [Symbols.sum],
   [Symbols.term],
   [Symbols.number],
   [Symbols.error],
   [Symbols.sum, Symbols.plus],
   [Symbols.sum, Symbols.plus, Symbols.term]].getD state []

/-- What has been read agrees with all entries of the parsing states. -/
theorem recent_tables : tables.Recent recent where
  fresh := rfl
  entries := by
    have listed : ∀ state ∈ lalrStates, ∀ entry ∈ state.actions,
        tables.EntryRecent recent state.id entry := by
      decide
    intro state member
    exact listed state (List.mem_toArray.mp member)

/-- The parsing automaton agrees with its rules. -/
theorem consistent_grammar : grammar.Consistent :=
  Grammar.consistent_of_recent (Grammar.wellFormed_of_ofTables ofTables_tables) recent_tables

end TableDriven.Sums
