import TableDriven.Grammar.Validation

/-!
# The grammar of the calculator

Expressions are built from natural numbers by four operators, prefix minus and
parentheses. Multiplication and division bind tighter than addition and
subtraction, all four group to the left, and minus applies to a single factor.

    Expr   = Expr + Term | Expr - Term | Term
    Term   = Term * Factor | Term / Factor | Factor
    Factor = Num | ( Expr ) | - Factor | error

The last form of a factor is what recovery puts in the place of text that it
could not make sense of. The states are those of the automaton with one symbol of
lookahead; a state reduces on every symbol that can follow the head of its rule.
-/

namespace TableDriven.Calculator

namespace Symbols

/-- The end of the text. -/
abbrev endOfInput : SymbolId := 0

/-- Text that is no token. -/
abbrev lexicalError : SymbolId := 1

/-- Blanks, tabs and line ends. -/
abbrev whitespace : SymbolId := 2

/-- The mark that closes a comment. -/
abbrev commentEnd : SymbolId := 3

/-- The mark of a comment up to the end of its line. -/
abbrev commentLine : SymbolId := 4

/-- The mark that opens a comment. -/
abbrev commentStart : SymbolId := 5

/-- The minus sign. -/
abbrev minus : SymbolId := 6

/-- The opening parenthesis. -/
abbrev openParen : SymbolId := 7

/-- The closing parenthesis. -/
abbrev closeParen : SymbolId := 8

/-- The multiplication sign. -/
abbrev times : SymbolId := 9

/-- The division sign. -/
abbrev divide : SymbolId := 10

/-- The plus sign. -/
abbrev plus : SymbolId := 11

/-- What recovery puts in the place of text it cannot make sense of. -/
abbrev error : SymbolId := 12

/-- A run of digits. -/
abbrev number : SymbolId := 13

/-- An expression. -/
abbrev expr : SymbolId := 14

/-- A factor. -/
abbrev factor : SymbolId := 15

/-- A term. -/
abbrev term : SymbolId := 16

end Symbols

namespace Rules

/-- A sum. -/
@[match_pattern] abbrev add : RuleId := 0

/-- A difference. -/
@[match_pattern] abbrev subtract : RuleId := 1

/-- An expression that is a term. -/
@[match_pattern] abbrev exprOfTerm : RuleId := 2

/-- A product. -/
@[match_pattern] abbrev multiply : RuleId := 3

/-- A quotient. -/
@[match_pattern] abbrev divide : RuleId := 4

/-- A term that is a factor. -/
@[match_pattern] abbrev termOfFactor : RuleId := 5

/-- A factor that is a number. -/
@[match_pattern] abbrev number : RuleId := 6

/-- A factor in parentheses. -/
@[match_pattern] abbrev parenthesized : RuleId := 7

/-- A factor behind a minus sign. -/
@[match_pattern] abbrev negate : RuleId := 8

/-- A factor that recovery put in place. -/
@[match_pattern] abbrev error : RuleId := 9

end Rules

/-- The name of the terminal by which the calculator recovers. -/
def errorTerminal : String := "error"

/-- The symbols of the calculator. -/
def symbols : List Symbol :=
  [⟨Symbols.endOfInput, .endOfInput, "EOF"⟩,
   ⟨Symbols.lexicalError, .error, "Error"⟩,
   ⟨Symbols.whitespace, .whitespace, "Whitespace"⟩,
   ⟨Symbols.commentEnd, .commentEnd, "Comment End"⟩,
   ⟨Symbols.commentLine, .commentLine, "Comment Line"⟩,
   ⟨Symbols.commentStart, .commentStart, "Comment Start"⟩,
   ⟨Symbols.minus, .terminal, "-"⟩,
   ⟨Symbols.openParen, .terminal, "("⟩,
   ⟨Symbols.closeParen, .terminal, ")"⟩,
   ⟨Symbols.times, .terminal, "*"⟩,
   ⟨Symbols.divide, .terminal, "/"⟩,
   ⟨Symbols.plus, .terminal, "+"⟩,
   ⟨Symbols.error, .terminal, errorTerminal⟩,
   ⟨Symbols.number, .terminal, "Num"⟩,
   ⟨Symbols.expr, .nonterminal, "Expr"⟩,
   ⟨Symbols.factor, .nonterminal, "Factor"⟩,
   ⟨Symbols.term, .nonterminal, "Term"⟩]

/-- Digits, blanks, and each operator and parenthesis by itself. -/
def charSets : List CharSet :=
  [⟨0, .ofRange 48 57⟩,
   ⟨1, .ofList [32, 9, 13, 10]⟩,
   ⟨2, .ofList [43]⟩,
   ⟨3, .ofList [45]⟩,
   ⟨4, .ofList [42]⟩,
   ⟨5, .ofList [47]⟩,
   ⟨6, .ofList [40]⟩,
   ⟨7, .ofList [41]⟩]

/-- The lexical automaton. A slash and a star may each begin a comment mark. -/
def dfaStates : List DfaState :=
  [⟨0, none, [⟨0, 1⟩, ⟨1, 2⟩, ⟨2, 3⟩, ⟨3, 4⟩, ⟨4, 5⟩, ⟨5, 6⟩, ⟨6, 7⟩, ⟨7, 8⟩]⟩,
   ⟨1, some Symbols.number, [⟨0, 1⟩]⟩,
   ⟨2, some Symbols.whitespace, [⟨1, 2⟩]⟩,
   ⟨3, some Symbols.plus, []⟩,
   ⟨4, some Symbols.minus, []⟩,
   ⟨5, some Symbols.times, [⟨5, 9⟩]⟩,
   ⟨6, some Symbols.divide, [⟨4, 10⟩, ⟨5, 11⟩]⟩,
   ⟨7, some Symbols.openParen, []⟩,
   ⟨8, some Symbols.closeParen, []⟩,
   ⟨9, some Symbols.commentEnd, []⟩,
   ⟨10, some Symbols.commentStart, []⟩,
   ⟨11, some Symbols.commentLine, []⟩]

/-- The rules of the calculator. -/
def rules : List Rule :=
  [⟨Rules.add, Symbols.expr, [Symbols.expr, Symbols.plus, Symbols.term]⟩,
   ⟨Rules.subtract, Symbols.expr, [Symbols.expr, Symbols.minus, Symbols.term]⟩,
   ⟨Rules.exprOfTerm, Symbols.expr, [Symbols.term]⟩,
   ⟨Rules.multiply, Symbols.term, [Symbols.term, Symbols.times, Symbols.factor]⟩,
   ⟨Rules.divide, Symbols.term, [Symbols.term, Symbols.divide, Symbols.factor]⟩,
   ⟨Rules.termOfFactor, Symbols.term, [Symbols.factor]⟩,
   ⟨Rules.number, Symbols.factor, [Symbols.number]⟩,
   ⟨Rules.parenthesized, Symbols.factor,
     [Symbols.openParen, Symbols.expr, Symbols.closeParen]⟩,
   ⟨Rules.negate, Symbols.factor, [Symbols.minus, Symbols.factor]⟩,
   ⟨Rules.error, Symbols.factor, [Symbols.error]⟩]

/-- The symbols that can follow an expression. -/
def afterExpr : List SymbolId :=
  [Symbols.endOfInput, Symbols.plus, Symbols.minus, Symbols.closeParen]

/-- The symbols that can follow a term or a factor. -/
def afterTerm : List SymbolId := afterExpr ++ [Symbols.times, Symbols.divide]

/-- Reduce by a rule on each of some symbols. -/
def reduceOn (lookaheads : List SymbolId) (rule : RuleId) : List ActionEntry :=
  lookaheads.map fun symbol => ⟨symbol, .reduce rule⟩

/-- The shifts of every state in which a factor can begin. -/
def factorShifts : List ActionEntry :=
  [⟨Symbols.number, .shift 4⟩, ⟨Symbols.openParen, .shift 5⟩, ⟨Symbols.minus, .shift 6⟩,
   ⟨Symbols.error, .shift 7⟩]

/-- The shifts of every state in which a term can be extended. -/
def termShifts : List ActionEntry :=
  [⟨Symbols.times, .shift 10⟩, ⟨Symbols.divide, .shift 11⟩]

/-- The shifts of every state in which an expression can be extended. -/
def exprShifts : List ActionEntry :=
  [⟨Symbols.plus, .shift 8⟩, ⟨Symbols.minus, .shift 9⟩]

/-- The parsing automaton. -/
def lalrStates : List LalrState :=
  [⟨0, factorShifts
      ++ [⟨Symbols.expr, .goto 1⟩, ⟨Symbols.term, .goto 2⟩, ⟨Symbols.factor, .goto 3⟩]⟩,
   ⟨1, ⟨Symbols.endOfInput, .accept⟩ :: exprShifts⟩,
   ⟨2, termShifts ++ reduceOn afterExpr Rules.exprOfTerm⟩,
   ⟨3, reduceOn afterTerm Rules.termOfFactor⟩,
   ⟨4, reduceOn afterTerm Rules.number⟩,
   ⟨5, factorShifts
      ++ [⟨Symbols.expr, .goto 12⟩, ⟨Symbols.term, .goto 2⟩, ⟨Symbols.factor, .goto 3⟩]⟩,
   ⟨6, factorShifts ++ [⟨Symbols.factor, .goto 13⟩]⟩,
   ⟨7, reduceOn afterTerm Rules.error⟩,
   ⟨8, factorShifts ++ [⟨Symbols.term, .goto 14⟩, ⟨Symbols.factor, .goto 3⟩]⟩,
   ⟨9, factorShifts ++ [⟨Symbols.term, .goto 15⟩, ⟨Symbols.factor, .goto 3⟩]⟩,
   ⟨10, factorShifts ++ [⟨Symbols.factor, .goto 16⟩]⟩,
   ⟨11, factorShifts ++ [⟨Symbols.factor, .goto 17⟩]⟩,
   ⟨12, ⟨Symbols.closeParen, .shift 18⟩ :: exprShifts⟩,
   ⟨13, reduceOn afterTerm Rules.negate⟩,
   ⟨14, termShifts ++ reduceOn afterExpr Rules.add⟩,
   ⟨15, termShifts ++ reduceOn afterExpr Rules.subtract⟩,
   ⟨16, reduceOn afterTerm Rules.multiply⟩,
   ⟨17, reduceOn afterTerm Rules.divide⟩,
   ⟨18, reduceOn afterTerm Rules.parenthesized⟩]

/-- The tables of the calculator. -/
def tables : Tables where
  symbols := symbols.toArray
  charSets := charSets.toArray
  dfaStates := dfaStates.toArray
  lalrStates := lalrStates.toArray
  rules := rules.toArray
  startSymbol := Symbols.expr
  dfaInitial := 0
  lalrInitial := 0

end TableDriven.Calculator
