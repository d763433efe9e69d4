import TableDriven.Proofs.Calculator.Consistency
import TableDriven.Proofs.Parsing.Exactness

/-!
# The calculator's tables have a certificate

For each parsing state of the calculator, what it has yet to read of each rule that
has been begun, and for each symbol the symbols that its tokens can begin with. The
tables list the same actions for a rule wherever it is reduced, so what may come
next after a body depends on the head alone.
-/

namespace TableDriven.Calculator

/-- The symbols that can follow the head of a rule. -/
def after (head : SymbolId) : List SymbolId :=
  if head = Symbols.expr then afterExpr else afterTerm

/-- A rule of which some symbols are left to read. -/
def reading (rule : Rule) (left : List SymbolId) : Item := ⟨left, after rule.head, .reduce rule.id⟩

/-- The rules with one of some heads, of which all is left to read. -/
def begun (heads : List SymbolId) : List Item :=
  (rules.filter fun rule => rule.head ∈ heads).map fun rule => reading rule rule.body

/-- The rule at a position, of which some symbols are left to read. -/
def within (id : RuleId) (left : List SymbolId) : List Item :=
  rules[id]?.toList.map fun rule => reading rule left

/-- A product or a quotient of which the first operand has been read. -/
def termRead : List Item :=
  within Rules.multiply [Symbols.times, Symbols.factor]
    ++ within Rules.divide [Symbols.divide, Symbols.factor]

/-- A sum or a difference of which the first operand has been read. -/
def exprRead : List Item :=
  within Rules.add [Symbols.plus, Symbols.term]
    ++ within Rules.subtract [Symbols.minus, Symbols.term]

/-- What is left to read in a parsing state. -/
def items (state : LalrStateId) : List Item :=
  [⟨[Symbols.expr], [Symbols.endOfInput], .accept⟩
      :: begun [Symbols.expr, Symbols.term, Symbols.factor],
   ⟨[], [Symbols.endOfInput], .accept⟩ :: exprRead,
   within Rules.exprOfTerm [] ++ termRead,
   within Rules.termOfFactor [],
   within Rules.number [],
   within Rules.parenthesized [Symbols.expr, Symbols.closeParen]
      ++ begun [Symbols.expr, Symbols.term, Symbols.factor],
   within Rules.negate [Symbols.factor] ++ begun [Symbols.factor],
   within Rules.error [],
   within Rules.add [Symbols.term] ++ begun [Symbols.term, Symbols.factor],
   within Rules.subtract [Symbols.term] ++ begun [Symbols.term, Symbols.factor],
   within Rules.multiply [Symbols.factor] ++ begun [Symbols.factor],
   within Rules.divide [Symbols.factor] ++ begun [Symbols.factor],
   within Rules.parenthesized [Symbols.closeParen] ++ exprRead,
   within Rules.negate [],
   within Rules.add [] ++ termRead,
   within Rules.subtract [] ++ termRead,
   within Rules.multiply [],
   within Rules.divide [],
   within Rules.parenthesized []].getD state []

/-- What the tokens of a factor can begin with, if they are not a token by themselves. -/
def factorFirst : List SymbolId :=
  [Symbols.number, Symbols.openParen, Symbols.minus, Symbols.error]

/-- What the tokens of a symbol can begin with: the symbol itself, or what a smaller
part can begin with that stands first in it. -/
def first (symbol : SymbolId) : List SymbolId :=
  symbol ::
    if symbol = Symbols.expr then Symbols.term :: Symbols.factor :: factorFirst
    else if symbol = Symbols.term then Symbols.factor :: factorFirst
    else if symbol = Symbols.factor then factorFirst
    else []

/-- The certificate of the calculator. -/
def certificate : Certificate := ⟨items, first⟩

/-- The certificate describes the calculator's tables. -/
theorem holds_certificate : certificate.Holds grammar where
  own symbol := List.mem_cons_self
  bodies := by
    have listed : ∀ rule ∈ rules, rule.body ≠ [] ∧ ∀ symbol ∈ rule.body.head?,
        ∀ next ∈ certificate.first symbol, next ∈ certificate.first rule.head := by
      decide
    intro rule member
    exact listed rule (List.mem_toArray.mp member)
  items := by
    have listed : ∀ state ∈ List.range 19, ∀ item ∈ items state,
        certificate.Keeps grammar state item := by
      decide
    intro state item member
    by_cases inside : state < 19
    · exact listed state (List.mem_range.mpr inside) item member
    · have nothing : certificate.items state = [] := by
        change List.getD _ state [] = []
        rw [List.getD_eq_getElem?_getD, List.getElem?_eq_none (Nat.le_of_not_lt inside)]
        rfl
      rw [nothing] at member
      contradiction
  start := by decide

end TableDriven.Calculator
