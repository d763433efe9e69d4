import Mathlib.Algebra.Ring.Int.Defs
import TableDriven.Proofs.Calculator.Decimal
import TableDriven.Proofs.Calculator.Lexemes
import TableDriven.Proofs.Calculator.Trimmed

/-!
# Printed expressions have their values

An expression is printed with one blank between its lexemes and with parentheses only around
operands that would otherwise be read apart. Its lexemes then hang below a derivation tree that
is built as the expression is: a sum or difference stands for an expression, a product or
quotient for a term, and everything else for a factor. The tree has the value of the expression,
faults included, and so has the printed text.
-/

namespace TableDriven.Calculator

/-- An arithmetic expression. -/
inductive Expression where
  | natural (value : Nat)
  | negation (operand : Expression)
  | binary (operator : Operator) (left right : Expression)

/-- Whether an operator makes sums or differences. -/
def Operator.isAdditive : Operator → Bool
  | .add => true
  | .subtract => true
  | .multiply => false
  | .divide => false

/-- The result if 64 bits with a sign hold it; everything stands on the first line. -/
def bounded (value : Int) : Except CalculatorError Int :=
  if -2 ^ 63 ≤ value ∧ value ≤ 2 ^ 63 - 1 then .ok value else .error (.overflow 1)

/-- The value of a literal if 64 bits with a sign hold it. -/
def literal (value : Nat) : Except CalculatorError Int :=
  if (value : Int) ≤ 2 ^ 63 - 1 then .ok value else .error (.literal .tooLarge)

/-- What an operator makes of two values. Division drops the fraction. -/
def Operator.result (operator : Operator) (left right : Int) : Except CalculatorError Int :=
  match operator with
  | .add => bounded (left + right)
  | .subtract => bounded (left - right)
  | .multiply => bounded (left * right)
  | .divide => if right = 0 then .error (.divisionByZero 1) else bounded (left.tdiv right)

namespace Expression

/-- Whether an expression is a sum or a difference. -/
def isSum : Expression → Bool
  | natural _ => false
  | negation _ => false
  | binary operator _ _ => operator.isAdditive

/-- Whether an expression is a binary operation. -/
def isBinary : Expression → Bool
  | natural _ => false
  | negation _ => false
  | binary _ _ _ => true

/-- Lexemes in parentheses if these are needed. -/
def wrapped (needed : Bool) (lexemes : List Lexeme) : List Lexeme :=
  if needed then .openParen :: (lexemes ++ [.closeParen]) else lexemes

/-- The lexemes of an expression. -/
def lexemes : Expression → List Lexeme
  | natural value => [.number value]
  | negation operand => .sign .subtract :: wrapped operand.isBinary operand.lexemes
  | binary operator left right =>
    wrapped (!operator.isAdditive && left.isSum) left.lexemes ++
      .sign operator ::
        wrapped (if operator.isAdditive then right.isSum else right.isBinary) right.lexemes

/-- The text of an expression. -/
def text (expression : Expression) : String := Lexeme.join expression.lexemes

/-- The value of an expression, left operands before right ones. -/
def result : Expression → Except CalculatorError Int
  | natural value => literal value
  | negation operand => operand.result.bind fun value => bounded (-value)
  | binary operator left right =>
    left.result.bind fun first => right.result.bind fun second => operator.result first second

end Expression

/-- Results are bounded as the calculator checks them on the first line. -/
theorem checked_eq_bounded (value : Int) : checked 1 value = bounded value := by
  have bounds : (leastInt ≤ value ∧ value ≤ greatestInt) ↔
      (-2 ^ 63 ≤ value ∧ value ≤ 2 ^ 63 - 1) := Iff.rfl
  unfold checked inRange? bounded
  by_cases inside : leastInt ≤ value ∧ value ≤ greatestInt
  · rw [if_pos inside, if_pos (bounds.mp inside)]
  · rw [if_neg inside, if_neg fun other => inside (bounds.mpr other)]

/-- Operators are applied as on the first line. -/
theorem Operator.apply_eq_result (operator : Operator) (left right : Int) :
    operator.apply 1 left right = operator.result left right := by
  cases operator with
  | add => exact checked_eq_bounded _
  | subtract => exact checked_eq_bounded _
  | multiply => exact checked_eq_bounded _
  | divide =>
    by_cases zero : right = 0
    · simp only [apply, result, if_pos zero]
    · simp only [apply, result, if_neg zero]
      exact checked_eq_bounded _

/-- Lexemes stand for a symbol and have a value: they hang below a tree of the symbol that has
this value. -/
def Stand (symbol : SymbolId) (lexemes : List Lexeme) (result : Except CalculatorError Int) :
    Prop :=
  ∃ tree, Derivation grammar [symbol] (lexemes.map Lexeme.token) [tree] ∧ tree.label.line = 1 ∧
    valueOf tree = result

namespace Stand

variable {symbol : SymbolId} {lexemes others : List Lexeme} {result : Except CalculatorError Int}

/-- Lexemes below the body of a rule stand for its head. -/
theorem of_rule {rule : Rule} {head : Symbol} {first : Node} {rest : List Node}
    (member : rule ∈ rules) (named : grammar.symbol rule.head = .ok head)
    (body : Derivation grammar rule.body (lexemes.map Lexeme.token) (first :: rest))
    (line : first.label.line = 1) :
    Stand rule.head lexemes
      (branchValue ⟨rule.id, head.name, 1, none⟩ (valuesOf (first :: rest))) := by
  have branch := Derivation.branch rule.id rule head (rule_of_mem rule member) named body .nil
  rw [List.append_nil, line] at branch
  exact ⟨_, branch, rfl, valueOf_branch _ _ _ _⟩

/-- The lexeme of a sign is the leaf of its token. -/
theorem sign (lexeme : Lexeme) :
    Derivation grammar [lexeme.symbol.id] [lexeme.token] [lexeme.token.leaf] :=
  .leaf lexeme.token .nil

/-- A number is a factor. -/
theorem number (value : Nat) :
    Stand Symbols.factor [.number value] (literal value) := by
  have bound : (value : Int) ≤ greatestInt ↔ (value : Int) ≤ 2 ^ 63 - 1 := Iff.rfl
  have read : (readLiteral (toString value)).mapError CalculatorError.literal =
      literal value := by
    rw [readLiteral_toString, literal]
    by_cases small : (value : Int) ≤ greatestInt
    · rw [if_pos small, if_pos (bound.mp small)]
      rfl
    · rw [if_neg small, if_neg fun other => small (bound.mpr other)]
      rfl
  have member : (⟨Rules.number, Symbols.factor, [Symbols.number]⟩ : Rule) ∈ rules := by decide
  have body : Derivation grammar [Symbols.number] ([Lexeme.number value].map Lexeme.token)
      [(Lexeme.number value).token.leaf] := sign (.number value)
  rw [← read]
  exact of_rule member rfl body rfl

/-- A factor is a term. -/
theorem term (stand : Stand Symbols.factor lexemes result) : Stand Symbols.term lexemes result := by
  obtain ⟨tree, derived, line, rfl⟩ := stand
  have member : (⟨Rules.termOfFactor, Symbols.term, [Symbols.factor]⟩ : Rule) ∈ rules := by decide
  exact of_rule member rfl derived line

/-- A term is an expression. -/
theorem expr (stand : Stand Symbols.term lexemes result) : Stand Symbols.expr lexemes result := by
  obtain ⟨tree, derived, line, rfl⟩ := stand
  have member : (⟨Rules.exprOfTerm, Symbols.expr, [Symbols.term]⟩ : Rule) ∈ rules := by decide
  exact of_rule member rfl derived line

/-- An expression in parentheses is a factor of the same value. -/
theorem parenthesized (stand : Stand Symbols.expr lexemes result) :
    Stand Symbols.factor (.openParen :: (lexemes ++ [.closeParen])) result := by
  obtain ⟨tree, derived, -, rfl⟩ := stand
  have member : (⟨Rules.parenthesized, Symbols.factor,
      [Symbols.openParen, Symbols.expr, Symbols.closeParen]⟩ : Rule) ∈ rules := by
    decide
  have body : Derivation grammar [Symbols.openParen, Symbols.expr, Symbols.closeParen]
      ((.openParen :: (lexemes ++ [.closeParen])).map Lexeme.token)
      [Lexeme.openParen.token.leaf, tree, Lexeme.closeParen.token.leaf] := by
    rw [List.map_cons, List.map_append]
    exact .leaf Lexeme.openParen.token (derived.append (sign .closeParen))
  exact of_rule member rfl body rfl

/-- A factor behind a minus sign is a factor of the negated value. -/
theorem negation (stand : Stand Symbols.factor lexemes result) :
    Stand Symbols.factor (.sign .subtract :: lexemes)
      (result.bind fun value => bounded (-value)) := by
  obtain ⟨tree, derived, -, rfl⟩ := stand
  have member : (⟨Rules.negate, Symbols.factor, [Symbols.minus, Symbols.factor]⟩ : Rule) ∈
      rules := by
    decide
  have body : Derivation grammar [Symbols.minus, Symbols.factor]
      ((.sign .subtract :: lexemes).map Lexeme.token)
      [(Lexeme.sign .subtract).token.leaf, tree] := .leaf (Lexeme.sign .subtract).token derived
  have negated := of_rule member rfl body rfl
  simp only [← checked_eq_bounded]
  exact negated

end Stand

/-- The rule of an operator. -/
def Operator.rule : Operator → Rule
  | .add => ⟨Rules.add, Symbols.expr, [Symbols.expr, Symbols.plus, Symbols.term]⟩
  | .subtract => ⟨Rules.subtract, Symbols.expr, [Symbols.expr, Symbols.minus, Symbols.term]⟩
  | .multiply => ⟨Rules.multiply, Symbols.term, [Symbols.term, Symbols.times, Symbols.factor]⟩
  | .divide => ⟨Rules.divide, Symbols.term, [Symbols.term, Symbols.divide, Symbols.factor]⟩

/-- The symbol that the results of an operator stand for, as do its left operands. -/
def Operator.head (operator : Operator) : SymbolId :=
  if operator.isAdditive then Symbols.expr else Symbols.term

/-- The symbol that the right operands of an operator stand for. -/
def Operator.inner (operator : Operator) : SymbolId :=
  if operator.isAdditive then Symbols.term else Symbols.factor

/-- An operator between operands stands for its head and has their result. -/
theorem Stand.binary {left right : List Lexeme} {first second : Except CalculatorError Int}
    (operator : Operator) (before : Stand operator.head left first)
    (after : Stand operator.inner right second) :
    Stand operator.head (left ++ .sign operator :: right)
      (first.bind fun first => second.bind fun second => operator.result first second) := by
  obtain ⟨tree, derived, line, rfl⟩ := before
  obtain ⟨other, below, -, rfl⟩ := after
  have body : Derivation grammar [operator.head, (Lexeme.sign operator).symbol.id, operator.inner]
      ((left ++ .sign operator :: right).map Lexeme.token)
      [tree, (Lexeme.sign operator).token.leaf, other] := by
    rw [List.map_append, List.map_cons]
    exact derived.append (.leaf (Lexeme.sign operator).token below)
  simp only [← Operator.apply_eq_result]
  cases operator with
  | add => exact of_rule (by decide : Operator.rule .add ∈ rules) rfl body line
  | subtract => exact of_rule (by decide : Operator.rule .subtract ∈ rules) rfl body line
  | multiply => exact of_rule (by decide : Operator.rule .multiply ∈ rules) rfl body line
  | divide => exact of_rule (by decide : Operator.rule .divide ∈ rules) rfl body line

namespace Expression

/-- The symbol that an expression stands for. -/
def symbol : Expression → SymbolId
  | natural _ => Symbols.factor
  | negation _ => Symbols.factor
  | binary operator _ _ => operator.head

variable {expression : Expression}

/-- Every expression is one. -/
theorem stand_expr (own : Stand expression.symbol expression.lexemes expression.result) :
    Stand Symbols.expr expression.lexemes expression.result := by
  cases expression with
  | natural value => exact own.term.expr
  | negation operand => exact own.term.expr
  | binary operator left right =>
    cases operator with
    | add => exact own
    | subtract => exact own
    | multiply => exact own.expr
    | divide => exact own.expr

/-- With parentheses around sums and differences every expression is a term. -/
theorem stand_term (own : Stand expression.symbol expression.lexemes expression.result) :
    Stand Symbols.term (wrapped expression.isSum expression.lexemes) expression.result := by
  cases expression with
  | natural value => exact own.term
  | negation operand => exact own.term
  | binary operator left right =>
    cases operator with
    | add => exact own.parenthesized.term
    | subtract => exact own.parenthesized.term
    | multiply => exact own
    | divide => exact own

/-- With parentheses around binary operations every expression is a factor. -/
theorem stand_factor (own : Stand expression.symbol expression.lexemes expression.result) :
    Stand Symbols.factor (wrapped expression.isBinary expression.lexemes) expression.result := by
  cases expression with
  | natural value => exact own
  | negation operand => exact own
  | binary operator left right => exact (stand_expr own).parenthesized

/-- The lexemes of an expression stand for its symbol and have its value. Induct on the
expression: its operands are put in parentheses where its rule asks for it. -/
theorem stand (expression : Expression) :
    Stand expression.symbol expression.lexemes expression.result := by
  induction expression with
  | natural value => exact .number value
  | negation operand own => exact (stand_factor own).negation
  | binary operator left right first second =>
    have before : Stand operator.head (wrapped (!operator.isAdditive && left.isSum) left.lexemes)
        left.result := by
      cases operator with
      | add => exact stand_expr first
      | subtract => exact stand_expr first
      | multiply => exact stand_term first
      | divide => exact stand_term first
    have after : Stand operator.inner
        (wrapped (if operator.isAdditive then right.isSum else right.isBinary) right.lexemes)
        right.result := by
      cases operator with
      | add => exact stand_term second
      | subtract => exact stand_term second
      | multiply => exact stand_factor second
      | divide => exact stand_factor second
    exact before.binary operator after

end Expression

/-- The text of an expression has the value of the expression, or fails as the expression
does. -/
theorem value_of_text (expression : Expression) :
    ∃ limit, value expression.text.toUTF8.data limit =
      match expression.result with
      | .ok value => .done value
      | .error error => .failed error := by
  obtain ⟨last, upcoming⟩ := Lexeme.upcoming_join expression.lexemes
  obtain ⟨tree, derived, -, valued⟩ := Expression.stand_expr expression.stand
  obtain ⟨limit, parsed⟩ := (Parser.parse_eq_done_iff (Parser.ofGrammar grammar) exact_grammar rfl
    upcoming tree).mpr ⟨⟨last, rfl⟩, derived⟩
  have trimmed : parse expression.text.toUTF8.data ⟨true, false⟩ limit =
      .done (tree.collapse grammar) := by
    have outcome := (collapsed_parseWith expression.text.toUTF8.data false limit).outcome
    have full : (parseWith grammar expression.text.toUTF8.data ⟨false, false⟩ limit).outcome =
        .done tree := parsed
    rw [full] at outcome
    exact parse_eq_done.mpr outcome.eq_done
  refine ⟨limit, ?_⟩
  rw [value, trimmed, Outcome.andThen, evaluate_eq_valueOf, valueOf_collapse, valued]
  cases expression.result with
  | ok value => rfl
  | error error => rfl

/-- Parentheses stand around the sum on the right, but not around the product on the left. -/
example :
    (Expression.binary .subtract (.binary .multiply (.natural 2) (.natural 3))
      (.binary .add (.natural 4) (.negation (.natural 5)))).text = "2 * 3 - ( 4 + - 5 )" := by
  decide

end TableDriven.Calculator
