import TableDriven.Proofs.Calculator.Consistency
import TableDriven.Proofs.Calculator.Value
import TableDriven.Proofs.Parsing.TreeInvariant
import TableDriven.Proofs.Tree.Leaves

/-!
# Trees of operands

The trees that stand for expressions, terms and factors have the shape that evaluation
expects of an operand, with and without trimming. So no node of such a tree is refused:
its value is missing only because of a literal, an arithmetic fault, or an error that was
recovered from. The leaf of such an error is below a branch that has no value, and no
operand with such a leaf has one.
-/

namespace TableDriven.Calculator

/-- The leaf of a token that is not the error terminal. -/
def Sign (node : Node) : Prop :=
  ∃ id name line text, node = .leaf id name line text ∧ id ≠ Symbols.error

/-- A tree of the shape that evaluation expects of an operand. -/
inductive Operand : Node → Prop where
  | number (name : String) (line : Nat) (own : String) (row : Nat) (text : String) :
      Operand (.branch Rules.number name line [.leaf Symbols.number own row text])
  | recovered (name : String) (line : Nat) (children : List Node) :
      Operand (.branch Rules.error name line children)
  | binary (id : RuleId) (operator : Operator) (name : String) (line : Nat)
      {left sign right : Node} (form : Form.ofRule? id = some (.binary operator))
      (one : Operand left) (between : Sign sign) (other : Operand right) :
      Operand (.branch id name line [left, sign, right])
  | first (id : RuleId) (name : String) (line : Nat) {only : Node}
      (form : Form.ofRule? id = some .first) (one : Operand only) :
      Operand (.branch id name line [only])
  | second (id : RuleId) (name : String) (line : Nat) {before inner after : Node}
      (form : Form.ofRule? id = some .second) (opening : Sign before) (one : Operand inner)
      (closing : Sign after) : Operand (.branch id name line [before, inner, after])
  | negated (id : RuleId) (name : String) (line : Nat) {sign operand : Node}
      (form : Form.ofRule? id = some .negated) (before : Sign sign) (one : Operand operand) :
      Operand (.branch id name line [sign, operand])

/-- The heads of the rules. -/
abbrev IsHead (symbol : SymbolId) : Prop :=
  symbol = Symbols.expr ∨ symbol = Symbols.factor ∨ symbol = Symbols.term

/-- The terminals that stand between or before operands. -/
abbrev IsSign (symbol : SymbolId) : Prop := ¬ IsHead symbol ∧ symbol ≠ Symbols.error

/-- What stands for a symbol: an operand for the head of a rule, and otherwise the leaf of a
token. -/
def Fits (symbol : SymbolId) (node : Node) : Prop :=
  if IsHead symbol then Operand node
  else ∃ name line text, node = .leaf symbol name line text

namespace Fits

variable {symbol : SymbolId} {node : Node}

/-- What stands for the head of a rule is an operand. -/
theorem operand (fits : Fits symbol node) (head : IsHead symbol) : Operand node := by
  rw [Fits, if_pos head] at fits
  exact fits

/-- An operand stands for the head of any rule. -/
theorem of_operand (operand : Operand node) (head : IsHead symbol) : Fits symbol node := by
  rw [Fits, if_pos head]
  exact operand

/-- What stands for another symbol is a leaf. -/
theorem leaf (fits : Fits symbol node) (terminal : ¬ IsHead symbol) :
    ∃ name line text, node = .leaf symbol name line text := by
  rw [Fits, if_neg terminal] at fits
  exact fits

/-- What stands for a sign is the leaf of one. -/
theorem sign (fits : Fits symbol node) (sign : IsSign symbol) : Sign node := by
  obtain ⟨name, line, text, rfl⟩ := fits.leaf sign.1
  exact ⟨symbol, name, line, text, rfl, sign.2⟩

/-- The leaf of a token that is not a head stands for its symbol. -/
theorem of_token (token : Token) (terminal : ¬ IsHead token.symbol.id) :
    Fits token.symbol.id token.leaf := by
  rw [Fits, if_neg terminal]
  exact ⟨_, _, _, rfl⟩

end Fits

/-- A rule that is looked up is one of the ten rules and has its number. -/
theorem mem_of_rule {id : RuleId} {rule : Rule} (looked : grammar.rule id = .ok rule) :
    rule ∈ rules ∧ rule.id = id := by
  have placed := (Grammar.entry_eq_ok _ _ _ _).mp looked
  exact ⟨List.mem_toArray.mp (Array.mem_of_getElem? placed),
    wellFormed_tables.rulesPlaced id rule placed⟩

/-- A symbol that is looked up is one of the symbols and has its number. -/
theorem mem_of_symbol {id : SymbolId} {symbol : Symbol} (named : grammar.symbol id = .ok symbol) :
    symbol ∈ symbols ∧ symbol.id = id := by
  have placed := (Grammar.entry_eq_ok _ _ _ _).mp named
  exact ⟨List.mem_toArray.mp (Array.mem_of_getElem? placed),
    wellFormed_tables.symbolsPlaced id symbol placed⟩

/-- The nonterminals are the heads of the rules. -/
theorem head_of_nonterminal {id : SymbolId} {symbol : Symbol}
    (named : grammar.symbol id = .ok symbol) (kind : symbol.kind = .nonterminal) : IsHead id := by
  have heads : ∀ symbol ∈ symbols, symbol.kind = .nonterminal → IsHead symbol.id := by decide
  obtain ⟨member, rfl⟩ := mem_of_symbol named
  exact heads symbol member kind

/-- The rules can be looked up. -/
theorem rule_of_mem : ∀ rule ∈ rules, grammar.rule rule.id = .ok rule := by decide

/-- No rule has an empty body. -/
theorem body_ne_nil : ∀ rule ∈ rules, rule.body ≠ [] := by decide

/-- What the body of a rule has to be like for its form. -/
def Rule.Shaped (rule : Rule) : Prop :=
  match Form.ofRule? rule.id, rule.body with
  | some (.binary _), [left, sign, right] => IsHead left ∧ IsSign sign ∧ IsHead right
  | some .first, [only] => IsHead only ∨ (rule.id = Rules.number ∧ only = Symbols.number)
  | some .second, [before, inner, after] => IsSign before ∧ IsHead inner ∧ IsSign after
  | some .negated, [sign, operand] => IsSign sign ∧ IsHead operand
  | some .recovered, _ => rule.id = Rules.error
  | _, _ => False

/-- The bodies of all rules are like their forms, and all heads are heads. -/
theorem shaped_of_mem : ∀ rule ∈ rules, IsHead rule.head ∧ Rule.Shaped rule := by
  unfold Rule.Shaped
  simp only [rules, List.forall_mem_cons, List.not_mem_nil, false_implies, implies_true,
    and_true, Form.ofRule?]
  and_intros <;> decide

/-- The rules make operands of operands and signs. -/
theorem composes_fits : grammar.Composes Fits where
  branch id rule head line children looked named bodied forest := by
    obtain ⟨member, rfl⟩ := mem_of_rule looked
    obtain ⟨heads, shaped⟩ := shaped_of_mem rule member
    refine .of_operand ?_ heads
    unfold Rule.Shaped at shaped
    split at shaped
    · rename_i operator left sign right form body
      rw [body] at forest
      obtain ⟨one, _, first, more, rfl⟩ := List.forall₂_cons_left_iff.mp forest
      obtain ⟨between, _, second, others, rfl⟩ := List.forall₂_cons_left_iff.mp more
      obtain ⟨other, _, third, none, rfl⟩ := List.forall₂_cons_left_iff.mp others
      obtain rfl := List.forall₂_nil_left_iff.mp none
      exact .binary _ operator _ _ form (first.operand shaped.1) (second.sign shaped.2.1)
        (third.operand shaped.2.2)
    · rename_i only form body
      rw [body] at forest
      obtain ⟨one, _, first, more, rfl⟩ := List.forall₂_cons_left_iff.mp forest
      obtain rfl := List.forall₂_nil_left_iff.mp more
      rcases shaped with operand | ⟨numbered, rfl⟩
      · exact .first _ _ _ form (first.operand operand)
      · obtain ⟨own, row, text, rfl⟩ := first.leaf (by decide)
        rw [numbered]
        exact .number _ _ own row text
    · rename_i before inner after form body
      rw [body] at forest
      obtain ⟨opening, _, first, more, rfl⟩ := List.forall₂_cons_left_iff.mp forest
      obtain ⟨one, _, second, others, rfl⟩ := List.forall₂_cons_left_iff.mp more
      obtain ⟨closing, _, third, none, rfl⟩ := List.forall₂_cons_left_iff.mp others
      obtain rfl := List.forall₂_nil_left_iff.mp none
      exact .second _ _ _ form (first.sign shaped.1) (second.operand shaped.2.1)
        (third.sign shaped.2.2)
    · rename_i sign operand form body
      rw [body] at forest
      obtain ⟨before, _, first, more, rfl⟩ := List.forall₂_cons_left_iff.mp forest
      obtain ⟨one, _, second, others, rfl⟩ := List.forall₂_cons_left_iff.mp more
      obtain rfl := List.forall₂_nil_left_iff.mp others
      exact .negated _ _ _ form (first.sign shaped.1) (second.operand shaped.2)
    · rw [shaped]
      exact .recovered _ _ _
    · contradiction
  unit id rule only symbol child looked single named kind fits := by
    obtain ⟨heads, -⟩ := shaped_of_mem rule (mem_of_rule looked).1
    exact .of_operand (fits.operand (head_of_nonterminal named kind)) heads
  empty id rule head line name text looked named bodiless := by
    exact absurd bodiless (body_ne_nil rule (mem_of_rule looked).1)

/-- Whether a tree has a leaf of the error terminal. -/
def HasError (node : Node) : Prop := ∃ label ∈ node.leafLabels, label.id = Symbols.error

/-- A sign is not the error terminal. -/
theorem Sign.not_hasError {node : Node} (sign : Sign node) : ¬ HasError node := by
  obtain ⟨id, name, line, text, rfl, ordinary⟩ := sign
  rintro ⟨label, member, same⟩
  rw [Node.leafLabels_leaf] at member
  obtain rfl := List.mem_singleton.mp member
  exact ordinary same

/-- A branch has an error if one of its children has. -/
theorem hasError_branch (id : RuleId) (name : String) (line : Nat) (children : List Node) :
    HasError (.branch id name line children) ↔ ∃ child ∈ children, HasError child := by
  unfold HasError Node.branch
  rw [Node.leafLabels_of_none rfl]
  simp only [List.mem_flatMap]
  constructor
  · rintro ⟨label, ⟨child, member, among⟩, same⟩
    exact ⟨child, member, label, among, same⟩
  · rintro ⟨child, member, label, among, same⟩
    exact ⟨label, ⟨child, member, among⟩, same⟩

/-- What can be at fault in an expression: a literal, its arithmetic, or an error that was
recovered from. -/
inductive CalculatorError.IsFault : CalculatorError → Prop where
  | literal (error : LiteralError) : IsFault (.literal error)
  | divisionByZero (line : Nat) : IsFault (.divisionByZero line)
  | overflow (line : Nat) : IsFault (.overflow line)
  | recovered (line : Nat) : IsFault (.recovered line)

/-- A value out of range is a fault. -/
theorem isFault_of_checked {row : Nat} {value : Int} {error : CalculatorError}
    (failed : checked row value = .error error) : error.IsFault := by
  unfold checked at failed
  split at failed
  · contradiction
  · obtain rfl := Except.error.inj failed
    exact .overflow row

/-- An operator fails over a fault. -/
theorem Operator.isFault_of_apply {operator : Operator} {row : Nat} {left right : Int}
    {error : CalculatorError} (failed : operator.apply row left right = .error error) :
    error.IsFault := by
  cases operator with
  | add => exact isFault_of_checked failed
  | subtract => exact isFault_of_checked failed
  | multiply => exact isFault_of_checked failed
  | divide =>
    unfold Operator.apply at failed
    by_cases zero : right = 0
    · simp only [zero, if_true] at failed
      obtain rfl := Except.error.inj failed
      exact .divisionByZero row
    · simp only [zero, if_false] at failed
      exact isFault_of_checked failed

namespace Operand

variable {node : Node}

/-- An operand with an error has no value. Induct on its shape: the error is in an operand
of it, or it is what was recovered from. -/
theorem value_of_hasError (operand : Operand node) (faulty : HasError node) :
    ∃ error, valueOf node = .error error := by
  induction operand with
  | number name line own row text =>
    obtain ⟨child, member, inside⟩ := (hasError_branch _ _ _ _).mp faulty
    obtain rfl := List.mem_singleton.mp member
    exact absurd inside (Sign.not_hasError ⟨_, own, row, text, rfl, by decide⟩)
  | recovered name line children => exact ⟨.recovered line, valueOf_branch _ _ _ _⟩
  | @binary id operator name line left sign right form one between other first second =>
    obtain ⟨child, member, inside⟩ := (hasError_branch _ _ _ _).mp faulty
    rw [valueOf_branch]
    simp only [branchValue, form, valuesOf]
    simp only [List.mem_cons, List.not_mem_nil, or_false] at member
    rcases member with rfl | rfl | rfl
    · obtain ⟨error, missing⟩ := first inside
      exact ⟨error, by rw [missing]; rfl⟩
    · exact absurd inside between.not_hasError
    · obtain ⟨error, missing⟩ := second inside
      cases valueOf left with
      | error earlier => exact ⟨earlier, rfl⟩
      | ok value => exact ⟨error, by rw [missing]; rfl⟩
  | @first id name line only form one inductionHypothesis =>
    obtain ⟨child, member, inside⟩ := (hasError_branch _ _ _ _).mp faulty
    obtain rfl := List.mem_singleton.mp member
    obtain ⟨error, missing⟩ := inductionHypothesis inside
    rw [valueOf_branch]
    simp only [branchValue, form, valuesOf]
    exact ⟨error, missing⟩
  | @second id name line before inner after form opening one closing inductionHypothesis =>
    obtain ⟨child, member, inside⟩ := (hasError_branch _ _ _ _).mp faulty
    rw [valueOf_branch]
    simp only [branchValue, form, valuesOf]
    simp only [List.mem_cons, List.not_mem_nil, or_false] at member
    rcases member with rfl | rfl | rfl
    · exact absurd inside opening.not_hasError
    · exact inductionHypothesis inside
    · exact absurd inside closing.not_hasError
  | @negated id name line sign operand form before one inductionHypothesis =>
    obtain ⟨child, member, inside⟩ := (hasError_branch _ _ _ _).mp faulty
    rw [valueOf_branch]
    simp only [branchValue, form, valuesOf]
    simp only [List.mem_cons, List.not_mem_nil, or_false] at member
    rcases member with rfl | rfl
    · exact absurd inside before.not_hasError
    · obtain ⟨error, missing⟩ := inductionHypothesis inside
      exact ⟨error, by rw [missing]; rfl⟩

/-- An operand lacks a value only because of a fault. Induct on its shape: the fault is in an
operand of it, or in what it makes of their values. -/
theorem isFault (operand : Operand node) {error : CalculatorError}
    (failed : valueOf node = .error error) : error.IsFault := by
  induction operand generalizing error with
  | number name line own row text =>
    rw [valueOf_branch] at failed
    simp only [branchValue, Form.ofRule?, valuesOf, valueOf_leaf, tokenValue, if_true] at failed
    cases read : readLiteral text with
    | error fault =>
      rw [read] at failed
      obtain rfl := Except.error.inj failed
      exact .literal fault
    | ok value => simp [read, Except.mapError] at failed
  | recovered name line children =>
    rw [valueOf_branch] at failed
    obtain rfl := Except.error.inj failed
    exact .recovered line
  | @binary id operator name line left sign right form one between other first second =>
    rw [valueOf_branch] at failed
    simp only [branchValue, form, valuesOf] at failed
    cases leftValue : valueOf left with
    | error fault =>
      rw [leftValue] at failed
      obtain rfl := Except.error.inj failed
      exact first leftValue
    | ok one =>
      cases rightValue : valueOf right with
      | error fault =>
        rw [leftValue, rightValue] at failed
        obtain rfl := Except.error.inj failed
        exact second rightValue
      | ok other =>
        rw [leftValue, rightValue] at failed
        exact Operator.isFault_of_apply failed
  | @first id name line only form one inductionHypothesis =>
    rw [valueOf_branch] at failed
    simp only [branchValue, form, valuesOf] at failed
    exact inductionHypothesis failed
  | @second id name line before inner after form opening one closing inductionHypothesis =>
    rw [valueOf_branch] at failed
    simp only [branchValue, form, valuesOf] at failed
    exact inductionHypothesis failed
  | @negated id name line sign operand form before one inductionHypothesis =>
    rw [valueOf_branch] at failed
    simp only [branchValue, form, valuesOf] at failed
    cases found : valueOf operand with
    | error fault =>
      rw [found] at failed
      obtain rfl := Except.error.inj failed
      exact inductionHypothesis found
    | ok value =>
      rw [found] at failed
      exact isFault_of_checked failed

/-- No node of an operand is refused. -/
theorem value_ne_unexpected (operand : Operand node) (name : String) (line : Nat) :
    valueOf node ≠ .error (.unexpectedNode name line) := by
  intro refused
  cases operand.isFault refused

end Operand

end TableDriven.Calculator
