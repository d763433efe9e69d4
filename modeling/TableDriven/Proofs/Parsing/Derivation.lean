import Mathlib.Logic.Relation
import TableDriven.Parsing.Automaton
import TableDriven.Proofs.Grammar.WellFormed

/-!
# Derivations

A form, a list of symbols, derives a list of tokens in the usual sense: symbols
are replaced by the bodies of rules that they head until only the symbols of the
tokens are left. A derivation forest records how: for every symbol of the form
one tree, a leaf for a symbol that is the token's own, and otherwise a branch for
the rule by which it was replaced, above the trees of the rule's body. A branch is
numbered by its rule, named after the rule's head, and stands on the line of its
first child. Nothing is below a rule with an empty body, so its branch gets a
single leaf that only marks a place.

A form derives the symbols of some tokens exactly if there is a forest above
them.
-/

namespace TableDriven

/-- One tree above the tokens for each symbol of a form. -/
inductive Derivation (grammar : Grammar) : List SymbolId → List Token → List Node → Prop where
  | nil : Derivation grammar [] [] []
  | leaf (token : Token) {form : List SymbolId} {tokens : List Token} {forest : List Node}
      (others : Derivation grammar form tokens forest) :
      Derivation grammar (token.symbol.id :: form) (token :: tokens) (token.leaf :: forest)
  | branch (id : RuleId) (rule : Rule) (head : Symbol) {form : List SymbolId}
      {below tokens : List Token} {first : Node} {rest forest : List Node}
      (looked : grammar.rule id = .ok rule) (named : grammar.symbol rule.head = .ok head)
      (body : Derivation grammar rule.body below (first :: rest))
      (others : Derivation grammar form tokens forest) :
      Derivation grammar (rule.head :: form) (below ++ tokens)
        (Node.branch id head.name first.label.line (first :: rest) :: forest)
  | empty (id : RuleId) (rule : Rule) (head : Symbol) (name : String) (line : Nat)
      (text : String) {form : List SymbolId} {tokens : List Token} {forest : List Node}
      (looked : grammar.rule id = .ok rule) (named : grammar.symbol rule.head = .ok head)
      (bodiless : rule.body = [])
      (others : Derivation grammar form tokens forest) :
      Derivation grammar (rule.head :: form) tokens
        (Node.branch id head.name line [Node.leaf 0 name line text] :: forest)

namespace Derivation

variable {grammar : Grammar} {form left right : List SymbolId} {tokens before after : List Token}
  {forest trees others : List Node}

/-- There is one tree for each symbol. -/
theorem length_eq (derived : Derivation grammar form tokens forest) :
    forest.length = form.length := by
  induction derived with
  | nil => rfl
  | leaf _ _ inductionHypothesis => simp [inductionHypothesis]
  | branch _ _ _ _ _ _ _ _ inductionHypothesis => simp [inductionHypothesis]
  | empty _ _ _ _ _ _ _ _ _ _ inductionHypothesis => simp [inductionHypothesis]

/-- Forests side by side are a forest. -/
theorem append (derived : Derivation grammar left before trees)
    (next : Derivation grammar right after others) :
    Derivation grammar (left ++ right) (before ++ after) (trees ++ others) := by
  induction derived with
  | nil => exact next
  | leaf token _ inductionHypothesis => exact .leaf token inductionHypothesis
  | branch id rule head looked named body _ _ inductionHypothesis =>
    rw [List.append_assoc]
    exact .branch id rule head looked named body inductionHypothesis
  | empty id rule head name line text looked named bodiless _ inductionHypothesis =>
    exact .empty id rule head name line text looked named bodiless inductionHypothesis

/-- A forest for a form in two parts is two forests side by side. -/
theorem split (derived : Derivation grammar (left ++ right) tokens forest) :
    ∃ before after trees others, tokens = before ++ after ∧ forest = trees ++ others ∧
      Derivation grammar left before trees ∧ Derivation grammar right after others := by
  generalize whole : left ++ right = form at derived
  induction derived generalizing left with
  | nil =>
    obtain ⟨rfl, rfl⟩ := List.append_eq_nil_iff.mp whole
    exact ⟨[], [], [], [], rfl, rfl, .nil, .nil⟩
  | @leaf token form tokens forest derived inductionHypothesis =>
    cases left with
    | nil =>
      obtain rfl : right = token.symbol.id :: form := whole
      exact ⟨[], _, [], _, rfl, rfl, .nil, .leaf token derived⟩
    | cons symbol left =>
      obtain ⟨rfl, rest⟩ := List.cons.inj whole
      obtain ⟨before, after, trees, others, rfl, rfl, one, two⟩ := inductionHypothesis rest
      exact ⟨token :: before, after, token.leaf :: trees, others, rfl, rfl, .leaf token one, two⟩
  | @branch id rule head form below tokens first rest forest looked named body derived _
      inductionHypothesis =>
    cases left with
    | nil =>
      obtain rfl : right = rule.head :: form := whole
      exact ⟨[], _, [], _, rfl, rfl, .nil, .branch id rule head looked named body derived⟩
    | cons symbol left =>
      obtain ⟨rfl, remaining⟩ := List.cons.inj whole
      obtain ⟨before, after, trees, others, rfl, rfl, one, two⟩ := inductionHypothesis remaining
      exact ⟨below ++ before, after, _ :: trees, others, (List.append_assoc _ _ _).symm, rfl,
        .branch id rule head looked named body one, two⟩
  | @empty id rule head name line text form tokens forest looked named bodiless derived
      inductionHypothesis =>
    cases left with
    | nil =>
      obtain rfl : right = rule.head :: form := whole
      exact ⟨[], _, [], _, rfl, rfl, .nil,
        .empty id rule head name line text looked named bodiless derived⟩
    | cons symbol left =>
      obtain ⟨rfl, remaining⟩ := List.cons.inj whole
      obtain ⟨before, after, trees, others, rfl, rfl, one, two⟩ := inductionHypothesis remaining
      exact ⟨before, after, _ :: trees, others, rfl, rfl,
        .empty id rule head name line text looked named bodiless one, two⟩

/-- Tokens are a forest of leaves above themselves. -/
theorem leaves (tokens : List Token) :
    Derivation grammar (tokens.map fun token => token.symbol.id) tokens
      (tokens.map Token.leaf) := by
  induction tokens with
  | nil => exact .nil
  | cons token rest inductionHypothesis => exact .leaf token inductionHypothesis

end Derivation

namespace Grammar

/-- One symbol of a form is replaced by the body of a rule that it heads. -/
def Rewrites (grammar : Grammar) (before after : List SymbolId) : Prop :=
  ∃ id rule left right, grammar.rule id = .ok rule ∧
    before = left ++ rule.head :: right ∧ after = left ++ rule.body ++ right

/-- A form can be rewritten into another in finitely many steps. -/
def Derives (grammar : Grammar) : List SymbolId → List SymbolId → Prop :=
  Relation.ReflTransGen grammar.Rewrites

variable {grammar : Grammar}

/-- Rewriting a part of a form rewrites the form. -/
theorem Derives.within {before after : List SymbolId} (derives : grammar.Derives before after)
    (left right : List SymbolId) :
    grammar.Derives (left ++ before ++ right) (left ++ after ++ right) := by
  induction derives with
  | refl => exact .refl
  | tail _ rewritten inductionHypothesis =>
    obtain ⟨id, rule, front, back, looked, rfl, rfl⟩ := rewritten
    refine inductionHypothesis.tail ⟨id, rule, left ++ front, back ++ right, looked, ?_, ?_⟩
    · simp only [List.append_assoc, List.cons_append]
    · simp only [List.append_assoc]

/-- Forms side by side are rewritten one after the other. -/
theorem Derives.append {first second before after : List SymbolId}
    (left : grammar.Derives first before) (right : grammar.Derives second after) :
    grammar.Derives (first ++ second) (before ++ after) := by
  have front : grammar.Derives (first ++ second) (before ++ second) := by
    simpa using left.within [] second
  have back : grammar.Derives (before ++ second) (before ++ after) := by
    simpa using right.within before []
  exact front.trans back

/-- The head of a rule can be rewritten into its body. -/
theorem Derives.of_rule {id : RuleId} {rule : Rule} (looked : grammar.rule id = .ok rule)
    (form : List SymbolId) : grammar.Derives (rule.head :: form) (rule.body ++ form) :=
  .single ⟨id, rule, [], form, looked, rfl, by simp⟩

end Grammar

namespace Derivation

variable {grammar : Grammar} {form : List SymbolId} {tokens : List Token} {forest : List Node}

/-- The form below which a forest hangs can be rewritten into the symbols of its
tokens: first the body of a rule, then what stands beside it. -/
theorem derives (derived : Derivation grammar form tokens forest) :
    grammar.Derives form (tokens.map fun token => token.symbol.id) := by
  induction derived with
  | nil => exact .refl
  | @leaf token form tokens forest _ inductionHypothesis =>
    simpa using inductionHypothesis.within [token.symbol.id] []
  | @branch id rule head form below tokens first rest forest looked named _ _ ofBody ofOthers =>
    rw [List.map_append]
    exact (Grammar.Derives.of_rule looked form).trans (ofBody.append ofOthers)
  | @empty id rule head name line text form tokens forest looked named bodiless _
      inductionHypothesis =>
    have dropped := Grammar.Derives.of_rule looked form
    rw [bodiless, List.nil_append] at dropped
    exact dropped.trans inductionHypothesis

/-- A branch can be put above the forest of a rule's body. -/
theorem reduced {id : RuleId} {rule : Rule} {head : Symbol}
    (looked : grammar.rule id = .ok rule) (named : grammar.symbol rule.head = .ok head)
    (body : Derivation grammar rule.body tokens forest) :
    ∃ tree, Derivation grammar [rule.head] tokens [tree] := by
  cases forest with
  | nil =>
    have bodiless : rule.body = [] := List.length_eq_zero_iff.mp body.length_eq.symm
    rw [bodiless] at body
    cases body
    exact ⟨_, .empty id rule head "" 0 "" looked named bodiless .nil⟩
  | cons first rest =>
    have branch := Derivation.branch id rule head looked named body .nil
    rw [List.append_nil] at branch
    exact ⟨_, branch⟩

/-- A form that can be rewritten into the symbols of some tokens has a forest.
Induct from the last rewriting to the first: the forest after a step has the
trees of the rule's body side by side, and a branch goes above them. -/
theorem exists_of_derives (well : grammar.tables.WellFormed)
    (derives : grammar.Derives form (tokens.map fun token => token.symbol.id)) :
    ∃ forest, Derivation grammar form tokens forest := by
  induction derives using Relation.ReflTransGen.head_induction_on with
  | refl => exact ⟨_, leaves tokens⟩
  | head rewritten _ inductionHypothesis =>
    obtain ⟨id, rule, left, right, looked, rfl, rfl⟩ := rewritten
    obtain ⟨forest, derived⟩ := inductionHypothesis
    obtain ⟨before, last, trees, others, rfl, -, first, second⟩ := derived.split
    obtain ⟨front, middle, prior, inner, rfl, -, outside, body⟩ := first.split
    obtain ⟨head, named⟩ := Grammar.symbol_of_rule well looked List.mem_cons_self
    obtain ⟨tree, branch⟩ := body.reduced looked named
    refine ⟨prior ++ ([tree] ++ others), ?_⟩
    rw [List.append_assoc]
    exact outside.append (branch.append second)

end Derivation

end TableDriven
