import TableDriven.Grammar.Basic
import TableDriven.Tree.Basic

/-!
# Collapsing unit branches

A rule is a unit if its body is a single nonterminal. Its branch says nothing that
the branch below it does not say, and collapsing a tree takes out every branch of
a unit, from the leaves up: the collapsed only child stands in its place. All
other nodes keep their labels and the order of their children.
-/

namespace TableDriven

/-- Whether the body of a rule is a single nonterminal. -/
def Grammar.isUnit (grammar : Grammar) (id : RuleId) : Bool :=
  match grammar.rule id with
  | .error _ => false
  | .ok rule =>
    match rule.body with
    | [only] =>
      match grammar.symbol only with
      | .error _ => false
      | .ok symbol => decide (symbol.kind = .nonterminal)
    | _ => false

namespace Node

mutual

/-- The tree without the branches of units. -/
def collapse (grammar : Grammar) : Node → Node
  | ⟨label, children⟩ =>
    match label.text.isNone && grammar.isUnit label.id, collapseAll grammar children with
    | true, [only] => only
    | _, kept => ⟨label, kept⟩

/-- Several trees without the branches of units. -/
def collapseAll (grammar : Grammar) : List Node → List Node
  | [] => []
  | node :: rest => node.collapse grammar :: collapseAll grammar rest

end

variable {grammar : Grammar}

/-- Trees are collapsed one by one. -/
theorem collapseAll_eq_map (nodes : List Node) :
    collapseAll grammar nodes = nodes.map (collapse grammar) := by
  induction nodes with
  | nil => rfl
  | cons node rest inductionHypothesis => rw [collapseAll, inductionHypothesis, List.map_cons]

/-- A leaf stays as it is. -/
theorem collapse_leaf (id : Nat) (name : String) (line : Nat) (text : String) :
    (leaf id name line text).collapse grammar = leaf id name line text := by
  simp [leaf, collapse, collapseAll]

/-- The branch of a unit gives way to its only child. -/
theorem collapse_unit {id : RuleId} (unit : grammar.isUnit id = true) (name : String)
    (line : Nat) (child : Node) :
    (branch id name line [child]).collapse grammar = child.collapse grammar := by
  simp [branch, collapse, collapseAll, unit]

/-- The branch of any other rule stays above its collapsed children. -/
theorem collapse_branch {id : RuleId} (kept : grammar.isUnit id = false) (name : String)
    (line : Nat) (children : List Node) :
    (branch id name line children).collapse grammar =
      branch id name line (children.map (collapse grammar)) := by
  simp [branch, collapse, collapseAll_eq_map, kept]

end Node

end TableDriven
