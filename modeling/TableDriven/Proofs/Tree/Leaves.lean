import Mathlib.Data.List.Basic
import TableDriven.Grammar.Basic
import TableDriven.Tree.Walk

/-!
# The leaves of a tree

The walk over a tree keeps a list of the nodes it has yet to visit. What it meets
is what a recursion over the tree meets: a node, and then everything below its
children from left to right. So the leaves of a tree are those below its children,
one child after the other.

A branch of a rule with an empty body stands for no token. The marker below it only
shows a place, and a tree without its markers has no leaves but those of tokens.
-/

namespace TableDriven

/-- Whether the body of a rule is empty. -/
def Grammar.isBodiless (grammar : Grammar) (id : RuleId) : Bool :=
  match grammar.rule id with
  | .error _ => false
  | .ok rule => rule.body.isEmpty

namespace Node

mutual

/-- The nodes of a tree with their depths, each before what is below it. -/
def nested (depth : Nat) : Node → List (Node × Nat)
  | ⟨label, children⟩ => (⟨label, children⟩, depth) :: nestedAll (depth + 1) children

/-- The nodes of several trees that stand at the same depth. -/
def nestedAll (depth : Nat) : List Node → List (Node × Nat)
  | [] => []
  | node :: rest => node.nested depth ++ nestedAll depth rest

end

/-- The nodes of several trees are met one tree after the other. -/
theorem nestedAll_eq_flatMap (depth : Nat) (nodes : List Node) :
    nestedAll depth nodes = nodes.flatMap (nested depth) := by
  induction nodes with
  | nil => rfl
  | cons node rest inductionHypothesis =>
    rw [nestedAll, inductionHypothesis, List.flatMap_cons]

/-- A node is met before everything below its children. -/
theorem nested_eq (depth : Nat) (node : Node) :
    node.nested depth = (node, depth) :: node.children.flatMap (nested (depth + 1)) := by
  obtain ⟨label, children⟩ := node
  rw [nested, nestedAll_eq_flatMap]

/-- The walk meets what is pending tree by tree. -/
theorem walkFrom_eq (met pending : List (Node × Nat)) :
    walkFrom met pending = met.reverse ++ pending.flatMap fun pair => pair.1.nested pair.2 := by
  fun_induction walkFrom met pending with
  | case1 met => simp
  | case2 met node depth pending inductionHypothesis =>
    rw [inductionHypothesis, List.flatMap_append, List.flatMap_cons, nested_eq depth node, atDepth,
      List.flatMap_map, List.reverse_cons, List.append_assoc]
    rfl

/-- The depth at which a tree stands does not change what is met in it. -/
theorem map_fst_nested (depth other : Nat) (node : Node) :
    (node.nested depth).map Prod.fst = (node.nested other).map Prod.fst := by
  induction node using children_induction generalizing depth other with
  | combine label children inductionHypothesis =>
    rw [nested_eq, nested_eq, List.map_cons, List.map_cons, List.map_flatMap, List.map_flatMap]
    congr 1
    exact List.flatMap_congr fun child member =>
      inductionHypothesis child member (depth + 1) (other + 1)

/-- Every node stands before what is below its children, from left to right. -/
theorem preorder_eq (node : Node) :
    node.preorder = node :: node.children.flatMap preorder := by
  have met (root : Node) : root.preorder = (root.nested 0).map Prod.fst := by
    rw [preorder, walk, walkFrom_eq, List.reverse_nil, List.nil_append, List.flatMap_singleton]
  rw [met, nested_eq, List.map_cons, List.map_flatMap]
  congr 1
  refine List.flatMap_congr fun child _ => ?_
  rw [met]
  exact map_fst_nested 1 0 child

/-- The labels of the leaves, from left to right. -/
def leafLabels (root : Node) : List Label := (root.preorder.filter isTerminal).map Node.label

/-- A node without text has the leaves of its children. -/
theorem leafLabels_of_none {label : Label} (branch : label.text = none) (children : List Node) :
    leafLabels ⟨label, children⟩ = children.flatMap leafLabels := by
  have inner : isTerminal ⟨label, children⟩ = false := by simp [isTerminal, text, branch]
  rw [leafLabels, preorder_eq, List.filter_cons_of_neg (by simp [inner]), List.filter_flatMap,
    List.map_flatMap]
  rfl

/-- The leaf of a token is its own only leaf. -/
theorem leafLabels_leaf (id : Nat) (name : String) (line : Nat) (text : String) :
    (leaf id name line text).leafLabels = [⟨id, name, line, some text⟩] := by
  rw [leafLabels, preorder_eq]
  rfl

mutual

/-- The tree without the markers below branches of rules with an empty body. -/
def unmarked (grammar : Grammar) : Node → Node
  | ⟨label, children⟩ =>
    if label.text.isNone && grammar.isBodiless label.id then
      ⟨label, (unmarkedAll grammar children).tail⟩
    else ⟨label, unmarkedAll grammar children⟩

/-- Several trees without their markers. -/
def unmarkedAll (grammar : Grammar) : List Node → List Node
  | [] => []
  | node :: rest => node.unmarked grammar :: unmarkedAll grammar rest

end

/-- The labels of the leaves that stand for tokens, from left to right. -/
def tokenLabels (grammar : Grammar) (root : Node) : List Label :=
  (root.unmarked grammar).leafLabels

variable {grammar : Grammar}

/-- Markers are taken out of several trees one by one. -/
theorem unmarkedAll_eq_map (nodes : List Node) :
    unmarkedAll grammar nodes = nodes.map (unmarked grammar) := by
  induction nodes with
  | nil => rfl
  | cons node rest inductionHypothesis => rw [unmarkedAll, inductionHypothesis, List.map_cons]

/-- The leaf of a token stands for the token. -/
theorem tokenLabels_leaf (id : Nat) (name : String) (line : Nat) (text : String) :
    (leaf id name line text).tokenLabels grammar = [⟨id, name, line, some text⟩] :=
  leafLabels_leaf id name line text

/-- A branch stands for the tokens of its children if the body of its rule is not empty. -/
theorem tokenLabels_branch {id : RuleId} (bodied : grammar.isBodiless id = false) (name : String)
    (line : Nat) (children : List Node) :
    (branch id name line children).tokenLabels grammar =
      children.flatMap (tokenLabels grammar) := by
  simp only [tokenLabels, branch, unmarked, bodied, Bool.and_false, Bool.false_eq_true, if_false,
    unmarkedAll_eq_map]
  rw [leafLabels_of_none rfl, List.flatMap_map]
  rfl

/-- The branch of a rule with an empty body has nothing below it but its marker, so it
stands for no token. -/
theorem tokenLabels_bodiless {id : RuleId} (bodiless : grammar.isBodiless id = true)
    (name : String) (line : Nat) (marker : Node) :
    (branch id name line [marker]).tokenLabels grammar = [] := by
  simp only [tokenLabels, branch, unmarked, bodiless, Option.isNone_none, Bool.and_self, if_true,
    unmarkedAll_eq_map]
  exact leafLabels_of_none rfl []

/-- Without rules of empty bodies there are no markers, and every leaf stands for a
token. -/
theorem tokenLabels_eq_leafLabels (bodied : ∀ id, grammar.isBodiless id = false) (root : Node) :
    root.tokenLabels grammar = root.leafLabels := by
  have same (node : Node) : node.unmarked grammar = node := by
    induction node using children_induction with
    | combine label children inductionHypothesis =>
      rw [unmarked, bodied, Bool.and_false, if_neg Bool.false_ne_true, unmarkedAll_eq_map,
        List.map_congr_left inductionHypothesis, List.map_id']
  rw [tokenLabels, same]

end Node

end TableDriven
