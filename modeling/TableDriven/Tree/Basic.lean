/-!
# Syntax trees

A node has a label and children. A leaf stands for a token: it is numbered by
its symbol and carries the token's text. A branch stands for the application of
a rule: it is numbered by the rule, named after the rule's head, and carries no
text. Nothing forbids other nodes, so all functions on trees are defined for
every combination of text and children.
-/

namespace TableDriven

/-- What a node says about itself. -/
structure Label where
  id : Nat
  name : String
  line : Nat
  text : Option String
deriving DecidableEq, Repr

/-- A syntax tree. -/
structure Node where
  label : Label
  children : List Node

namespace Node

/-- The node of a token. -/
def leaf (id : Nat) (name : String) (line : Nat) (text : String) : Node :=
  ⟨⟨id, name, line, some text⟩, []⟩

/-- The node of an applied rule. -/
def branch (id : Nat) (name : String) (line : Nat) (children : List Node) : Node :=
  ⟨⟨id, name, line, none⟩, children⟩

/-- The text of a node that stands for a token. -/
def text (node : Node) : Option String := node.label.text

/-- Whether a node carries text. -/
def isTerminal (node : Node) : Bool := node.text.isSome

mutual

/-- The number of nodes of a tree. -/
def size : Node → Nat
  | ⟨_, children⟩ => sizeAll children + 1

/-- The number of nodes of several trees. -/
def sizeAll : List Node → Nat
  | [] => 0
  | node :: rest => node.size + sizeAll rest

end

/-- A tree has its root and the nodes of its children. -/
theorem size_eq (node : Node) : node.size = sizeAll node.children + 1 := by
  cases node
  rfl

/-- Node counts add up over lists of trees. -/
theorem sizeAll_append (before after : List Node) :
    sizeAll (before ++ after) = sizeAll before + sizeAll after := by
  induction before with
  | nil => simp [sizeAll]
  | cons node rest inductionHypothesis => simp [sizeAll, inductionHypothesis, Nat.add_assoc]

/-- Sizes add up in any direction. -/
theorem sizeAll_reverse (nodes : List Node) : sizeAll nodes.reverse = sizeAll nodes := by
  induction nodes with
  | nil => rfl
  | cons node rest inductionHypothesis =>
    rw [List.reverse_cons, sizeAll_append, inductionHypothesis, sizeAll, sizeAll, sizeAll]
    omega

/-- Induction over a tree: what holds of a node whenever it holds of its
children holds of every node. -/
theorem children_induction {property : Node → Prop}
    (combine : ∀ label children, (∀ child ∈ children, property child) →
      property ⟨label, children⟩) (node : Node) : property node :=
  Node.rec (motive_1 := property) (motive_2 := fun children => ∀ child ∈ children, property child)
    combine (fun _ member => nomatch member)
    (fun _ _ first rest _ member => by
      cases member with
      | head => exact first
      | tail _ later => exact rest _ later)
    node

end Node

end TableDriven
