import TableDriven.Tree.Walk

/-!
# Flat trees

A tree is determined by the labels of its nodes in the order of the walk from
the root down, each with its number of children. This is the form in which trees
are handed in and out where nesting would be a burden.
-/

namespace TableDriven

/-- A label and the number of children below it. -/
abbrev FlatNode := Label × Nat

namespace Node

/-- One node of the flat form. -/
def flat (node : Node) : FlatNode := (node.label, node.children.length)

/-- The flat form of a tree. -/
def toPreorder (root : Node) : List FlatNode := root.preorder.map flat

/-- Put the trees that follow below a label. It takes the first `count` of them
if there are so many. -/
def gather? (flatNode : FlatNode) (following : Option (List Node)) : Option (List Node) :=
  following.bind fun trees =>
    let children := trees.take flatNode.2
    if children.length < flatNode.2 then none
    else some (⟨flatNode.1, children⟩ :: trees.drop flatNode.2)

/-- The tree of a flat form; none if the counts do not describe a single tree. -/
def ofPreorder? (flatNodes : List FlatNode) : Option Node :=
  match flatNodes.foldr gather? (some []) with
  | some [root] => some root
  | _ => none

end Node

end TableDriven
