import TableDriven.Tree.Basic

/-!
# Walks over trees

Rules that recurse on the left make trees as deep as their input is long, so
every walk keeps the nodes it has yet to visit in a list of its own. The walk
from the root down meets each node before its children and those from left to
right; the fold from the leaves up combines each node with the results of its
children. Both end because the nodes still to be visited become fewer.
-/

namespace TableDriven

namespace Node

/-- Nodes that stand at the same depth. -/
def atDepth (depth : Nat) (nodes : List Node) : List (Node × Nat) :=
  nodes.map fun node => (node, depth)

/-- Forgetting the depth gives the nodes back. -/
theorem map_fst_atDepth (depth : Nat) (nodes : List Node) :
    (atDepth depth nodes).map Prod.fst = nodes := by
  simp [atDepth, Function.comp_def]

/-- A node among those to be visited is replaced by its children, one level
deeper; the nodes met so far are kept latest first. -/
def walkFrom (met : List (Node × Nat)) : List (Node × Nat) → List (Node × Nat)
  | [] => met.reverse
  | (node, depth) :: pending =>
    walkFrom ((node, depth) :: met) (atDepth (depth + 1) node.children ++ pending)
termination_by pending => sizeAll (pending.map Prod.fst)
decreasing_by
  simp only [List.map_append, map_fst_atDepth, List.map_cons, sizeAll_append, sizeAll,
    size_eq node]
  omega

/-- Every node of a tree with its depth, each before its children. -/
def walk (root : Node) : List (Node × Nat) := walkFrom [] [(root, 0)]

/-- Every node of a tree, each before its children. -/
def preorder (root : Node) : List Node := root.walk.map Prod.fst

/-- The first node of a given name. -/
def find? (root : Node) (name : String) : Option Node :=
  root.preorder.find? fun node => node.label.name = name

/-- The texts of a tree, left to right. -/
def leaves (root : Node) : List String := root.preorder.filterMap text

/-- Compare trees pair by pair. The children of a pair are paired only if they
are equally many, and the pair of the last children comes next. -/
def sameAll : List (Node × Node) → Bool
  | [] => true
  | (left, right) :: pending =>
    if left.label = right.label ∧ left.children.length = right.children.length then
      sameAll ((left.children.zip right.children).reverse ++ pending)
    else false
termination_by pending => sizeAll (pending.map Prod.fst)
decreasing_by
  rename_i same
  have firsts : (left.children.zip right.children).map Prod.fst = left.children :=
    List.map_fst_zip (Nat.le_of_eq same.2)
  simp only [List.map_append, List.map_reverse, firsts, List.map_cons, sizeAll_append,
    sizeAll_reverse, sizeAll, size_eq left]
  omega

/-- Whether two trees agree in every label and in the number and order of
children throughout. -/
def same (left right : Node) : Bool := sameAll [(left, right)]

/-- Trees are compared by `same`. -/
instance : BEq Node := ⟨same⟩

/-- A step of the fold from the leaves up. -/
inductive FoldStep where
  /-- Fold the children of a node, then combine it. -/
  | enter (node : Node)
  /-- The children of a node have been folded. -/
  | combine (node : Node)

/-- How much a step leaves to be done. -/
def FoldStep.weight : FoldStep → Nat
  | .enter node => 2 * node.size
  | .combine _ => 1

/-- The steps that fold each of several trees. -/
def FoldStep.enterAll (nodes : List Node) : List FoldStep := nodes.map .enter

/-- How much steps leave to be done together. -/
def FoldStep.weightAll : List FoldStep → Nat
  | [] => 0
  | step :: rest => step.weight + FoldStep.weightAll rest

/-- What is left to be done adds up. -/
theorem FoldStep.weightAll_append (before after : List FoldStep) :
    FoldStep.weightAll (before ++ after) =
      FoldStep.weightAll before + FoldStep.weightAll after := by
  induction before with
  | nil => simp [FoldStep.weightAll]
  | cons step rest inductionHypothesis =>
    simp [FoldStep.weightAll, inductionHypothesis, Nat.add_assoc]

/-- Entering trees leaves twice as much to be done as they have nodes. -/
theorem FoldStep.weightAll_enterAll (nodes : List Node) :
    FoldStep.weightAll (FoldStep.enterAll nodes) = 2 * sizeAll nodes := by
  induction nodes with
  | nil => rfl
  | cons first rest inductionHypothesis =>
    simp only [FoldStep.enterAll, List.map_cons, FoldStep.weightAll, FoldStep.weight,
      sizeAll] at *
    omega

/-- Carry out steps, with the results of finished nodes kept latest first. A
node takes as many results as it has children, and finds at least that many. -/
def foldSteps? {β : Type} (combine : Label → List β → β) (results : List β) :
    List FoldStep → Option (List β)
  | [] => some results
  | .enter node :: pending =>
    foldSteps? combine results (FoldStep.enterAll node.children ++ .combine node :: pending)
  | .combine node :: pending =>
    let count := node.children.length
    let own := results.take count
    if own.length < count then none
    else foldSteps? combine (combine node.label own.reverse :: results.drop count) pending
termination_by pending => FoldStep.weightAll pending
decreasing_by
  · simp only [FoldStep.weightAll_append, FoldStep.weightAll_enterAll, FoldStep.weightAll,
      FoldStep.weight, size_eq node]
    omega
  · simp only [FoldStep.weightAll, FoldStep.weight]
    omega

/-- Combine every node with the results of its children, from the leaves up.
The single result left over is the root's. -/
def foldUp? {β : Type} (combine : Label → List β → β) (root : Node) : Option β :=
  match foldSteps? combine [] [.enter root] with
  | some [result] => some result
  | _ => none

/-- A tree put together anew from the labels of another, node by node. -/
def copy? (root : Node) : Option Node := root.foldUp? Node.mk

end Node

end TableDriven
