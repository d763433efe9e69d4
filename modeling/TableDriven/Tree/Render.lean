import TableDriven.Text.Quoted
import TableDriven.Tree.Walk

/-!
# Trees as text

The display form has a line for each node in the order of the walk, indented by
two blanks for each level, with the quoted text of a leaf and the bracketed name
of a branch. Names are not quoted, so a name that holds a line end breaks the line
of its node. The indentation has no greatest width. The dump form nests: it
writes every field of a node and, between brackets, those of its children.
-/

namespace TableDriven

namespace Node

/-- The line of one node. -/
def displayLine (node : Node) (depth : Nat) : String :=
  let indent := String.ofList (List.replicate (2 * depth) ' ')
  match node.text with
  | some text => s!"{indent}{node.label.name} {Text.quoted text} @{node.label.line}\n"
  | none => s!"{indent}<{node.label.name}> @{node.label.line}\n"

/-- The indented form of a tree, a line for each node. -/
def display (root : Node) : String :=
  String.join (root.walk.map fun (node, depth) => node.displayLine depth)

/-- What the dump form writes before the children of a node. -/
def dumpOpening (node : Node) : String :=
  let text := match node.text with
    | some text => s!"Some({Text.quoted text})"
    | none => "None"
  s!"SyntaxNode \x7b id: {node.label.id}, name: {Text.quoted node.label.name}, "
    ++ s!"line: {node.label.line}, terminal: {text}, children: ["

/-- What the dump form writes after the children of a node. -/
def dumpClosing : String := "] \x7d"

/-- A piece of the dump form yet to be written. -/
inductive DumpPiece where
  /-- A node; unless it is the first of its siblings a comma precedes it. -/
  | tree (first : Bool) (root : Node)
  /-- The end of a node's children. -/
  | closing

/-- How much a piece leaves to be written. -/
def DumpPiece.weight : DumpPiece → Nat
  | .tree _ root => 2 * root.size
  | .closing => 1

/-- The pieces of siblings. -/
def DumpPiece.siblings : List Node → List DumpPiece
  | [] => []
  | first :: rest => .tree true first :: rest.map (.tree false)

/-- How much pieces leave to be written together. -/
def DumpPiece.weightAll : List DumpPiece → Nat
  | [] => 0
  | piece :: rest => piece.weight + DumpPiece.weightAll rest

/-- What is left to be written adds up. -/
theorem DumpPiece.weightAll_append (before after : List DumpPiece) :
    DumpPiece.weightAll (before ++ after) =
      DumpPiece.weightAll before + DumpPiece.weightAll after := by
  induction before with
  | nil => simp [DumpPiece.weightAll]
  | cons piece rest inductionHypothesis =>
    simp [DumpPiece.weightAll, inductionHypothesis, Nat.add_assoc]

/-- Siblings leave as much to be written as their trees. -/
theorem DumpPiece.weightAll_siblings (nodes : List Node) :
    DumpPiece.weightAll (DumpPiece.siblings nodes) = 2 * sizeAll nodes := by
  have later : ∀ rest : List Node,
      DumpPiece.weightAll (rest.map (DumpPiece.tree false)) = 2 * sizeAll rest := by
    intro rest
    induction rest with
    | nil => rfl
    | cons next others inductionHypothesis =>
      simp only [List.map_cons, DumpPiece.weightAll, DumpPiece.weight, inductionHypothesis,
        sizeAll]
      omega
  cases nodes with
  | nil => rfl
  | cons first rest =>
    simp only [DumpPiece.siblings, DumpPiece.weightAll, later rest, DumpPiece.weight, sizeAll]
    omega

/-- Write pieces behind what has been written. -/
def dumpPieces (written : String) : List DumpPiece → String
  | [] => written
  | .tree first node :: pending =>
    let separator := if first then "" else ", "
    dumpPieces (written ++ separator ++ node.dumpOpening)
      (DumpPiece.siblings node.children ++ .closing :: pending)
  | .closing :: pending => dumpPieces (written ++ dumpClosing) pending
termination_by pending => DumpPiece.weightAll pending
decreasing_by
  · simp only [DumpPiece.weightAll_append, DumpPiece.weightAll_siblings, DumpPiece.weightAll,
      DumpPiece.weight, size_eq node]
    omega
  · simp only [DumpPiece.weightAll, DumpPiece.weight]
    omega

/-- The dump form of a tree. -/
def dump (root : Node) : String := dumpPieces "" [.tree true root]

end Node

end TableDriven
