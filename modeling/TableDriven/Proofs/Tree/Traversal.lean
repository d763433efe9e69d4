import Mathlib.Data.List.Nodup
import TableDriven.Proofs.Text.Quoting
import TableDriven.Proofs.Tree.Leaves
import TableDriven.Tree.Render

/-!
# Walks meet every node once

A walk keeps the nodes that it has yet to visit in a list. What it meets is what a recursion over
the tree meets: a node, and then everything below its children from left to right. A node is
known by its place, which is the list of the positions that lead to it from the root, and its
depth is the length of that list. So the walk passes every place of the tree once, with its depth.

Everything that is read off the walk follows the same order: the texts, the first node of a name,
and the display form, which is written node by node as a recursion would write it. What it writes
of a node is ended by a line end, and it holds those that the name of the node holds. So the display
form has a line for each node exactly if no name in the tree is broken.
-/

namespace TableDriven

namespace Node

mutual

/-- The nodes of a tree, each before what is below its children, child by child. -/
def nodes : Node → List Node
  | ⟨label, children⟩ => ⟨label, children⟩ :: nodesAll children

/-- The nodes of several trees, one tree after the other. -/
def nodesAll : List Node → List Node
  | [] => []
  | node :: rest => node.nodes ++ nodesAll rest

end

mutual

/-- The places of a tree: the root's, and those of its children below their positions. -/
def places : Node → List (List Nat)
  | ⟨_, children⟩ => [] :: placesFrom 0 children

/-- The places of several children, of which the first stands at a position. -/
def placesFrom (position : Nat) : List Node → List (List Nat)
  | [] => []
  | node :: rest => node.places.map (position :: ·) ++ placesFrom (position + 1) rest

end

/-- The node at a place, unless the tree has no such place. -/
def nodeAt? (root : Node) : List Nat → Option Node
  | [] => some root
  | position :: place =>
    match root.children[position]? with
    | none => none
    | some child => child.nodeAt? place

/-- Two blanks for each level. -/
def indentation (depth : Nat) : String := String.ofList (List.replicate (2 * depth) ' ')

/-- What the display form says of a node on its line. -/
def caption (label : Label) : String :=
  match label.text with
  | some text => label.name ++ " " ++ Text.quoted text ++ " @" ++ toString label.line
  | none => "<" ++ label.name ++ "> @" ++ toString label.line

mutual

/-- A tree that stands at a depth, written by recursion: the line of its root, and then its
children one level deeper. -/
def rendered (depth : Nat) : Node → String
  | ⟨label, children⟩ =>
    indentation depth ++ caption label ++ "\n" ++ renderedAll (depth + 1) children

/-- Several trees that stand at the same depth, one after the other. -/
def renderedAll (depth : Nat) : List Node → String
  | [] => ""
  | node :: rest => node.rendered depth ++ renderedAll depth rest

end

variable {label : Label} {children : List Node}

/-- The walk meets the nodes in the order of the recursion. -/
theorem preorder_eq_nodes (root : Node) : root.preorder = root.nodes := by
  have all (forest : List Node) (each : ∀ node ∈ forest, node.preorder = node.nodes) :
      forest.flatMap preorder = nodesAll forest := by
    induction forest with
    | nil => rfl
    | cons node rest inductionHypothesis =>
      rw [List.flatMap_cons, nodesAll, each node List.mem_cons_self,
        inductionHypothesis fun other member => each other (List.mem_cons_of_mem node member)]
  induction root using children_induction with
  | combine label children inductionHypothesis =>
    rw [preorder_eq, nodes, all children inductionHypothesis]

/-- A place among several children begins with the position of a child. -/
theorem mem_placesFrom (start : Nat) (forest : List Node) (place : List Nat) :
    place ∈ placesFrom start forest ↔
      ∃ index child rest, forest[index]? = some child ∧ rest ∈ child.places ∧
        place = (start + index) :: rest := by
  induction forest generalizing start with
  | nil => simp [placesFrom]
  | cons node others inductionHypothesis =>
    rw [placesFrom, List.mem_append, List.mem_map, inductionHypothesis]
    constructor
    · rintro (⟨rest, member, rfl⟩ | ⟨index, child, rest, found, member, rfl⟩)
      · exact ⟨0, node, rest, rfl, member, rfl⟩
      · refine ⟨index + 1, child, rest, found, member, ?_⟩
        rw [Nat.add_assoc, Nat.add_comm 1]
    · rintro ⟨index, child, rest, found, member, rfl⟩
      cases index with
      | zero =>
        obtain rfl : node = child := Option.some.inj found
        exact .inl ⟨rest, member, rfl⟩
      | succ index =>
        refine .inr ⟨index, child, rest, found, member, ?_⟩
        rw [Nat.add_assoc, Nat.add_comm 1]

/-- A tree has a place exactly if there is a node at it. Induct on the tree. -/
theorem mem_places (root : Node) (place : List Nat) :
    place ∈ root.places ↔ (root.nodeAt? place).isSome := by
  induction root using children_induction generalizing place with
  | combine label children inductionHypothesis =>
    rw [places, List.mem_cons, mem_placesFrom]
    cases place with
    | nil => simp [nodeAt?]
    | cons position place =>
      rw [nodeAt?]
      constructor
      · rintro (impossible | ⟨index, child, rest, found, member, same⟩)
        · cases impossible
        · obtain ⟨rfl, rfl⟩ := List.cons.inj same
          rw [Nat.zero_add]
          simp only [found]
          exact (inductionHypothesis child (List.mem_of_getElem? found) place).mp member
      · intro reached
        cases found : children[position]? with
        | none => simp [found] at reached
        | some child =>
          simp only [found] at reached
          have member := (inductionHypothesis child (List.mem_of_getElem? found) place).mpr reached
          refine .inr ⟨position, child, place, found, member, ?_⟩
          rw [Nat.zero_add]

/-- No place of a tree is listed twice. Induct on the tree: places below different children begin
with different positions. -/
theorem nodup_places (root : Node) : root.places.Nodup := by
  have all (forest : List Node) (each : ∀ node ∈ forest, node.places.Nodup) (start : Nat) :
      (placesFrom start forest).Nodup := by
    induction forest generalizing start with
    | nil => exact List.nodup_nil
    | cons node rest inductionHypothesis =>
      have own : (node.places.map (start :: ·)).Nodup :=
        List.Nodup.map (fun one other same => (List.cons.inj same).2) (each node List.mem_cons_self)
      have others : (placesFrom (start + 1) rest).Nodup :=
        inductionHypothesis (fun other member => each other (List.mem_cons_of_mem node member)) _
      refine List.nodup_append'.mpr ⟨own, others, ?_⟩
      intro place inside outside
      obtain ⟨tail, -, rfl⟩ := List.mem_map.mp inside
      obtain ⟨index, child, rest, -, -, same⟩ := (mem_placesFrom _ _ _).mp outside
      have positions := (List.cons.inj same).1
      omega
  induction root using children_induction with
  | combine label children inductionHypothesis =>
    rw [places, List.nodup_cons, mem_placesFrom]
    refine ⟨?_, all children inductionHypothesis 0⟩
    rintro ⟨index, child, rest, -, -, impossible⟩
    cases impossible

/-- The recursion passes the places of a tree in order, and the depth of a node is the length of
its place beyond the depth of the root. Induct on the tree, and over the children with those
before them at hand. -/
theorem nested_eq_map_places (root : Node) (depth : Nat) :
    (root.nested depth).map (fun pair => (some pair.1, pair.2)) =
      root.places.map fun place => (root.nodeAt? place, depth + place.length) := by
  induction root using children_induction generalizing depth with
  | combine label children inductionHypothesis =>
    have all (before after : List Node) (split : children = before ++ after) :
        (nestedAll (depth + 1) after).map (fun pair => (some pair.1, pair.2)) =
          (placesFrom before.length after).map fun place =>
            (nodeAt? ⟨label, children⟩ place, depth + place.length) := by
      induction after generalizing before with
      | nil => rfl
      | cons node rest following =>
        have here : children[before.length]? = some node := by
          rw [split, List.getElem?_append_right (Nat.le_refl _), Nat.sub_self]
          rfl
        have member : node ∈ children := List.mem_of_getElem? here
        have further := following (before ++ [node]) (by rw [split, List.append_assoc]; rfl)
        rw [List.length_append, List.length_singleton] at further
        rw [nestedAll, placesFrom, List.map_append, List.map_append, further, List.map_map,
          inductionHypothesis node member]
        congr 1
        refine List.map_congr_left fun place _ => ?_
        simp only [Function.comp_apply, nodeAt?, here, List.length_cons, Nat.add_assoc,
          Nat.add_comm 1]
    rw [nested, places, List.map_cons, List.map_cons]
    congr 1
    exact all [] children rfl

/-- The walk is the recursion. -/
theorem walk_eq_nested (root : Node) : root.walk = root.nested 0 := by
  rw [walk, walkFrom_eq, List.reverse_nil, List.nil_append, List.flatMap_singleton]

/-- The line of a node is its caption behind the blanks of its depth. -/
theorem displayLine_eq (node : Node) (depth : Nat) :
    node.displayLine depth = indentation depth ++ caption node.label ++ "\n" := by
  cases found : node.label.text with
  | none =>
    simp only [displayLine, caption, text, found, ← String.append_assoc]
    rfl
  | some text =>
    simp only [displayLine, caption, Node.text, found, ← String.append_assoc]
    rfl

/-- The lines of a tree that stands at a depth, in the order of the recursion, are the tree as it
is written by recursion. Induct on the tree. -/
theorem join_nested (root : Node) (depth : Nat) :
    String.join ((root.nested depth).map fun pair => pair.1.displayLine pair.2) =
      root.rendered depth := by
  induction root using children_induction generalizing depth with
  | combine label children inductionHypothesis =>
    have all (forest : List Node) (within : ∀ node ∈ forest, node ∈ children) :
        String.join ((nestedAll (depth + 1) forest).map fun pair => pair.1.displayLine pair.2) =
          renderedAll (depth + 1) forest := by
      induction forest with
      | nil => rfl
      | cons node rest following =>
        rw [nestedAll, List.map_append, String.join_append, renderedAll,
          inductionHypothesis node (within node List.mem_cons_self),
          following fun other member => within other (List.mem_cons_of_mem node member)]
    rw [nested, List.map_cons, String.join_cons, displayLine_eq, rendered,
      all children fun _ member => member]

/-- The display form is the tree written by recursion. -/
theorem display_eq_rendered (root : Node) : root.display = root.rendered 0 := by
  rw [← join_nested, ← walk_eq_nested, display]

/-- The caption of a leaf is its name and its text with its line. -/
theorem toList_caption_of_some {label : Label} {text : String} (found : label.text = some text) :
    (caption label).toList = label.name.toList ++ [' '] ++ (Text.quoted text).toList ++
      ' ' :: '@' :: Nat.toDigits 10 label.line := by
  simp [caption, found]

/-- The caption of a branch is its name in brackets with its line. -/
theorem toList_caption_of_none {label : Label} (found : label.text = none) :
    (caption label).toList =
      '<' :: (label.name.toList ++ '>' :: ' ' :: '@' :: Nat.toDigits 10 label.line) := by
  simp [caption, found]

/-- The line ends in a caption are those in the name. -/
theorem count_newline_caption (label : Label) :
    (caption label).toList.count '\n' = label.name.toList.count '\n' := by
  have digits : (Nat.toDigits 10 label.line).count '\n' = 0 :=
    List.count_eq_zero.mpr
      (Text.notMem_toDigits (by decide) (by decide) (by decide) label.line)
  cases found : label.text with
  | none =>
    rw [toList_caption_of_none found]
    simp [digits]
  | some text =>
    have quoted : (Text.quoted text).toList.count '\n' = 0 :=
      List.count_eq_zero.mpr (Text.newline_notMem_quoted text)
    rw [toList_caption_of_some found]
    simp [digits, quoted]

/-- A caption is one line unless the name in it is not. -/
theorem newline_mem_caption (label : Label) :
    '\n' ∈ (caption label).toList ↔ '\n' ∈ label.name.toList := by
  rw [← List.count_pos_iff, count_newline_caption, List.count_pos_iff]

/-- A tree is written with one line end for each node and those in the names. Induct on the
tree. -/
theorem count_newline_rendered (root : Node) (depth : Nat) :
    (root.rendered depth).toList.count '\n' =
      root.nodes.length + (root.nodes.flatMap fun node => node.label.name.toList).count '\n' := by
  induction root using children_induction generalizing depth with
  | combine label children inductionHypothesis =>
    have all (forest : List Node) (within : ∀ node ∈ forest, node ∈ children) :
        (renderedAll (depth + 1) forest).toList.count '\n' = (nodesAll forest).length +
          ((nodesAll forest).flatMap fun node => node.label.name.toList).count '\n' := by
      induction forest with
      | nil => rfl
      | cons node rest following =>
        have first := inductionHypothesis node (within node List.mem_cons_self) (depth + 1)
        have others := following fun other member => within other (List.mem_cons_of_mem node member)
        rw [renderedAll, nodesAll, String.toList_append, List.count_append, List.length_append,
          List.flatMap_append, List.count_append, first, others]
        omega
    have blanks : (indentation depth).toList.count '\n' = 0 := by
      simp [indentation, List.count_replicate]
    rw [rendered, nodes, List.length_cons, List.flatMap_cons, List.count_append]
    simp only [String.toList_append, List.count_append, blanks, count_newline_caption,
      all children fun _ member => member]
    have ended : "\n".toList.count '\n' = 1 := rfl
    omega

/-- The display form has a line for each node exactly if no name is broken. -/
theorem display_inline_iff (root : Node) :
    root.display.toList.count '\n' = root.nodes.length ↔
      ∀ node ∈ root.nodes, '\n' ∉ node.label.name.toList := by
  rw [display_eq_rendered, count_newline_rendered, Nat.add_eq_left, List.count_eq_zero,
    List.mem_flatMap]
  constructor
  · intro none node member broken
    exact none ⟨node, member, broken⟩
  · rintro whole ⟨node, member, broken⟩
    exact whole node member broken

/-- The walk that keeps a list of its own is the recursion: it meets the nodes in the same order,
each place of the tree once and with its depth. The texts of a tree and the first node of a name
are read off this order, and the display form is written by recursion, in lines that have as many
blanks in front as their depth asks for. A caption is broken only by a name that is, so each node
takes one line exactly if no name in the tree is broken. -/
theorem walks_are_recursive (root : Node) :
    root.preorder = root.nodes ∧
    (root.places.Nodup ∧ (∀ place, place ∈ root.places ↔ (root.nodeAt? place).isSome) ∧
      root.walk.map (fun pair => (some pair.1, pair.2)) =
        root.places.map fun place => (root.nodeAt? place, place.length)) ∧
    root.leaves = root.nodes.filterMap text ∧
    (∀ name, root.find? name = root.nodes.find? fun node => node.label.name = name) ∧
    root.display = root.rendered 0 ∧
    (∀ label, '\n' ∈ (caption label).toList ↔ '\n' ∈ label.name.toList) ∧
    (root.display.toList.count '\n' = root.nodes.length ↔
      ∀ node ∈ root.nodes, '\n' ∉ node.label.name.toList) := by
  refine ⟨preorder_eq_nodes root, ⟨nodup_places root, mem_places root, ?_⟩, ?_, fun name => ?_,
    display_eq_rendered root, newline_mem_caption, display_inline_iff root⟩
  · rw [walk_eq_nested, nested_eq_map_places]
    simp only [Nat.zero_add]
  · rw [leaves, preorder_eq_nodes]
  · rw [find?, preorder_eq_nodes]

/-- A tree of one node takes two lines: the name is written as it is, though it is broken. -/
theorem broken_name_takes_two_lines :
    (branch 0 "a\nb" 1 []).display = "<a\nb> @1\n" ∧
      (branch 0 "a\nb" 1 []).nodes.length = 1 ∧
      (branch 0 "a\nb" 1 []).display.toList.count '\n' = 2 := by
  rw [display_eq_rendered]
  exact ⟨rfl, rfl, rfl⟩

end Node

end TableDriven
