import TableDriven.Proofs.Parsing.StackPath
import TableDriven.Proofs.Tree.Leaves

/-!
# Lines of leaves

A branch takes over the line of its first child, and the branch of a rule with an empty body takes
the line of the token that it was reduced before, as its marker does. So the line of every node is
that of its first leaf. Tokens come in the order of their lines, and what is reduced before a token
does not lie behind it: on the stack, and in every tree on it, the lines of the leaves ascend from
left to right and do not go beyond the line of the token at hand.
-/

namespace TableDriven

namespace Node

/-- The node stands on the line of its first leaf, of which there is one. -/
def OnFirstLine (node : Node) : Prop :=
  ∃ first others, node.leafLabels = first :: others ∧ node.label.line = first.line

/-- All nodes of a tree stand on the lines of their first leaves. -/
def LinedUp (root : Node) : Prop := ∀ node ∈ root.preorder, node.OnFirstLine

/-- A tree stands on the line of its first leaf if all of its nodes do. -/
theorem LinedUp.root {root : Node} (lined : root.LinedUp) : root.OnFirstLine := by
  refine lined root ?_
  rw [preorder_eq]
  exact List.mem_cons_self

/-- A leaf is its own first leaf. -/
theorem linedUp_leaf (id : Nat) (name : String) (line : Nat) (text : String) :
    (leaf id name line text).LinedUp := by
  intro node member
  rw [preorder_eq] at member
  obtain rfl := List.mem_singleton.mp member
  exact ⟨_, [], leafLabels_leaf id name line text, rfl⟩

/-- A branch on the line of its first child has the first leaf of that. -/
theorem linedUp_branch {first : Node} {others : List Node}
    (lined : ∀ child ∈ first :: others, child.LinedUp) (id : Nat) (name : String) :
    (branch id name first.label.line (first :: others)).LinedUp := by
  intro node member
  rw [preorder_eq] at member
  rcases List.mem_cons.mp member with rfl | inner
  · obtain ⟨label, labels, leaves, line⟩ := (lined first List.mem_cons_self).root
    refine ⟨label, labels ++ others.flatMap leafLabels, ?_, line⟩
    rw [branch, leafLabels_of_none rfl, List.flatMap_cons, leaves, List.cons_append]
  · obtain ⟨child, among, below⟩ := List.mem_flatMap.mp inner
    exact lined child among node below

end Node

/-- The trees on a stack, from the lowest up. -/
def Stack.trees (stack : Stack) : List Node := stack.reverse.filterMap Entry.node

namespace Stack

/-- The trees of what lies below come first. -/
theorem trees_append (above rest : Stack) : trees (above ++ rest) = rest.trees ++ trees above := by
  rw [trees, List.reverse_append, List.filterMap_append]
  rfl

/-- A pushed tree is the last. -/
theorem trees_push (stack : Stack) (state : LalrStateId) (token : Token) (node : Node) :
    (stack.push state token (some node)).trees = stack.trees ++ [node] := by
  rw [push, ← List.singleton_append, trees_append]
  rfl

/-- The trees of a handle are those that it carries. -/
theorem trees_handle {handle : List Entry} {children : List Node}
    (carried : handle.map Entry.node = children.map some) : trees handle.reverse = children := by
  have entries : handle.filterMap Entry.node = (handle.map Entry.node).filterMap id := by
    rw [List.filterMap_map]
    rfl
  rw [trees, List.reverse_reverse, entries, carried, List.filterMap_map]
  exact List.filterMap_some

end Stack

/-- Trees whose nodes stand on the lines of their first leaves, and whose leaves have lines that
ascend from left to right up to a line. -/
structure LinedTo (line : Nat) (trees : List Node) : Prop where
  each : ∀ tree ∈ trees, tree.LinedUp
  ascending : ((trees.flatMap Node.leafLabels).map Label.line).Pairwise (· ≤ ·)
  bounded : ∀ label ∈ trees.flatMap Node.leafLabels, label.line ≤ line

namespace LinedTo

variable {line later : Nat} {trees children : List Node} {node : Node}

/-- There is nothing amiss with no trees. -/
theorem nil (line : Nat) : LinedTo line [] := ⟨by simp, .nil, by simp⟩

/-- A later line bounds the leaves, too. -/
theorem mono (lined : LinedTo line trees) (onward : line ≤ later) : LinedTo later trees :=
  ⟨lined.each, lined.ascending, fun label member =>
    Nat.le_trans (lined.bounded label member) onward⟩

/-- Trees can be taken off. -/
theorem of_append (lined : LinedTo line (trees ++ children)) : LinedTo line trees where
  each tree member := lined.each tree (List.mem_append_left _ member)
  ascending := by
    have whole := lined.ascending
    rw [List.flatMap_append, List.map_append] at whole
    exact (List.pairwise_append.mp whole).1
  bounded label member := by
    refine lined.bounded label ?_
    rw [List.flatMap_append]
    exact List.mem_append_left _ member

/-- Trees may be put together into one with the same leaves. -/
theorem join (lined : LinedTo line (trees ++ children)) (own : node.LinedUp)
    (leaves : node.leafLabels = children.flatMap Node.leafLabels) :
    LinedTo line (trees ++ [node]) := by
  have same : (trees ++ [node]).flatMap Node.leafLabels =
      (trees ++ children).flatMap Node.leafLabels := by
    rw [List.flatMap_append, List.flatMap_append, List.flatMap_singleton, leaves]
  refine ⟨?_, same ▸ lined.ascending, same ▸ lined.bounded⟩
  intro tree member
  rcases List.mem_append.mp member with below | top
  · exact lined.each tree (List.mem_append_left _ below)
  · exact List.mem_singleton.mp top ▸ own

/-- A tree whose only leaf stands on the last line may be put on. -/
theorem push (lined : LinedTo line trees) (own : node.LinedUp) {label : Label}
    (leaf : node.leafLabels = [label]) (last : label.line = line) :
    LinedTo line (trees ++ [node]) := by
  have leaves : (trees ++ [node]).flatMap Node.leafLabels =
      trees.flatMap Node.leafLabels ++ [label] := by
    rw [List.flatMap_append, List.flatMap_singleton, leaf]
  refine ⟨?_, ?_, ?_⟩
  · intro tree member
    rcases List.mem_append.mp member with below | top
    · exact lined.each tree below
    · exact List.mem_singleton.mp top ▸ own
  · rw [leaves, List.map_append]
    refine List.pairwise_append.mpr ⟨lined.ascending, List.pairwise_singleton _ _, ?_⟩
    intro before member after single
    obtain ⟨found, among, rfl⟩ := List.mem_map.mp member
    rw [List.map_singleton] at single
    rw [List.mem_singleton.mp single, last]
    exact lined.bounded found among
  · rw [leaves]
    intro found member
    rcases List.mem_append.mp member with below | top
    · exact lined.bounded found below
    · have same := congrArg Label.line (List.mem_singleton.mp top)
      exact Nat.le_of_eq (same.trans last)

end LinedTo

namespace Automaton

variable {automaton : Automaton} {machine after below : Machine} {token next : Token}
  {signal : Signal} {id : RuleId}

/-- The tree that is put together from others has their leaves and stands on the line of the
first. -/
theorem assemble_lined {first : Node} {others : List Node}
    (lined : ∀ child ∈ first :: others, child.LinedUp) (head : Symbol) (lookahead : Token)
    (trimmed : Bool) :
    (assemble id head lookahead trimmed (first :: others)).1.LinedUp ∧
      (assemble id head lookahead trimmed (first :: others)).1.leafLabels =
        (first :: others).flatMap Node.leafLabels := by
  unfold assemble
  split
  · rename_i child only
    obtain ⟨rfl, rfl⟩ := List.cons.inj only
    exact ⟨lined first List.mem_cons_self, (List.flatMap_singleton _ _).symm⟩
  · exact ⟨Node.linedUp_branch lined id head.name, Node.leafLabels_of_none rfl _⟩

/-- The branch of an empty body stands on the line of its marker, which is that of the token. -/
theorem emptyBranch_lined (id : RuleId) (head : Symbol) (lookahead : Token) :
    (emptyBranch id head lookahead).LinedUp ∧
      (emptyBranch id head lookahead).leafLabels =
        [⟨0, lookahead.symbol.name, lookahead.line, some lookahead.text⟩] := by
  have marker : (Node.leaf 0 lookahead.symbol.name lookahead.line lookahead.text).LinedUp :=
    Node.linedUp_leaf 0 _ _ _
  have only : ∀ child ∈ [Node.leaf 0 lookahead.symbol.name lookahead.line lookahead.text],
      child.LinedUp := by
    intro child member
    rwa [List.mem_singleton.mp member]
  refine ⟨Node.linedUp_branch only id head.name, ?_⟩
  rw [emptyBranch, Node.branch, Node.leafLabels_of_none rfl, List.flatMap_singleton,
    Node.leafLabels_leaf]

/-- Taking a body off and pushing its tree keeps the trees lined up. -/
theorem BodyTaken.linedTo {rule : Rule} {head : Symbol} {trimmed : Bool} {node : Node}
    (lined : LinedTo token.line machine.stack.trees)
    (taken : BodyTaken machine id rule head token trimmed node below) :
    LinedTo token.line (below.stack.trees ++ [node]) := by
  cases taken with
  | empty bodiless =>
    obtain ⟨own, leaf⟩ := emptyBranch_lined id head token
    exact lined.push own leaf rfl
  | handle first others rest children stacked fits left carried =>
    rw [stacked, Stack.trees_append, Stack.trees_handle carried] at lined
    cases children with
    | nil => simp at carried
    | cons child children =>
      have each : ∀ tree ∈ child :: children, tree.LinedUp := fun tree member =>
        lined.each tree (List.mem_append_right _ member)
      obtain ⟨own, leaves⟩ := assemble_lined each head token trimmed
      exact lined.join own leaves

/-- An answered step keeps the trees on the stack lined up to the line of the token, on which the
token stays. -/
theorem Effect.linedTo (effect : automaton.Effect machine token after next signal)
    (lined : LinedTo token.line machine.stack.trees) :
    next.line = token.line ∧ LinedTo token.line after.stack.trees := by
  have pushed (target : LalrStateId) :
      LinedTo token.line (machine.enter target token token.leaf).stack.trees := by
    rw [Machine.enter, Stack.trees_push]
    exact lined.push (Node.linedUp_leaf _ _ _ _) (Node.leafLabels_leaf _ _ _ _) rfl
  cases effect with
  | shift target listed => exact ⟨rfl, pushed target⟩
  | goto target listed => exact ⟨rfl, pushed target⟩
  | reduce id after listed reduced =>
    obtain ⟨rule, head, trimmed, node, below, target, planned, taken, moved⟩ := reduced
    refine ⟨rfl, ?_⟩
    rw [Machine.enter, Stack.trees_push]
    exact taken.linedTo lined
  | substitute => exact ⟨rfl, lined⟩
  | unwind error state stack unlisted recovers substituted unwound =>
    refine ⟨rfl, ?_⟩
    rcases unwind_split unwound with ⟨-, rfl⟩ | ⟨above, entry, split, -, -⟩
    · exact lined
    · rw [split, List.append_cons, Stack.trees_append] at lined
      exact lined.of_append
  | accept => exact ⟨rfl, lined⟩
  | reject => exact ⟨rfl, lined⟩

end Automaton

/-- An accepted tree is the only one on the stack. -/
theorem StackPath.trees_root {grammar : Grammar} {machine : Machine} {tree : Node}
    (path : StackPath grammar machine.state machine.stack) (root : machine.root = .ok tree) :
    machine.stack.trees = [tree] := by
  obtain ⟨entry, lowest, two, carried, bare, -⟩ := path.stack_of_root root
  rw [two]
  simp [Stack.trees, carried, bare]

end TableDriven
