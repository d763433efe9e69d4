import Mathlib.Data.List.Forall2
import TableDriven.Tree.Walk

/-!
# Copying and comparing trees

A tree is folded from the leaves up with two lists, one of the steps still to be done and one of
the results that no node has taken yet. Whatever the lists hold besides, entering a tree comes to
putting its recursive fold on the results: its children leave theirs there in order, and the
step that combines the node takes exactly these. So there are always results enough, and a copy,
which is a fold that puts every node together again, is the tree itself.

Trees are compared with one list of pairs. It does not matter in which order the pairs are taken:
the comparison succeeds if the trees of every pair match, which they do by recursion if they have
the same label and equally many children that match one by one.
-/

namespace TableDriven

namespace Node

mutual

/-- A tree folded by recursion: a label is combined with the results of its children. -/
def fold {β : Type} (combine : Label → List β → β) : Node → β
  | ⟨label, children⟩ => combine label (foldAll combine children)

/-- Several trees folded one by one. -/
def foldAll {β : Type} (combine : Label → List β → β) : List Node → List β
  | [] => []
  | node :: rest => node.fold combine :: foldAll combine rest

end

variable {β : Type} {combine : Label → List β → β}

/-- Each of several trees is folded by itself. -/
theorem foldAll_eq_map (nodes : List Node) : foldAll combine nodes = nodes.map (fold combine) := by
  induction nodes with
  | nil => rfl
  | cons node rest inductionHypothesis => rw [foldAll, inductionHypothesis, List.map_cons]

/-- Entering several trees puts their folds on the results, the last on top, if entering each of
them does so. -/
theorem foldSteps?_enterAll (nodes : List Node)
    (each : ∀ node ∈ nodes, ∀ results pending,
      foldSteps? combine results (.enter node :: pending) =
        foldSteps? combine (node.fold combine :: results) pending)
    (results : List β) (pending : List FoldStep) :
    foldSteps? combine results (FoldStep.enterAll nodes ++ pending) =
      foldSteps? combine ((foldAll combine nodes).reverse ++ results) pending := by
  induction nodes generalizing results with
  | nil => rfl
  | cons node rest inductionHypothesis =>
    have others : ∀ other ∈ rest, ∀ results pending,
        foldSteps? combine results (.enter other :: pending) =
          foldSteps? combine (other.fold combine :: results) pending :=
      fun other member => each other (List.mem_cons_of_mem node member)
    calc foldSteps? combine results (FoldStep.enterAll (node :: rest) ++ pending)
        = foldSteps? combine (node.fold combine :: results)
            (FoldStep.enterAll rest ++ pending) :=
          each node List.mem_cons_self results _
      _ = foldSteps? combine ((foldAll combine rest).reverse ++ node.fold combine :: results)
            pending :=
          inductionHypothesis others _
      _ = foldSteps? combine ((foldAll combine (node :: rest)).reverse ++ results) pending := by
          rw [foldAll, List.reverse_cons, List.append_assoc]
          rfl

/-- The step that combines a node takes the results of its children off and leaves the others. -/
theorem foldSteps?_combine (label : Label) (children : List Node) (results : List β)
    (pending : List FoldStep) :
    foldSteps? combine ((foldAll combine children).reverse ++ results)
        (.combine ⟨label, children⟩ :: pending) =
      foldSteps? combine (combine label (foldAll combine children) :: results) pending := by
  have count : children.length = (foldAll combine children).reverse.length := by
    rw [List.length_reverse, foldAll_eq_map, List.length_map]
  rw [foldSteps?]
  simp only [count, List.take_left, List.drop_left, List.reverse_reverse]
  exact if_neg (Nat.lt_irrefl _)

/-- Whatever results there are and whatever is pending, entering a tree comes to putting its fold
on the results. Induct on the tree. -/
theorem foldSteps?_enter (root : Node) (results : List β) (pending : List FoldStep) :
    foldSteps? combine results (.enter root :: pending) =
      foldSteps? combine (root.fold combine :: results) pending := by
  induction root using children_induction generalizing results pending with
  | combine label children inductionHypothesis =>
    rw [foldSteps?, foldSteps?_enterAll children inductionHypothesis, foldSteps?_combine, fold]

/-- The fold with two lists is the recursive fold. -/
theorem foldUp?_eq_fold (root : Node) : root.foldUp? combine = some (root.fold combine) := by
  rw [foldUp?, foldSteps?_enter, foldSteps?]

/-- Putting every node together again gives the tree. -/
theorem fold_mk (root : Node) : root.fold Node.mk = root := by
  induction root using children_induction with
  | combine label children inductionHypothesis =>
    rw [fold, foldAll_eq_map, List.map_congr_left inductionHypothesis, List.map_id']

/-- Two trees match if their labels, which are the number, the name, the line and the text of the
root, are the same, and they have equally many children, which match one by one. -/
inductive Matches : Node → Node → Prop where
  | intro {left right : Node} (id : left.label.id = right.label.id)
      (name : left.label.name = right.label.name) (line : left.label.line = right.label.line)
      (text : left.label.text = right.label.text)
      (children : List.Forall₂ Matches left.children right.children) : Matches left right

/-- Trees are the same if they have the same label and the same children. -/
theorem eq_iff (left right : Node) :
    left = right ↔ left.label = right.label ∧ left.children = right.children := by
  obtain ⟨label, children⟩ := left
  obtain ⟨label', children'⟩ := right
  rw [Node.mk.injEq]

/-- Lists of trees are the same if they are equally long and the trees in the same places are the
same. -/
theorem eq_iff_zip (left right : List Node) :
    left = right ↔ left.length = right.length ∧ ∀ pair ∈ left.zip right, pair.1 = pair.2 := by
  rw [← List.forall₂_eq_eq_eq, List.forall₂_iff_zip]
  refine and_congr_right fun _ => ?_
  constructor
  · rintro all ⟨one, other⟩ member
    exact all member
  · exact fun all one other member => all _ member

/-- Trees match if they are the same. -/
theorem matches_iff_eq (left right : Node) : left.Matches right ↔ left = right := by
  constructor
  · intro agree
    induction left using children_induction generalizing right with
    | combine label children inductionHypothesis =>
      cases agree with
      | intro id name line text forest =>
        obtain ⟨length, all⟩ := List.forall₂_iff_zip.mp forest
        have labels : label = right.label := by
          obtain ⟨⟨_, _, _, _⟩, _⟩ := right
          cases label
          rw [Label.mk.injEq]
          exact ⟨id, name, line, text⟩
        rw [eq_iff, eq_iff_zip]
        refine ⟨labels, length, ?_⟩
        rintro ⟨one, other⟩ member
        exact inductionHypothesis one (List.of_mem_zip member).1 other (all member)
  · rintro rfl
    induction left using children_induction with
    | combine label children inductionHypothesis =>
      refine .intro rfl rfl rfl rfl ?_
      exact List.forall₂_same.mpr inductionHypothesis

/-- The comparison succeeds if the trees of every pending pair are the same. -/
theorem sameAll_iff (pending : List (Node × Node)) :
    sameAll pending = true ↔ ∀ pair ∈ pending, pair.1 = pair.2 := by
  fun_induction sameAll pending with
  | case1 => simp
  | case2 left right pending alike inductionHypothesis =>
    have roots : left = right ↔
        ∀ pair ∈ (left.children.zip right.children).reverse, pair.1 = pair.2 := by
      simp only [List.mem_reverse]
      rw [eq_iff, eq_iff_zip, and_iff_right alike.1, and_iff_right alike.2]
    rw [inductionHypothesis, List.forall_mem_append, List.forall_mem_cons, roots]
  | case3 left right pending differ =>
    rw [List.forall_mem_cons, eq_iff, eq_iff_zip]
    constructor
    · intro impossible
      cases impossible
    · rintro ⟨⟨label, length, -⟩, -⟩
      exact absurd ⟨label, length⟩ differ

/-- A copy is never short of results, neither by itself nor among other work, and is the tree
itself. The comparison of two trees succeeds exactly if they match throughout, which is to say
that they are the same. -/
theorem copy_and_comparison_are_exact (root other : Node) :
    (∀ built pending, foldSteps? Node.mk built (.enter root :: pending) =
      foldSteps? Node.mk (root :: built) pending) ∧
    root.copy? = some root ∧
    ((root == other) = true ↔ root.Matches other) ∧ (root.Matches other ↔ root = other) := by
  have compared : (root == other) = true ↔ root = other := by
    have single : (root == other) = true ↔ ∀ pair ∈ [(root, other)], pair.1 = pair.2 :=
      sameAll_iff _
    rw [single, List.forall_mem_singleton]
  refine ⟨fun built pending => ?_, ?_, ?_, matches_iff_eq root other⟩
  · rw [foldSteps?_enter, fold_mk]
  · rw [copy?, foldUp?_eq_fold, fold_mk]
  · rw [compared, matches_iff_eq]

end Node

end TableDriven
