import TableDriven.Proofs.Tree.Copies
import TableDriven.Proofs.Tree.Traversal

/-!
# What the display form tells of a tree

The display form shows everything of a node but its number. Its depth is shown by the blanks in
front of its line, and the other fields by the caption, which can be read back if names keep to
themselves: they must not begin like the blanks or like the caption of a branch, and must not
contain what ends a name in a caption. Texts may be anything, since they are quoted.

The depths hold the nesting. In the order of the walk a node is followed by everything below it,
and this goes on as long as the nodes stand deeper. So the lines tell which nodes are the children
of which, and trees that are displayed alike are the same but for their numbers.
-/

namespace TableDriven

/-- A label without its number. -/
def Label.unnumbered (label : Label) : Label := { label with id := 0 }

/-- Labels are the same without their numbers if all other fields are the same. -/
theorem Label.unnumbered_eq_iff (label other : Label) :
    label.unnumbered = other.unnumbered ↔
      label.name = other.name ∧ label.line = other.line ∧ label.text = other.text := by
  rw [unnumbered, unnumbered, Label.mk.injEq, eq_self, true_and]

namespace Node

/-- A name that keeps to itself in a caption: it begins neither with a blank nor with the bracket
before the name of a branch, and has no mark of quoted text, no closing bracket and no line
end. -/
structure PlainName (name : String) : Prop where
  nonempty : name.toList ≠ []
  unblank : name.toList.head? ≠ some ' '
  unbranched : name.toList.head? ≠ some '<'
  unquoted : '"' ∉ name.toList
  unbracketed : '>' ∉ name.toList
  inline : '\n' ∉ name.toList

instance (name : String) : Decidable (PlainName name) :=
  decidable_of_iff (name.toList ≠ [] ∧ name.toList.head? ≠ some ' ' ∧
      name.toList.head? ≠ some '<' ∧ '"' ∉ name.toList ∧ '>' ∉ name.toList ∧
      '\n' ∉ name.toList)
    ⟨fun ⟨nonempty, unblank, unbranched, unquoted, unbracketed, inline⟩ =>
        ⟨nonempty, unblank, unbranched, unquoted, unbracketed, inline⟩,
      fun plain => ⟨plain.nonempty, plain.unblank, plain.unbranched, plain.unquoted,
        plain.unbracketed, plain.inline⟩⟩

/-- A tree of which all names keep to themselves. -/
def PlainlyNamed (root : Node) : Prop := ∀ node ∈ root.preorder, PlainName node.label.name

/-- A tree without its numbers. -/
def unnumbered (root : Node) : Node :=
  root.fold fun label children => ⟨label.unnumbered, children⟩

/-- The labels of a tree that stands at a depth, with their depths, in the order of the walk. -/
def outline (depth : Nat) (root : Node) : List (Label × Nat) :=
  (root.nested depth).map fun pair => (pair.1.label, pair.2)

/-- The characters of a line of the display form, without its end. -/
def lineOf (entry : Label × Nat) : List Char :=
  List.replicate (2 * entry.2) ' ' ++ (caption entry.1).toList

variable {label other : Label} {depth : Nat}

/-- A root stands before what is below it, one level higher. -/
theorem outline_eq (depth : Nat) (root : Node) :
    root.outline depth = (root.label, depth) :: root.children.flatMap (outline (depth + 1)) := by
  rw [outline, nested_eq, List.map_cons, List.map_flatMap]
  rfl

/-- The display form is the lines of the outline, each with its end. -/
theorem toList_display (root : Node) :
    root.display.toList = ((root.outline 0).map lineOf).flatMap (· ++ ['\n']) := by
  rw [display, walk_eq_nested, String.toList_join, outline]
  simp only [List.flatMap_map, displayLine_eq, lineOf, indentation, String.toList_append,
    String.toList_ofList]
  rfl

/-- The outline of a tree has no other names than the tree. -/
theorem PlainlyNamed.outline {root : Node} (plain : root.PlainlyNamed) :
    ∀ entry ∈ root.outline 0, PlainName entry.1.name := by
  intro entry listed
  obtain ⟨pair, member, rfl⟩ := List.mem_map.mp listed
  rw [← walk_eq_nested] at member
  exact plain pair.1 (List.mem_map_of_mem member)

/-- The numbers are taken off a node and off its children. -/
theorem unnumbered_eq (label : Label) (children : List Node) :
    unnumbered ⟨label, children⟩ = ⟨label.unnumbered, children.map unnumbered⟩ := by
  rw [unnumbered, fold, foldAll_eq_map]
  rfl

/-- Trees are the same without their numbers if their roots and their children are. -/
theorem unnumbered_eq_iff (root other : Node) :
    root.unnumbered = other.unnumbered ↔
      root.label.unnumbered = other.label.unnumbered ∧
        root.children.map unnumbered = other.children.map unnumbered := by
  obtain ⟨label, children⟩ := root
  obtain ⟨label', children'⟩ := other
  rw [unnumbered_eq, unnumbered_eq, Node.mk.injEq]

/-- Taking the numbers off the tree takes them off its outline. -/
theorem outline_unnumbered (root : Node) (depth : Nat) :
    root.unnumbered.outline depth =
      (root.outline depth).map fun entry => (entry.1.unnumbered, entry.2) := by
  induction root using children_induction generalizing depth with
  | combine label children inductionHypothesis =>
    have below : (children.map unnumbered).flatMap (outline (depth + 1)) =
        (children.flatMap (outline (depth + 1))).map fun entry =>
          (entry.1.unnumbered, entry.2) := by
      rw [List.flatMap_map, List.map_flatMap]
      exact List.flatMap_congr fun child member => inductionHypothesis child member (depth + 1)
    rw [unnumbered_eq, outline_eq, outline_eq, List.map_cons, below]

/-- What follows a tree that stands at a depth stands no deeper. -/
def Behind (depth : Nat) (rest : List (Label × Nat)) : Prop := ∀ entry ∈ rest.head?, entry.2 ≤ depth

/-- What follows trees that stand at a depth follows the first of them, no deeper. -/
theorem Behind.outlines {rest : List (Label × Nat)} (behind : Behind depth rest)
    (forest : List Node) :
    Behind (depth + 1) (forest.flatMap (outline (depth + 1)) ++ rest) := by
  intro entry first
  cases forest with
  | nil => exact Nat.le_succ_of_le (behind entry first)
  | cons node others =>
    rw [List.flatMap_cons, outline_eq] at first
    obtain rfl := Option.some.inj first
    exact Nat.le_refl _

/-- What stands no deeper than a node is nothing below it. -/
theorem Behind.ne_outlines {rest further : List (Label × Nat)} (behind : Behind depth rest)
    (node : Node) (others : List Node) :
    rest ≠ (node :: others).flatMap (outline (depth + 1)) ++ further := by
  rintro rfl
  have deeper := behind (node.label, depth + 1)
  rw [List.flatMap_cons, outline_eq] at deeper
  exact absurd (deeper rfl) (Nat.not_succ_le_self depth)

/-- Several trees below a node are read off their outline, whatever follows that stands no deeper
than the node, if each of them is. -/
theorem outlines_unique {children others : List Node} {rest further : List (Label × Nat)}
    (each : ∀ child ∈ children, ∀ (other : Node) (rest further : List (Label × Nat)),
      Behind (depth + 1) rest → Behind (depth + 1) further →
      child.outline (depth + 1) ++ rest = other.outline (depth + 1) ++ further →
      child = other ∧ rest = further)
    (behind : Behind depth rest) (beyond : Behind depth further)
    (same : children.flatMap (outline (depth + 1)) ++ rest =
      others.flatMap (outline (depth + 1)) ++ further) :
    children = others ∧ rest = further := by
  induction children generalizing others with
  | nil =>
    cases others with
    | nil => exact ⟨rfl, same⟩
    | cons other others => exact absurd same (behind.ne_outlines other others)
  | cons child children inductionHypothesis =>
    cases others with
    | nil => exact absurd same.symm (beyond.ne_outlines child children)
    | cons other others =>
      -- The first child is followed by its siblings, which stand as deep as it does.
      rw [List.flatMap_cons, List.flatMap_cons, List.append_assoc, List.append_assoc] at same
      obtain ⟨rfl, siblings⟩ := each child List.mem_cons_self other _ _
        (behind.outlines children) (beyond.outlines others) same
      obtain ⟨rfl, rests⟩ := inductionHypothesis
        (fun sibling member => each sibling (List.mem_cons_of_mem child member)) siblings
      exact ⟨rfl, rests⟩

/-- A tree at a depth is read off its outline, whatever follows that stands no deeper. -/
theorem outline_unique (root other : Node) (depth : Nat) (rest further : List (Label × Nat))
    (behind : Behind depth rest) (beyond : Behind depth further)
    (same : root.outline depth ++ rest = other.outline depth ++ further) :
    root = other ∧ rest = further := by
  induction root using children_induction generalizing other depth rest further with
  | combine label children inductionHypothesis =>
    obtain ⟨label', others⟩ := other
    rw [outline_eq, outline_eq, List.cons_append, List.cons_append] at same
    obtain ⟨heads, tails⟩ := List.cons.inj same
    obtain rfl : label = label' := (Prod.mk.inj heads).1
    have each (child : Node) (member : child ∈ children) (other : Node) :=
      inductionHypothesis child member other (depth + 1)
    obtain ⟨rfl, rests⟩ := outlines_unique each behind beyond tails
    exact ⟨rfl, rests⟩

/-- A caption begins with no blank, and if it is the caption of a leaf not like that of a
branch. -/
theorem caption_begins (plain : PlainName label.name) :
    ∃ first rest, (caption label).toList = first :: rest ∧ first ≠ ' ' ∧
      (first = '<' ↔ label.text = none) := by
  cases found : label.text with
  | none => exact ⟨'<', _, toList_caption_of_none found, by decide, by simp⟩
  | some text =>
    obtain ⟨first, rest, spelled⟩ := List.exists_cons_of_ne_nil plain.nonempty
    have unblank : first ≠ ' ' := by
      simpa [spelled] using plain.unblank
    have unbranched : first ≠ '<' := by
      simpa [spelled] using plain.unbranched
    rw [toList_caption_of_some found, spelled]
    exact ⟨first, _, rfl, unblank, by simp [unbranched]⟩

/-- A caption tells everything but the number. -/
theorem caption_unique (plain : PlainName label.name) (clear : PlainName other.name)
    (same : (caption label).toList = (caption other).toList) :
    label.unnumbered = other.unnumbered := by
  have decimal : Function.Injective (Nat.toDigits 10) :=
    Text.toDigits_injective (by decide) (by decide)
  have kinds : label.text = none ↔ other.text = none := by
    obtain ⟨first, rest, own, -, branch⟩ := caption_begins plain
    obtain ⟨first', rest', others, -, branch'⟩ := caption_begins clear
    rw [own, others] at same
    rw [← branch, ← branch', (List.cons.inj same).1]
  cases found : label.text with
  | none =>
    -- The first closing bracket ends the name.
    have none := kinds.mp found
    rw [toList_caption_of_none found, toList_caption_of_none none] at same
    obtain ⟨names, tails⟩ :=
      Text.split_unique plain.unbracketed clear.unbracketed (List.cons.inj same).2
    have lines := decimal (List.cons.inj (List.cons.inj tails).2).2
    exact (Label.unnumbered_eq_iff label other).mpr
      ⟨String.toList_inj.mp names, lines, found.trans none.symm⟩
  | some text =>
    -- The first mark of quoted text ends the name.
    obtain ⟨text', found'⟩ : ∃ text', other.text = some text' := by
      rw [← Option.ne_none_iff_exists', ne_eq, ← kinds, found]
      exact Option.some_ne_none text
    rw [toList_caption_of_some found, toList_caption_of_some found'] at same
    have unquoted {name : String} (plain : PlainName name) : '"' ∉ name.toList ++ [' '] := by
      simpa using plain.unquoted
    obtain ⟨names, rfl, tails⟩ := Text.quoted_unique (unquoted plain) (unquoted clear) same
    have lines := decimal (List.cons.inj (List.cons.inj tails).2).2
    exact (Label.unnumbered_eq_iff label other).mpr
      ⟨String.toList_inj.mp (List.append_cancel_right names), lines, found.trans found'.symm⟩

/-- Blanks in front of something else are counted in one way. -/
theorem blanks_unique {number count : Nat} {first second : Char} {rest further : List Char}
    (shown : first ≠ ' ') (visible : second ≠ ' ')
    (same : List.replicate number ' ' ++ first :: rest =
      List.replicate count ' ' ++ second :: further) :
    number = count ∧ first :: rest = second :: further := by
  induction number generalizing count with
  | zero =>
    cases count with
    | zero => exact ⟨rfl, same⟩
    | succ count => exact absurd (List.cons.inj same).1 shown
  | succ number inductionHypothesis =>
    cases count with
    | zero => exact absurd (List.cons.inj same).1.symm visible
    | succ count =>
      obtain ⟨counts, rests⟩ := inductionHypothesis (List.cons.inj same).2
      exact ⟨congrArg (· + 1) counts, rests⟩

/-- A line of the display form tells the depth of its node and everything of its label but the
number. -/
theorem lineOf_eq_iff {entry another : Label × Nat} (plain : PlainName entry.1.name)
    (clear : PlainName another.1.name) :
    lineOf entry = lineOf another ↔
      (entry.1.unnumbered, entry.2) = (another.1.unnumbered, another.2) := by
  constructor
  · intro same
    obtain ⟨first, rest, own, shown, -⟩ := caption_begins plain
    obtain ⟨first', rest', others, visible, -⟩ := caption_begins clear
    have spelled := same
    rw [lineOf, lineOf, own, others] at spelled
    obtain ⟨depths, captions⟩ := blanks_unique shown visible spelled
    rw [← own, ← others] at captions
    rw [caption_unique plain clear captions, Nat.eq_of_mul_eq_mul_left (by decide) depths]
  · intro same
    -- A caption has no number in it.
    have read (entry : Label × Nat) : lineOf entry = lineOf (entry.1.unnumbered, entry.2) := rfl
    rw [read entry, read another, same]

/-- A line of the display form is one line. -/
theorem newline_notMem_lineOf {entry : Label × Nat} (plain : PlainName entry.1.name) :
    '\n' ∉ lineOf entry := by
  rw [lineOf, List.mem_append, newline_mem_caption]
  rintro (blank | inside)
  · exact absurd (List.eq_of_mem_replicate blank) (by decide)
  · exact plain.inline inside

/-- Lines are told apart by their ends. -/
theorem lines_unique {lines others : List (List Char)} (flat : ∀ line ∈ lines, '\n' ∉ line)
    (even : ∀ line ∈ others, '\n' ∉ line)
    (same : lines.flatMap (· ++ ['\n']) = others.flatMap (· ++ ['\n'])) : lines = others := by
  induction lines generalizing others with
  | nil =>
    cases others with
    | nil => rfl
    | cons other others => simp at same
  | cons line lines inductionHypothesis =>
    cases others with
    | nil => simp at same
    | cons other others =>
      obtain ⟨own, later⟩ := List.forall_mem_cons.mp flat
      obtain ⟨another, rest⟩ := List.forall_mem_cons.mp even
      simp only [List.flatMap_cons, List.append_assoc, List.singleton_append] at same
      obtain ⟨rfl, tails⟩ := Text.split_unique own another same
      rw [inductionHypothesis later rest tails]

/-- What tells one list of things apart from another tells apart what is made of them. -/
theorem map_eq_map_iff {α β γ : Type} {one other : List α} {shown : α → β} {kept : α → γ}
    (tells : ∀ value ∈ one, ∀ another ∈ other, shown value = shown another ↔
      kept value = kept another) :
    one.map shown = other.map shown ↔ one.map kept = other.map kept := by
  induction one generalizing other with
  | nil =>
    cases other with
    | nil => simp
    | cons another others => simp
  | cons value values inductionHypothesis =>
    cases other with
    | nil => simp
    | cons another others =>
      have heads := tells value List.mem_cons_self another List.mem_cons_self
      have tails := inductionHypothesis fun value member another among =>
        tells value (List.mem_cons_of_mem _ member) another (List.mem_cons_of_mem _ among)
      rw [List.map_cons, List.map_cons, List.map_cons, List.map_cons, List.cons.injEq,
        List.cons.injEq, heads, tails]

/-- Every line of the display form is one line. -/
theorem PlainlyNamed.flat {root : Node} (plain : root.PlainlyNamed) :
    ∀ line ∈ (root.outline 0).map lineOf, '\n' ∉ line := by
  intro line member
  obtain ⟨entry, among, rfl⟩ := List.mem_map.mp member
  exact newline_notMem_lineOf (plain.outline entry among)

/-- Trees whose names keep to themselves are displayed alike exactly if they are the same but for
their numbers. -/
theorem display_eq_iff {root other : Node} (plain : root.PlainlyNamed)
    (clear : other.PlainlyNamed) :
    root.display = other.display ↔ root.unnumbered = other.unnumbered := by
  calc root.display = other.display
      ↔ ((root.outline 0).map lineOf).flatMap (· ++ ['\n']) =
          ((other.outline 0).map lineOf).flatMap (· ++ ['\n']) := by
        rw [← String.toList_inj, toList_display, toList_display]
    _ ↔ (root.outline 0).map lineOf = (other.outline 0).map lineOf :=
        ⟨lines_unique plain.flat clear.flat, fun same => by rw [same]⟩
    _ ↔ root.unnumbered.outline 0 = other.unnumbered.outline 0 := by
        rw [outline_unnumbered, outline_unnumbered]
        exact map_eq_map_iff fun entry member another among =>
          lineOf_eq_iff (plain.outline entry member) (clear.outline another among)
    _ ↔ root.unnumbered = other.unnumbered := by
        refine ⟨fun same => ?_, fun same => by rw [same]⟩
        -- Nothing follows a whole tree.
        have nothing : Behind 0 [] := nofun
        refine (outline_unique _ _ 0 [] [] nothing nothing ?_).1
        rw [same]

end Node

end TableDriven
