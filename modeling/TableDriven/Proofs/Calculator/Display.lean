import TableDriven.Proofs.Calculator.Outcomes
import TableDriven.Proofs.Tree.Outline

/-!
# Displayed trees of the calculator

The display form shows no numbers, but those of a parsed tree can be told from what it shows. A
leaf is numbered by its symbol, and every symbol has a name of its own. A branch is numbered by
its rule, and the rules of a head are told apart by their bodies even if only the terminals among
the symbols are shown. Trimming puts the branch of one rule in the place of another, but below
the branch that is left there is still what the body of its own rule asks for: leaves of the same
terminals in the same places, and branches in the others.
-/

namespace TableDriven.Calculator

/-- What stands for a symbol, with the numbers and the names that the tables give: the leaf of a
terminal, or for the head of a rule the branch of any rule, above what stands for its body. -/
inductive Numbered : SymbolId → Node → Prop where
  | token (symbol : Symbol) (listed : symbol ∈ symbols) (terminal : ¬ IsHead symbol.id)
      (line : Nat) (text : String) :
      Numbered symbol.id (.leaf symbol.id symbol.name line text)
  | rule (symbol : SymbolId) (head : IsHead symbol) (rule : Rule) (given : rule ∈ rules)
      (named : Symbol) (listed : named ∈ symbols) (own : named.id = rule.head) (line : Nat)
      (children : List Node) (forest : List.Forall₂ Numbered rule.body children) :
      Numbered symbol (.branch rule.id named.name line children)

/-- What the display form shows of a symbol in a body: a terminal, but not which head. -/
def shown (symbol : SymbolId) : Option SymbolId := if IsHead symbol then none else some symbol

/-- Symbols have different names. -/
theorem symbol_of_name : ∀ symbol ∈ symbols, ∀ other ∈ symbols,
    symbol.name = other.name → symbol = other := by
  decide

/-- No name of a symbol gets in the way of the display form. -/
theorem plainName_of_mem : ∀ symbol ∈ symbols, Node.PlainName symbol.name := by
  decide

/-- Rules with the same head have bodies of which different things are shown. -/
theorem rule_of_shown : ∀ rule ∈ rules, ∀ other ∈ rules,
    rule.head = other.head → rule.body.map shown = other.body.map shown → rule = other := by
  decide

namespace Numbered

variable {symbol another : SymbolId} {tree other : Node} {body spelled : List SymbolId}
  {children forest : List Node}

/-- Every child stands for a symbol of the body. -/
theorem of_mem (all : List.Forall₂ Numbered body children) :
    ∀ child ∈ children, ∃ symbol, Numbered symbol child := by
  induction all with
  | nil => nofun
  | cons first rest inductionHypothesis =>
    rw [List.forall_mem_cons]
    exact ⟨⟨_, first⟩, inductionHypothesis⟩

/-- All names in the tree are names of symbols. Induct on the tree. -/
theorem plainlyNamed (numbered : Numbered symbol tree) : tree.PlainlyNamed := by
  induction tree using Node.children_induction generalizing symbol with
  | combine label children inductionHypothesis =>
    rw [Node.PlainlyNamed, Node.preorder_eq, List.forall_mem_cons, List.forall_mem_flatMap]
    cases numbered with
    | token symbol listed terminal line text => exact ⟨plainName_of_mem symbol listed, nofun⟩
    | rule symbol head rule given named listed own line children all =>
      refine ⟨plainName_of_mem named listed, fun child member => ?_⟩
      obtain ⟨below, stands⟩ := of_mem all child member
      exact inductionHypothesis child member stands

/-- Trees that are the same without their numbers stand for symbols of which the same is
shown. -/
theorem shown_eq (numbered : Numbered symbol tree) (again : Numbered another other)
    (same : tree.unnumbered = other.unnumbered) : shown symbol = shown another := by
  obtain ⟨labels, -⟩ := (Node.unnumbered_eq_iff tree other).mp same
  obtain ⟨names, -, texts⟩ := (Label.unnumbered_eq_iff _ _).mp labels
  cases numbered with
  | token symbol listed terminal line text =>
    cases again with
    | token symbol' listed' => rw [symbol_of_name symbol listed symbol' listed' names]
    | rule => cases texts
  | rule symbol head =>
    cases again with
    | token => cases texts
    | rule symbol' head' => rw [shown, shown, if_pos head, if_pos head']

/-- Forests that are the same without their numbers stand for bodies of which the same is shown,
and are the same if that holds of each child. -/
theorem forests_unique (all : List.Forall₂ Numbered body children)
    (others : List.Forall₂ Numbered spelled forest)
    (each : ∀ child ∈ children, ∀ symbol another other, Numbered symbol child →
      Numbered another other → child.unnumbered = other.unnumbered → child = other)
    (same : children.map Node.unnumbered = forest.map Node.unnumbered) :
    body.map shown = spelled.map shown ∧ children = forest := by
  induction all generalizing spelled forest with
  | nil =>
    cases others with
    | nil => exact ⟨rfl, rfl⟩
    | cons => contradiction
  | @cons symbol child body children first rest inductionHypothesis =>
    cases others with
    | nil => contradiction
    | @cons another other spelled forest second further =>
      obtain ⟨alike, siblings⟩ := List.cons.inj same
      obtain ⟨bodies, trees⟩ := inductionHypothesis further
        (fun sibling member => each sibling (List.mem_cons_of_mem child member)) siblings
      have own := each child List.mem_cons_self symbol another other first second alike
      rw [List.map_cons, List.map_cons, first.shown_eq second alike, bodies, own, trees]
      exact ⟨rfl, rfl⟩

/-- The numbers of a tree follow from everything else. Induct on the tree: a leaf is known by its
name, and a branch by its name and by what is shown below it. -/
theorem unique (numbered : Numbered symbol tree) (again : Numbered another other)
    (same : tree.unnumbered = other.unnumbered) : tree = other := by
  induction tree using Node.children_induction generalizing symbol another other with
  | combine label children inductionHypothesis =>
    obtain ⟨labels, siblings⟩ := (Node.unnumbered_eq_iff _ other).mp same
    obtain ⟨names, lines, texts⟩ := (Label.unnumbered_eq_iff _ _).mp labels
    cases numbered with
    | token symbol listed terminal line text =>
      cases again with
      | token symbol' listed' terminal' line' text' =>
        obtain rfl := symbol_of_name symbol listed symbol' listed' names
        obtain rfl : line = line' := lines
        obtain rfl : text = text' := Option.some.inj texts
        rfl
      | rule => cases texts
    | rule symbol head rule given named listed own line children all =>
      cases again with
      | token => cases texts
      | rule symbol' head' rule' given' named' listed' own' line' children' all' =>
        obtain ⟨bodies, rfl⟩ := forests_unique all all'
          (fun child member symbol another other => inductionHypothesis child member) siblings
        obtain rfl := symbol_of_name named listed named' listed' names
        obtain rfl := rule_of_shown rule given rule' given' (own.symm.trans own') bodies
        obtain rfl : line = line' := lines
        rfl

end Numbered

/-- The rules make numbered trees of numbered trees, with trimming and without. -/
theorem composes_numbered : grammar.Composes Numbered where
  branch id rule head line children looked named bodied forest := by
    obtain ⟨given, rfl⟩ := mem_of_rule looked
    obtain ⟨listed, own⟩ := mem_of_symbol named
    exact .rule rule.head (shaped_of_mem rule given).1 rule given head listed own line children
      forest
  unit id rule only symbol child looked single named kind numbered := by
    have heads : IsHead rule.head := (shaped_of_mem rule (mem_of_rule looked).1).1
    cases numbered with
    | token symbol listed terminal =>
      exact absurd (head_of_nonterminal named kind) terminal
    | rule only head below given named listed own line children forest =>
      exact .rule rule.head heads below given named listed own line children forest
  empty id rule head line name text looked named bodiless := by
    exact absurd bodiless (body_ne_nil rule (mem_of_rule looked).1)

/-- The symbols of tokens are symbols of the tables. -/
theorem mem_of_labels {recover : Bool} {symbol : Symbol}
    (labels : Scan.Labels grammar (errorSymbol recover) symbol) : symbol ∈ symbols := by
  cases labels with
  | accepted id symbol accepts named => exact (mem_of_symbol named).1
  | recovered error symbol given named =>
    cases recover with
    | false => contradiction
    | true =>
      obtain rfl := Option.some.inj given
      obtain rfl := Except.ok.inj named
      decide
  | faulty => decide

variable {input text : Array UInt8} {options flags : Options} {limit enough : Nat}
  {tree other : Node}

/-- The leaves of the tokens in store are numbered by their symbols. -/
theorem offers_numbered {tokens : List Token} {ending : Ending}
    (upcoming : Upcoming grammar (errorSymbol options.recover) none 0 (ByteSource.ofBytes input)
      tokens ending) : (automatonOf options).Offers Numbered ending tokens where
  stored token member := by
    have labels := upcoming.labels wellFormed_tables (errorSymbol_lt options.recover) (by simp)
      token member
    exact .token token.symbol (mem_of_labels labels) (labels_facts labels).1 token.line token.text
  last token complete := by
    subst complete
    obtain ⟨line, rfl⟩ := upcoming.eq_endToken
    exact .token ⟨Symbols.endOfInput, .endOfInput, "EOF"⟩ (by decide) (by decide) line "EOF"
  error error symbol line recovers named := by
    have labels : Scan.Labels grammar (errorSymbol options.recover) symbol :=
      .recovered error symbol recovers named
    exact .token symbol (mem_of_labels labels) (labels_facts labels).1 line "error"

/-- The tree of a calculation is numbered by the tables. -/
theorem numbered_of_parse (parsed : parse input options limit = .done tree) :
    Numbered Symbols.expr tree :=
  fits_of_parse composes_numbered offers_numbered parsed

/-- Trees that are displayed alike are the same, with all numbers, whatever texts they were parsed
from and whether or not the parses trimmed and recovered. -/
theorem display_determines_tree (parsed : parse input options limit = .done tree)
    (again : parse text flags enough = .done other) (same : tree.display = other.display) :
    tree = other := by
  have one := numbered_of_parse parsed
  have two := numbered_of_parse again
  exact one.unique two ((Node.display_eq_iff one.plainlyNamed two.plainlyNamed).mp same)

/-- A sum that is parsed strictly and the same sum with a blank in it that is parsed with recovery
are displayed alike. -/
theorem display_determines_tree_of_sum :
    ∃ tree other,
      parse #[49, 43, 50] ⟨true, false⟩ 60 = .done tree ∧
      parse #[49, 32, 43, 50] ⟨true, true⟩ 60 = .done other ∧
      tree.display = other.display ∧ tree = other := by
  have displayed : (parse #[49, 43, 50] ⟨true, false⟩ 60).andThen (fun tree => .ok tree.display) =
      (parse #[49, 32, 43, 50] ⟨true, true⟩ 60).andThen fun tree => .ok tree.display := by
    rw [funext Node.display_eq_rendered]
    decide +kernel
  have strict : ∃ tree, parse #[49, 43, 50] ⟨true, false⟩ 60 = .done tree := ⟨_, rfl⟩
  have recovering : ∃ other, parse #[49, 32, 43, 50] ⟨true, true⟩ 60 = .done other := ⟨_, rfl⟩
  obtain ⟨tree, parsed⟩ := strict
  obtain ⟨other, again⟩ := recovering
  rw [parsed, again] at displayed
  have same : tree.display = other.display := Outcome.done.inj displayed
  exact ⟨tree, other, parsed, again, same, display_determines_tree parsed again same⟩

end TableDriven.Calculator
