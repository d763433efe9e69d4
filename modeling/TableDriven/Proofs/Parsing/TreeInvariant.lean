import Mathlib.Data.List.Forall2
import TableDriven.Proofs.Grammar.Paths
import TableDriven.Proofs.Parsing.StackPath
import TableDriven.Proofs.Parsing.Yields

/-!
# What holds of every tree on the stack

A tree stands on the stack for a symbol. Suppose that what fits a symbol is closed under
the rules: trees that fit the symbols of a body make a tree that fits the head, as it is
put together with or without trimming. Suppose too that the leaves of all tokens fit the
symbols of these. Then with consistent tables every tree on the stack fits its symbol, and
an accepted tree fits the start symbol. Recovery takes trees off and puts in the leaf of
the error terminal, which has to fit as well.
-/

namespace TableDriven

namespace Stack

/-- The symbols above the lowest entry, in the order in which they were pushed. -/
def labels (stack : Stack) : List SymbolId :=
  (stack.dropLast.map fun entry => entry.token.symbol.id).reverse

/-- A pushed entry has the last symbol. -/
theorem labels_cons (entry : Entry) {below : Stack} (left : below ≠ []) :
    labels (entry :: below) = below.labels ++ [entry.token.symbol.id] := by
  rw [labels, List.dropLast_cons_of_ne_nil left, List.map_cons, List.reverse_cons]
  rfl

/-- A handle has the last symbols. -/
theorem labels_handle (handle : List Entry) {rest : Stack} (left : rest ≠ []) :
    labels (handle.reverse ++ rest) =
      rest.labels ++ handle.map fun entry => entry.token.symbol.id := by
  rw [labels, List.dropLast_append_of_ne_nil left, List.map_append, List.reverse_append,
    List.map_reverse, List.reverse_reverse]
  rfl

/-- There is a symbol for every entry but the lowest. -/
theorem length_labels (stack : Stack) : stack.labels.length = stack.length - 1 := by
  rw [labels, List.length_reverse, List.length_map, List.length_dropLast]

end Stack

namespace StackPath

variable {grammar : Grammar} {state : LalrStateId} {stack : Stack}

/-- A stack that is a path spells the labels of its path. -/
theorem labelled (path : StackPath grammar state stack) : grammar.Path stack.labels state := by
  induction path with
  | start => exact .start
  | extend target entry node below carried moved path inductionHypothesis =>
    rw [Stack.labels_cons entry path.ne_nil]
    exact .extend _ _ _ target inductionHypothesis moved

/-- With consistent tables the symbols on a stack whose state reduces end with the body of
the rule. -/
theorem body_suffix (path : StackPath grammar state stack) (consistent : grammar.Consistent)
    {symbol : SymbolId} {id : RuleId} {rule : Rule}
    (listed : grammar.actionOn state symbol = .ok (some (.reduce id)))
    (looked : grammar.rule id = .ok rule) : rule.body <:+ stack.labels :=
  consistent.handles stack.labels state symbol id rule path.labelled listed looked

/-- With consistent tables a handle has the symbols of the body. -/
theorem body_eq {handle : List Entry} {rest : Stack}
    (path : StackPath grammar state (handle.reverse ++ rest)) (consistent : grammar.Consistent)
    {symbol : SymbolId} {id : RuleId} {rule : Rule}
    (listed : grammar.actionOn state symbol = .ok (some (.reduce id)))
    (looked : grammar.rule id = .ok rule) (fits : handle.length = rule.body.length)
    (left : rest ≠ []) : (handle.map fun entry => entry.token.symbol.id) = rule.body := by
  have ends := path.body_suffix consistent listed looked
  rw [Stack.labels_handle handle left] at ends
  have same : (handle.map fun entry => entry.token.symbol.id).length = rule.body.length := by
    rw [List.length_map, fits]
  have shorter := List.suffix_of_suffix_length_le ends (List.suffix_append _ _)
    (Nat.le_of_eq same.symm)
  exact (shorter.eq_of_length same.symm).symm

/-- With consistent tables only the start symbol stands on the stack of a machine that
accepts and has a root. -/
theorem start_of_root {machine : Machine} {symbol : SymbolId} {tree : Node}
    (path : StackPath grammar machine.state machine.stack) (consistent : grammar.Consistent)
    (listed : grammar.actionOn machine.state symbol = .ok (some .accept))
    (root : machine.root = .ok tree) :
    ∃ entry ∈ machine.stack, entry.node = some tree ∧
      entry.token.symbol.id = grammar.tables.startSymbol := by
  obtain ⟨entry, lowest, two, carried, -, moved⟩ := path.stack_of_root root
  rw [two]
  exact ⟨entry, List.mem_cons_self, carried, consistent.accepts _ _ _ moved listed⟩

end StackPath

/-- Every tree on a stack fits the symbol it stands for. -/
def Stack.Fit (fits : SymbolId → Node → Prop) (stack : Stack) : Prop :=
  ∀ entry ∈ stack, ∀ node ∈ entry.node, fits entry.token.symbol.id node

/-- What fits symbols is closed under the rules. The branch above trees that fit the
symbols of a body fits the head, and so does the branch of a rule with an empty body.
What fits the only nonterminal of a body fits the head, since trimming lets it stand for
the head. -/
structure Grammar.Composes (grammar : Grammar) (fits : SymbolId → Node → Prop) : Prop where
  branch : ∀ id rule head line children, grammar.rule id = .ok rule →
    grammar.symbol rule.head = .ok head → rule.body ≠ [] →
    List.Forall₂ fits rule.body children → fits rule.head (.branch id head.name line children)
  unit : ∀ id rule only symbol child, grammar.rule id = .ok rule → rule.body = [only] →
    grammar.symbol only = .ok symbol → symbol.kind = .nonterminal → fits only child →
    fits rule.head child
  empty : ∀ id rule head line name text, grammar.rule id = .ok rule →
    grammar.symbol rule.head = .ok head → rule.body = [] →
    fits rule.head (.branch id head.name line [.leaf 0 name line text])

/-- The tree that is put together for the head of a rule is a branch, or trimming lets the
tree of the only nonterminal of the body stand for the head. -/
theorem Automaton.assemble_cases {automaton : Automaton} {id : RuleId} {rule : Rule}
    {head : Symbol} {trimmed : Bool} (lookahead : Token) {children : List Node}
    (planned : automaton.plan id = .ok (rule, head, trimmed))
    (fits : children.length = rule.body.length) :
    (∃ line, (assemble id head lookahead trimmed children).1 =
        .branch id head.name line children) ∨
      ∃ only symbol child, rule.body = [only] ∧ children = [child] ∧
        automaton.grammar.symbol only = .ok symbol ∧ symbol.kind = .nonterminal ∧
        (assemble id head lookahead trimmed children).1 = child := by
  obtain ⟨-, -, verdict⟩ := plan_eq_ok.mp planned
  cases trimmed with
  | false => exact .inl ⟨_, rfl⟩
  | true =>
    unfold trims at verdict
    split at verdict
    · rename_i only _ single
      rw [single] at fits
      obtain ⟨child, rfl⟩ := List.length_eq_one_iff.mp fits
      cases named : automaton.grammar.symbol only with
      | error defect => simp [named, Except.map] at verdict
      | ok symbol =>
        have kind : symbol.kind = .nonterminal := by simpa [named, Except.map] using verdict
        exact .inr ⟨only, symbol, child, single, rfl, named, kind, rfl⟩
    · simp at verdict

namespace Stack.Fit

variable {automaton : Automaton} {machine after : Machine} {token next : Token}
  {fits : SymbolId → Node → Prop}

/-- Pushing a tree that fits. -/
theorem enter (all : machine.stack.Fit fits) (target : LalrStateId) {node : Node}
    (own : fits token.symbol.id node) : (machine.enter target token node).stack.Fit fits := by
  intro entry member
  rcases List.mem_cons.mp member with rfl | below
  · intro other carried
    obtain rfl := Option.some.inj carried
    exact own
  · exact all entry below

/-- The trees of a handle fit the symbols of its entries. -/
theorem handle {handle : List Entry} {rest : Stack} {children : List Node}
    (all : Stack.Fit fits (handle.reverse ++ rest))
    (carried : handle.map Entry.node = children.map some) :
    List.Forall₂ fits (handle.map fun entry => entry.token.symbol.id) children := by
  have each : ∀ entry ∈ handle, ∀ node ∈ entry.node, fits entry.token.symbol.id node := by
    intro entry member
    exact all entry (List.mem_append_left rest (List.mem_reverse.mpr member))
  clear all
  induction handle generalizing children with
  | nil =>
    obtain rfl : children = [] := by simpa using carried
    exact .nil
  | cons entry others inductionHypothesis =>
    cases children with
    | nil => simp at carried
    | cons child siblings =>
      obtain ⟨own, same⟩ := List.cons.inj carried
      refine .cons (each entry List.mem_cons_self child own) ?_
      exact inductionHypothesis same fun other member =>
        each other (List.mem_cons_of_mem entry member)

/-- A reduction by a rule keeps all trees fitting. -/
theorem reduced (well : automaton.grammar.tables.WellFormed)
    (consistent : automaton.grammar.Consistent) (composes : automaton.grammar.Composes fits)
    (path : StackPath automaton.grammar machine.state machine.stack)
    (all : machine.stack.Fit fits) {id : RuleId} {symbol : SymbolId}
    (listed : automaton.grammar.actionOn machine.state symbol = .ok (some (.reduce id)))
    (reduced : automaton.Reduced machine id token after) : after.stack.Fit fits := by
  obtain ⟨rule, head, trimmed, node, below, target, planned, taken, moved⟩ := reduced
  obtain ⟨looked, named, -⟩ := Automaton.plan_eq_ok.mp planned
  have own : head.id = rule.head := Grammar.symbol_id well named
  cases taken with
  | empty bodiless =>
    refine enter all target ?_
    rw [Automaton.headToken, own]
    exact composes.empty id rule head _ _ _ looked named bodiless
  | handle first others rest children stacked size left carried =>
    rw [stacked] at path all
    have body := path.body_eq consistent listed looked size left
    have forest := all.handle carried
    rw [body] at forest
    have remaining : Stack.Fit fits rest := fun entry member =>
      all entry (List.mem_append_right _ member)
    refine enter remaining target ?_
    rw [Automaton.headToken, own]
    rcases Automaton.assemble_cases token planned forest.length_eq.symm with
      ⟨line, branch⟩ | ⟨only, symbol, child, single, rfl, known, kind, same⟩
    · have bodied : rule.body ≠ [] := by
        rw [← body]
        exact List.cons_ne_nil _ _
      rw [branch]
      exact composes.branch id rule head line children looked named bodied forest
    · rw [same]
      rw [single] at forest
      obtain ⟨fit, -⟩ := List.forall₂_cons.mp forest
      exact composes.unit id rule only symbol child looked single known kind fit

/-- An answered step keeps all trees fitting, if the leaf of a token that is pushed fits
its symbol. -/
theorem effect (well : automaton.grammar.tables.WellFormed)
    (consistent : automaton.grammar.Consistent) (composes : automaton.grammar.Composes fits)
    (path : StackPath automaton.grammar machine.state machine.stack)
    (all : machine.stack.Fit fits) (leaf : fits token.symbol.id token.leaf) {signal : Signal}
    (effect : automaton.Effect machine token after next signal) : after.stack.Fit fits := by
  cases effect with
  | shift target listed => exact all.enter target leaf
  | goto target listed => exact all.enter target leaf
  | reduce id after listed reduced => exact all.reduced well consistent composes path listed reduced
  | substitute => exact all
  | unwind error state stack unlisted recovers substituted unwound =>
    rcases Automaton.unwind_split unwound with ⟨-, rfl⟩ | ⟨above, entry, split, -, -⟩
    · exact all
    · intro other member
      rw [split] at all
      exact all other (List.mem_append_right above (List.mem_cons_of_mem entry member))
  | accept => exact all
  | reject => exact all

end Stack.Fit

/-- The tokens that an automaton is offered have leaves that fit their symbols, and so has
the error terminal. -/
structure Automaton.Offers (automaton : Automaton) (fits : SymbolId → Node → Prop)
    (ending : Ending) (tokens : List Token) : Prop where
  stored : ∀ token ∈ tokens, fits token.symbol.id token.leaf
  last : ∀ token, ending = .complete token → fits token.symbol.id token.leaf
  error : ∀ error symbol line, automaton.errorSymbol = some error →
    automaton.grammar.errorTerminal error = .ok symbol →
    fits symbol.id (Token.leaf ⟨symbol, line, "error"⟩)

/-- What the automaton yields from tokens whose leaves fit is a tree that fits the start
symbol, if it is a tree. Induct on what the automaton does. -/
theorem Automaton.Yields.fits_start {automaton : Automaton} {fits : SymbolId → Node → Prop}
    {ending : Ending} {machine : Machine} {tokens : List Token} {tree : Node}
    (well : automaton.grammar.tables.WellFormed) (consistent : automaton.grammar.Consistent)
    (composes : automaton.grammar.Composes fits)
    (yields : automaton.Yields ending machine tokens (.ok tree))
    (path : StackPath automaton.grammar machine.state machine.stack)
    (all : machine.stack.Fit fits) (offers : automaton.Offers fits ending tokens) :
    fits automaton.grammar.tables.startSymbol tree := by
  generalize found : (Except.ok tree : Except Halt Node) = result at yields
  induction yields with
  | pushed stepped pushed rest inductionHypothesis =>
    have effect := effect_of_step_eq stepped
    have leaf := offers.stored _ List.mem_cons_self
    have after := all.effect well consistent composes path leaf effect
    refine inductionHypothesis (path.effect effect) after
      ⟨fun token member => ?_, offers.last, offers.error⟩ found
    exact offers.stored token (List.mem_cons_of_mem _ member)
  | again stepped rest inductionHypothesis =>
    have effect := effect_of_step_eq stepped
    have leaf := offers.stored _ List.mem_cons_self
    have after := all.effect well consistent composes path leaf effect
    refine inductionHypothesis (path.effect effect) after
      ⟨fun token member => ?_, offers.last, offers.error⟩ found
    -- The token that is offered again is the same, or recovery has put another in its place.
    rcases List.mem_cons.mp member with rfl | later
    · cases effect with
      | reduce => exact leaf
      | substitute error symbol unlisted recovers ordinary named =>
        exact offers.error error symbol _ recovers named
      | unwind => exact leaf
    · exact offers.stored token (List.mem_cons_of_mem _ later)
  | accepted stepped =>
    cases effect_of_step_eq stepped with
    | accept listed =>
      have root := Machine.root_of_mapError found.symm
      obtain ⟨entry, member, carried, start⟩ := path.start_of_root consistent listed root
      rw [← start]
      exact all entry member tree carried
  | rejected => contradiction
  | halted => contradiction
  | refilled complete rest inductionHypothesis =>
    refine inductionHypothesis path all ⟨fun token member => ?_, offers.last, offers.error⟩ found
    obtain rfl := List.mem_singleton.mp member
    exact offers.last _ complete
  | stopped => contradiction

end TableDriven
