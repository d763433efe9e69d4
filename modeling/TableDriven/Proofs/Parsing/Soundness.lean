import Mathlib.Data.List.Induction
import TableDriven.Proofs.Parsing.Derivation
import TableDriven.Proofs.Parsing.StackPath

/-!
# Trees of consistent tables are derivation trees

A reduction does not look at what it takes off the stack. That the entries match
the body of the rule is up to the tables: they are consistent if every path of
the parsing automaton to a state that reduces by a rule ends with the body of
that rule, and the only transition from the initial state to one that accepts is
along the start symbol. The stack is such a path, so with consistent tables and
without trimming the trees on it are a derivation forest of its symbols, and an
accepted tree is a derivation tree of the start symbol.
-/

namespace TableDriven

/-- The trees on a stack are a derivation forest of the symbols above the start
entry, over the given tokens. -/
inductive Grown (grammar : Grammar) : Stack → List SymbolId → List Token → Prop where
  | start (lowest : Entry) : Grown grammar [lowest] [] []
  | extend (entry : Entry) (node : Node) (below : Stack) {labels : List SymbolId}
      {tokens own : List Token} (carried : entry.node = some node)
      (derived : Derivation grammar [entry.token.symbol.id] own [node])
      (rest : Grown grammar below labels tokens) :
      Grown grammar (entry :: below) (labels ++ [entry.token.symbol.id]) (tokens ++ own)

namespace Grown

variable {grammar : Grammar} {stack : Stack} {labels : List SymbolId} {tokens : List Token}

/-- A stack that is a path and carries a forest spells the labels of its path. -/
theorem path (grown : Grown grammar stack labels tokens) {state : LalrStateId}
    (stacked : StackPath grammar state stack) : grammar.Path labels state := by
  induction grown generalizing state with
  | start lowest =>
    cases stacked with
    | start => exact .start
    | extend _ _ _ _ _ _ path => exact absurd rfl path.ne_nil
  | extend entry node below carried derived rest inductionHypothesis =>
    cases stacked with
    | start => cases rest
    | extend _ _ _ _ _ moved path => exact .extend _ _ _ state (inductionHypothesis path) moved

/-- A handle that is taken off takes its symbols, its trees and their tokens with
it. Induct on the handle from the top: its last entry is the first to go. -/
theorem handle {entries : List Entry} {rest : Stack} {children : List Node}
    (grown : Grown grammar (entries.reverse ++ rest) labels tokens) (left : rest ≠ [])
    (carried : entries.map Entry.node = children.map some) :
    ∃ prior before own, Grown grammar rest prior before ∧
      labels = prior ++ entries.map (fun entry => entry.token.symbol.id) ∧
      tokens = before ++ own ∧
      Derivation grammar (entries.map fun entry => entry.token.symbol.id) own children := by
  induction entries using List.reverseRecOn generalizing labels tokens children with
  | nil =>
    obtain rfl : children = [] := by simpa using carried
    exact ⟨labels, tokens, [], grown, by simp, by simp, .nil⟩
  | append_singleton entries top inductionHypothesis =>
    rw [List.reverse_append, List.reverse_singleton, List.append_assoc,
      List.singleton_append] at grown
    generalize stacked : top :: (entries.reverse ++ rest) = whole at grown
    cases grown with
    | start lowest =>
      obtain ⟨-, empty⟩ := List.cons.inj stacked
      exact absurd (List.append_eq_nil_iff.mp empty).2 left
    | extend entry node below carries derived grown =>
      obtain ⟨rfl, rfl⟩ := List.cons.inj stacked
      rw [List.map_append] at carried
      obtain ⟨trees, last, rfl, others, single⟩ := List.map_eq_append_iff.mp carried.symm
      obtain rfl : last = [node] := by
        simpa [carries, List.map_eq_singleton_iff] using single
      obtain ⟨prior, before, own, below, rfl, rfl, forest⟩ := inductionHypothesis grown others.symm
      refine ⟨prior, before, _, below, ?_, List.append_assoc _ _ _, ?_⟩
      · rw [List.map_append, List.map_singleton, List.append_assoc]
      · rw [List.map_append, List.map_singleton]
        exact forest.append derived

/-- What lies below an entry carries the forest that was there before. -/
theorem of_append {above rest : Stack} (grown : Grown grammar (above ++ rest) labels tokens)
    (left : rest ≠ []) : ∃ others before, Grown grammar rest others before := by
  induction above generalizing labels tokens with
  | nil => exact ⟨labels, tokens, grown⟩
  | cons top others inductionHypothesis =>
    generalize stacked : top :: others ++ rest = whole at grown
    cases grown with
    | start lowest =>
      obtain ⟨-, empty⟩ := List.cons.inj stacked
      exact absurd (List.append_eq_nil_iff.mp empty).2 left
    | extend entry node below carried derived grown =>
      obtain ⟨-, rfl⟩ := List.cons.inj stacked
      exact inductionHypothesis grown

/-- Recovery takes trees off together with their tokens. -/
theorem unwind {state resumed : LalrStateId} {error : SymbolId} {rest : Stack} {found : Bool}
    (grown : Grown grammar stack labels tokens)
    (unwound : Automaton.unwind grammar error state stack = (resumed, rest, .ok found)) :
    ∃ others before, Grown grammar rest others before := by
  rcases Automaton.unwind_split unwound with ⟨-, rfl⟩ | ⟨above, entry, split, left, -⟩
  · exact ⟨labels, tokens, grown⟩
  · rw [split, List.append_cons] at grown
    exact grown.of_append left

/-- Pushing a tree appends its tokens. -/
theorem enter {machine : Machine} {token : Token} {node : Node} {own : List Token}
    (grown : Grown grammar machine.stack labels tokens) (target : LalrStateId)
    (derived : Derivation grammar [token.symbol.id] own [node]) :
    Grown grammar (machine.enter target token node).stack (labels ++ [token.symbol.id])
      (tokens ++ own) :=
  .extend ⟨machine.state, token, some node⟩ node machine.stack rfl derived grown

variable {automaton : Automaton} {machine after : Machine} {token next : Token} {id : RuleId}

/-- A reduction puts a branch above the trees of the rule's body, and keeps the
tokens. The path to the state that reduces ends with the body of the rule, and
so do the symbols on the stack, of which the handle has as many. -/
theorem reduced (well : automaton.grammar.tables.WellFormed)
    (consistent : automaton.grammar.Consistent) (untrimmed : automaton.trim = false)
    (path : StackPath automaton.grammar machine.state machine.stack)
    (grown : Grown automaton.grammar machine.stack labels tokens) {symbol : SymbolId}
    (listed : automaton.grammar.actionOn machine.state symbol = .ok (some (.reduce id)))
    (reduced : automaton.Reduced machine id token after) :
    ∃ labels, Grown automaton.grammar after.stack labels tokens := by
  obtain ⟨rule, head, trimmed, node, below, target, planned, taken, moved⟩ := reduced
  obtain ⟨looked, named, verdict⟩ := Automaton.plan_eq_ok.mp planned
  obtain rfl : trimmed = false := by
    simpa [Automaton.trims, untrimmed, eq_comm] using verdict
  have own : head.id = rule.head := Grammar.symbol_id well named
  cases taken with
  | empty bodiless =>
    have branch : Derivation automaton.grammar [head.id] []
        [Automaton.emptyBranch id head token] :=
      own ▸ .empty id rule head _ _ _ looked named bodiless .nil
    refine ⟨labels ++ [head.id], ?_⟩
    rw [← List.append_nil tokens]
    exact grown.enter target branch
  | handle first others rest children stacked fits left carried =>
    have ends : rule.body <:+ labels :=
      consistent.handles labels machine.state symbol id rule (grown.path path) listed looked
    rw [stacked] at grown
    obtain ⟨prior, before, yielded, remaining, rfl, rfl, forest⟩ := grown.handle left carried
    have body : rule.body = (first :: others).map fun entry => entry.token.symbol.id := by
      have shorter := List.suffix_of_suffix_length_le ends (List.suffix_append _ _)
        (Nat.le_of_eq (by rw [List.length_map, fits]))
      exact shorter.eq_of_length (by rw [List.length_map, fits])
    rw [← body] at forest
    cases children with
    | nil => simp at carried
    | cons child siblings =>
      have branch := Derivation.branch id rule head looked named forest .nil
      rw [List.append_nil, ← own] at branch
      exact ⟨_, remaining.enter target branch⟩

/-- Every answered step keeps the trees on the stack a derivation forest. A token
that is pushed is the last of the forest's tokens; without recovery no token is
lost. -/
theorem effect (well : automaton.grammar.tables.WellFormed)
    (consistent : automaton.grammar.Consistent) (untrimmed : automaton.trim = false)
    {signal : Signal} (effect : automaton.Effect machine token after next signal)
    (path : StackPath automaton.grammar machine.state machine.stack)
    (grown : Grown automaton.grammar machine.stack labels tokens) :
    ∃ others yielded, Grown automaton.grammar after.stack others yielded ∧
      (signal = .shift ∨ signal = .goto → yielded = tokens ++ [token]) ∧
      (signal = .reduce → automaton.errorSymbol = none → yielded = tokens ∧ next = token) := by
  have leaf : Derivation automaton.grammar [token.symbol.id] [token] [token.leaf] :=
    .leaf token .nil
  cases effect with
  | shift target listed =>
    exact ⟨_, _, grown.enter target leaf, fun _ => rfl, by simp⟩
  | goto target listed =>
    exact ⟨_, _, grown.enter target leaf, fun _ => rfl, by simp⟩
  | reduce id after listed reduced =>
    obtain ⟨others, pushed⟩ := grown.reduced well consistent untrimmed path listed reduced
    exact ⟨others, tokens, pushed, by simp, fun _ _ => ⟨rfl, rfl⟩⟩
  | substitute error symbol unlisted recovers =>
    exact ⟨labels, tokens, grown, by simp, by simp [recovers]⟩
  | unwind error state stack unlisted recovers substituted unwound =>
    obtain ⟨others, yielded, remaining⟩ := grown.unwind unwound
    exact ⟨others, yielded, remaining, by simp, by simp [recovers]⟩
  | accept => exact ⟨labels, tokens, grown, by simp, by simp⟩
  | reject => exact ⟨labels, tokens, grown, by simp, by simp⟩

end Grown

/-- The root of an accepting machine is a derivation tree of the start symbol.
Only one entry stands above the start entry, so it was pushed from the initial
state. -/
theorem Grown.root {grammar : Grammar} {machine : Machine} {symbol : SymbolId}
    {labels : List SymbolId} {tokens : List Token} {tree : Node} (consistent : grammar.Consistent)
    (path : StackPath grammar machine.state machine.stack)
    (grown : Grown grammar machine.stack labels tokens)
    (listed : grammar.actionOn machine.state symbol = .ok (some .accept))
    (root : machine.root = .ok tree) :
    Derivation grammar [grammar.tables.startSymbol] tokens [tree] := by
  obtain ⟨entry, lowest, two, carried, -, moved⟩ := path.stack_of_root root
  rw [two] at grown
  cases grown with
  | extend _ own _ carries derived rest =>
    cases rest with
    | start =>
      obtain rfl : own = tree := Option.some.inj (carries.symm.trans carried)
      rw [consistent.accepts _ _ _ moved listed] at derived
      exact derived
    | extend _ _ _ _ _ nothing => cases nothing

/-- With consistent tables, whatever has been parsed before, whether or not the
parser recovers: an untrimmed parse that ends with a tree ends with a derivation
tree of the start symbol. -/
theorem parse_is_derivation {σ : Type} [Source σ] {tables : Tables} (parser : Parser)
    (accepted : Grammar.ofTables tables = .ok parser.grammar)
    (consistent : parser.grammar.Consistent) (source : σ) (limit : Nat) (tree : Node)
    (parsed : (parser.parse source false limit).outcome = .done tree) :
    ∃ tokens, Derivation parser.grammar [parser.grammar.tables.startSymbol] tokens [tree] := by
  have well := Grammar.wellFormed_of_ofTables accepted
  obtain ⟨first, last, begun, reached, stopped, -⟩ := Parser.reaches_of_parse_eq_done parsed
  obtain ⟨start, named, rfl⟩ := Parser.begin?_eq_ok.mp begun
  obtain ⟨token, -, listed, root, -⟩ := Run.accepted_of_step stopped
  have path := StackPath.of_reaches begun reached
  have forest := Run.invariant_of_reaches
    (fun machine => StackPath parser.grammar machine.state machine.stack ∧
      ∃ labels tokens, Grown parser.grammar machine.stack labels tokens)
    (fun machine token after next signal effect ⟨path, labels, tokens, grown⟩ => by
      obtain ⟨others, yielded, pushed, -⟩ := grown.effect well consistent rfl effect path
      exact ⟨path.effect effect, others, yielded, pushed⟩)
    reached ⟨.start start named, [], [], .start _⟩
  obtain ⟨path, labels, tokens, grown⟩ := forest
  exact ⟨tokens, grown.root consistent path listed root⟩

open Sums in
/-- Recovering from `1++2` puts an error in the place of the second plus sign and
then of the number. What is left is a derivation tree of a sum. -/
theorem parse_is_derivation_recovered :
    Grammar.ofTables tables = .ok (Parser.recoveringBy grammar errorTerminal).grammar ∧
      grammar.Consistent ∧
      ∃ tree tokens, ((Parser.recoveringBy grammar errorTerminal).parse
          (ByteSource.ofBytes #[49, 43, 43, 50]) false 40).outcome = .done tree ∧
        Derivation grammar [Symbols.sum] tokens [tree] := by
  have accepted :
      Grammar.ofTables tables = .ok (Parser.recoveringBy grammar errorTerminal).grammar :=
    ofTables_tables
  have parsed : ∃ tree, ((Parser.recoveringBy grammar errorTerminal).parse
      (ByteSource.ofBytes #[49, 43, 43, 50]) false 40).outcome = .done tree := ⟨_, rfl⟩
  obtain ⟨tree, parsed⟩ := parsed
  obtain ⟨tokens, derived⟩ := parse_is_derivation (Parser.recoveringBy grammar errorTerminal)
    accepted consistent_grammar (ByteSource.ofBytes #[49, 43, 43, 50]) 40 tree parsed
  exact ⟨accepted, consistent_grammar, tree, tokens, parsed, derived⟩

end TableDriven
