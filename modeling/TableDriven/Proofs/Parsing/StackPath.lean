import TableDriven.Proofs.Grammar.Sums
import TableDriven.Proofs.Grammar.WellFormed
import TableDriven.Proofs.Parsing.Reachable

/-!
# The stack is a path of the automaton

From the start entry upward, every entry of the stack records a transition that
the parsing automaton has: it leads from the state that the entry was pushed
from, along the symbol of the entry, to the state that the next entry was pushed
from, and at the top to the current state. Shifts and reductions extend the
path, and the state restored by a reduction or by recovery is one that the path
went through. None of this depends on the rules, so it holds for tables that are
at odds with themselves as long as their references lead to entries.
-/

namespace TableDriven

/-- A stack that records how the automaton got from its initial state to a given
one. The trees of the entries are all there, except that of the start entry. -/
inductive StackPath (grammar : Grammar) : LalrStateId → Stack → Prop where
  | start (start : Symbol)
      (named : grammar.symbol grammar.tables.startSymbol = .ok start) :
      StackPath grammar grammar.tables.lalrInitial [Parser.startEntry grammar start]
  | extend (target : LalrStateId) (entry : Entry) (node : Node) (below : Stack)
      (carried : entry.node = some node)
      (moved : grammar.Transition entry.origin entry.token.symbol.id target)
      (path : StackPath grammar entry.origin below) :
      StackPath grammar target (entry :: below)

namespace StackPath

variable {grammar : Grammar} {state : LalrStateId} {stack : Stack}

/-- The start entry is always there. -/
theorem ne_nil (path : StackPath grammar state stack) : stack ≠ [] := by
  cases path <;> simp

/-- A path whose only entry is the start entry has not left the initial state. -/
theorem initial_of_alone {lowest : Entry} (path : StackPath grammar state [lowest]) :
    state = grammar.tables.lalrInitial := by
  cases path with
  | start => rfl
  | extend _ _ _ _ _ _ nothing => exact absurd rfl nothing.ne_nil

/-- The lowest entry carries no tree. -/
theorem node_of_alone {lowest : Entry} (path : StackPath grammar state [lowest]) :
    lowest.node = none := by
  cases path with
  | start => rfl
  | extend _ _ _ _ _ _ nothing => exact absurd rfl nothing.ne_nil

/-- A machine that has a root has one entry above the start entry. This carries the root,
and its symbol leads from the initial state to that of the machine. -/
theorem stack_of_root {machine : Machine} {tree : Node}
    (path : StackPath grammar machine.state machine.stack) (root : machine.root = .ok tree) :
    ∃ entry lowest, machine.stack = [entry, lowest] ∧ entry.node = some tree ∧
      lowest.node = none ∧
      grammar.Transition grammar.tables.lalrInitial entry.token.symbol.id machine.state := by
  unfold Machine.root at root
  split at root
  · rename_i entry lowest two
    rw [two] at path
    generalize machine.state = state at path ⊢
    cases path with
    | extend _ _ node _ carried moved path =>
      rw [carried] at root
      obtain rfl := Except.ok.inj root
      rw [path.initial_of_alone] at moved
      exact ⟨entry, lowest, two, carried, path.node_of_alone, moved⟩
  · contradiction

/-- An entry that is not the lowest was pushed on a path to its origin. -/
theorem below_entry {above rest : Stack} {entry : Entry}
    (path : StackPath grammar state (above ++ entry :: rest)) (left : rest ≠ []) :
    StackPath grammar entry.origin rest := by
  induction above generalizing state with
  | nil =>
    cases path with
    | start => contradiction
    | extend _ _ _ _ _ _ path => exact path
  | cons top others inductionHypothesis =>
    generalize stacked : (top :: others) ++ entry :: rest = whole at path
    cases path with
    | start => simp at stacked
    | extend target first node below carried moved path =>
      obtain ⟨rfl, rfl⟩ := List.cons.inj stacked
      exact inductionHypothesis path

/-- Below a handle the stack is a path to the origin of its first entry. -/
theorem below_handle {others : List Entry} {first : Entry} {rest : Stack}
    (path : StackPath grammar state ((first :: others).reverse ++ rest)) (left : rest ≠ []) :
    StackPath grammar first.origin rest := by
  rw [List.reverse_cons, List.append_assoc, List.singleton_append] at path
  exact path.below_entry left

/-- Pushing along a transition extends the path. -/
theorem enter {machine : Machine} {target : LalrStateId} {token : Token} {node : Node}
    (path : StackPath grammar machine.state machine.stack)
    (moved : grammar.Transition machine.state token.symbol.id target) :
    StackPath grammar (machine.enter target token node).state
      (machine.enter target token node).stack :=
  .extend target ⟨machine.state, token, some node⟩ node machine.stack rfl moved path

/-- Taking the body of a rule off leaves a path to the restored state: below a
handle that is the origin of its first entry, and an empty body changes neither
the state nor the stack. -/
theorem bodyTaken {machine after : Machine} {id : RuleId} {rule : Rule} {head : Symbol}
    {lookahead : Token} {trimmed : Bool} {node : Node}
    (path : StackPath grammar machine.state machine.stack)
    (taken : Automaton.BodyTaken machine id rule head lookahead trimmed node after) :
    StackPath grammar after.state after.stack := by
  cases taken with
  | empty bodiless => exact path
  | handle first others rest children stacked fits left carried =>
    rw [stacked] at path
    exact path.below_handle left

/-- Recovery leaves a path to the state it resumes in. -/
theorem unwind {error : SymbolId} {resumed : LalrStateId} {rest : Stack} {found : Bool}
    (path : StackPath grammar state stack)
    (unwound : Automaton.unwind grammar error state stack = (resumed, rest, .ok found)) :
    StackPath grammar resumed rest := by
  rcases Automaton.unwind_split unwound with ⟨rfl, rfl⟩ | ⟨above, entry, split, left, rfl⟩
  · exact path
  · rw [split] at path
    exact path.below_entry left

/-- Every answered step keeps the stack a path. -/
theorem effect {automaton : Automaton} {machine after : Machine} {token next : Token}
    {signal : Signal} (effect : automaton.Effect machine token after next signal)
    (path : StackPath automaton.grammar machine.state machine.stack) :
    StackPath automaton.grammar after.state after.stack := by
  cases effect with
  | shift target listed => exact path.enter (.shift listed)
  | goto target listed => exact path.enter (.goto listed)
  | reduce id after listed reduced =>
    obtain ⟨rule, head, trimmed, node, below, target, planned, taken, moved⟩ := reduced
    exact (path.bodyTaken taken).enter moved
  | substitute => exact path
  | unwind error resumed stack unlisted recovers substituted unwound => exact path.unwind unwound
  | accept => exact path
  | reject => exact path

/-- The stack is a path throughout every run of a parse. -/
theorem of_reaches {σ : Type} [Source σ] {parser : Parser} {source : σ} {trim : Bool}
    {first run : Run σ} (begun : parser.begin? source = .ok first)
    (reached : Run.Reaches (parser.automaton trim) first run) :
    StackPath parser.grammar run.machine.state run.machine.stack := by
  obtain ⟨start, named, rfl⟩ := Parser.begin?_eq_ok.mp begun
  refine Run.invariant_of_reaches
    (fun machine => StackPath parser.grammar machine.state machine.stack)
    ?_ reached (.start start named)
  intro machine token after next signal
  exact effect

end StackPath

/-- A machine stands at the end of a path from the initial state: under some
entries with trees lies the start entry alone, the first of them was pushed from
the initial state, and each of them was pushed along a transition to where the
next one was pushed from, the latest to the current state. -/
structure Machine.IsPath (grammar : Grammar) (machine : Machine) (start : Symbol)
    (above : List Entry) : Prop where
  named : grammar.symbol grammar.tables.startSymbol = .ok start
  stacked : machine.stack = above ++ [⟨grammar.tables.lalrInitial, ⟨start, 0, ""⟩, none⟩]
  carried : ∀ entry ∈ above, ∃ node, entry.node = some node
  alone : above = [] → machine.state = grammar.tables.lalrInitial
  lowest : ∀ entry ∈ above.getLast?, entry.origin = grammar.tables.lalrInitial
  moved : ∀ (index : Nat) (entry : Entry) (target : LalrStateId), above[index]? = some entry →
    (machine.state :: above.map Entry.origin)[index]? = some target →
    grammar.actionOn entry.origin entry.token.symbol.id = .ok (some (.shift target)) ∨
      grammar.actionOn entry.origin entry.token.symbol.id = .ok (some (.goto target))

/-- A path, entry by entry. Induct on the path: a pushed entry becomes the first
one above, and what was the current state is where it was pushed from. -/
theorem StackPath.isPath {grammar : Grammar} {machine : Machine}
    (path : StackPath grammar machine.state machine.stack) :
    ∃ start above, machine.IsPath grammar start above := by
  obtain ⟨state, stack, tally⟩ := machine
  dsimp only at path
  induction path with
  | start start named =>
    exact ⟨start, [], named, rfl, by simp, fun _ => rfl, by simp, by simp⟩
  | extend target entry node below carried moved path inductionHypothesis =>
    obtain ⟨start, above, rest⟩ := inductionHypothesis
    refine ⟨start, entry :: above, rest.named, ?_, ?_, by simp, ?_, ?_⟩
    · exact congrArg (entry :: ·) rest.stacked
    · intro member among
      rcases List.mem_cons.mp among with rfl | among
      · exact ⟨node, carried⟩
      · exact rest.carried member among
    · intro lowest last
      cases above with
      | nil =>
        obtain rfl : entry = lowest := by simpa using last
        exact rest.alone rfl
      | cons next others => exact rest.lowest lowest (by simpa using last)
    · intro index member goal found led
      cases index with
      | zero =>
        obtain rfl : entry = member := by simpa using found
        obtain rfl : target = goal := by simpa using led
        cases moved with
        | shift listed => exact .inl listed
        | goto listed => exact .inr listed
      | succ index => exact rest.moved index member goal (by simpa using found) (by simpa using led)

/-- Whatever a parser has been used for, whether it trims and whether it
recovers: every parse begins, and in every run that it gets to the stack is a
path of the parsing automaton from its initial state to the current one. -/
theorem stack_is_path_of_automaton {σ : Type} [Source σ] {tables : Tables} (parser : Parser)
    (accepted : Grammar.ofTables tables = .ok parser.grammar) (trim : Bool) (source : σ) :
    ∃ first, parser.begin? source = .ok first ∧
      ∀ run, Run.Reaches (parser.automaton trim) first run →
        ∃ start above, run.machine.IsPath parser.grammar start above := by
  have well := Grammar.wellFormed_of_ofTables accepted
  obtain ⟨first, begun⟩ := Parser.exists_begin? well source
  refine ⟨first, begun, fun run reached => ?_⟩
  exact (StackPath.of_reaches begun reached).isPath

open Sums in
/-- Once the number of a text has been reduced, its term stands alone above the start entry. -/
theorem stack_is_path_of_number :
    Grammar.ofTables tables = .ok (Parser.ofGrammar grammar).grammar ∧
      ∃ first run, (Parser.ofGrammar grammar).begin? (ByteSource.ofBytes #[49]) = .ok first ∧
        Run.Reaches ((Parser.ofGrammar grammar).automaton false) first run ∧
        run.machine.stack.length = 2 ∧ ∃ start above, run.machine.IsPath grammar start above := by
  have accepted : Grammar.ofTables tables = .ok (Parser.ofGrammar grammar).grammar :=
    ofTables_tables
  obtain ⟨first, begun, path⟩ := stack_is_path_of_automaton (Parser.ofGrammar grammar) accepted
    false (ByteSource.ofBytes #[49])
  have walked : ∃ run, Run.Reaches ((Parser.ofGrammar grammar).automaton false) first run ∧
      run.machine.stack.length = 2 := by
    cases begun
    exact ⟨_, .head rfl (.head rfl (.head rfl (.head rfl .refl))), rfl⟩
  obtain ⟨run, reached, two⟩ := walked
  exact ⟨accepted, first, run, begun, reached, two, path run reached⟩

end TableDriven
