import TableDriven.Proofs.Parsing.Completeness
import TableDriven.Proofs.Parsing.Safety
import TableDriven.Proofs.Parsing.TreeInvariant

/-!
# Tables that never fail the automaton

Well-formed tables lead the automaton to no missing entry, but they may still lead it
astray: a reduction may find too few entries or no transition on the head of its rule,
the input may be accepted too early, and recovery may find no state to go on from.

Consistent tables rule out the first. For the others it suffices to know a little more.
From wherever the body of a rule leads to a state that reduces by it, there is a
transition on the head. A state that accepts is entered from the initial state only, and
the initial state is never entered. And where the parse recovers, the initial state, to
which all entries lead back, has an action on the error terminal. Then every step is
answered, and a parse ends with a tree, with the rejection of a token if it does not
recover, or with what its tokens end with.
-/

namespace TableDriven

namespace Grammar

/-- Where the transition of a state on a symbol leads, if there is one. -/
def target? (grammar : Grammar) (state : LalrStateId) (symbol : SymbolId) : Option LalrStateId :=
  (grammar.actionOn? state symbol).bind Action.target?

/-- Where the transitions on some symbols lead, one after the other. -/
def targetAlong? (grammar : Grammar) (state : LalrStateId) (symbols : List SymbolId) :
    Option LalrStateId :=
  symbols.foldlM grammar.target? state

variable {grammar : Grammar} {state target : LalrStateId} {symbol : SymbolId}

/-- A transition leads to its target. -/
theorem target?_eq_some :
    grammar.target? state symbol = some target ↔ grammar.Transition state symbol target := by
  unfold target?
  rw [Option.bind_eq_some_iff]
  constructor
  · rintro ⟨action, found, leads⟩
    have listed := actionOn?_eq_some.mp found
    cases action with
    | shift next =>
      obtain rfl := Option.some.inj leads
      exact .shift listed
    | goto next =>
      obtain rfl := Option.some.inj leads
      exact .goto listed
    | reduce id => contradiction
    | accept => contradiction
    | error => contradiction
  · rintro (listed | listed)
    · exact ⟨_, actionOn?_eq_some.mpr listed, rfl⟩
    · exact ⟨_, actionOn?_eq_some.mpr listed, rfl⟩

/-- One more transition leads on from where the others lead. -/
theorem targetAlong?_concat (symbols : List SymbolId) {next : LalrStateId}
    (along : grammar.targetAlong? state symbols = some next)
    (moved : grammar.Transition next symbol target) :
    grammar.targetAlong? state (symbols ++ [symbol]) = some target := by
  unfold targetAlong? at along ⊢
  rw [List.foldlM_append, along]
  change (grammar.target? next symbol >>= fun last => pure last) = some target
  rw [target?_eq_some.mpr moved]
  rfl

/-- A state that transitions lead on from exists. -/
theorem lt_of_targetAlong? (well : grammar.tables.WellFormed) {symbols : List SymbolId}
    (some : symbols ≠ []) (along : grammar.targetAlong? state symbols = .some target) :
    state < grammar.tables.count .lalrState := by
  obtain ⟨first, others, rfl⟩ := List.exists_cons_of_ne_nil some
  obtain ⟨next, leads, -⟩ := Option.bind_eq_some_iff.mp along
  rcases target?_eq_some.mp leads with listed | listed
  · exact (actionOn_eq_some well listed).1
  · exact (actionOn_eq_some well listed).1

/-- What keeps the automaton from being led astray, apart from consistency. -/
structure Sturdy (grammar : Grammar) : Prop where
  /-- Where a reduction exposes a state, that state has a transition on the head. -/
  heads : ∀ origin id rule state symbol, grammar.rule id = .ok rule →
    grammar.targetAlong? origin rule.body = some state →
    grammar.actionOn state symbol = .ok (some (.reduce id)) →
    ∃ target, grammar.Transition origin rule.head target
  /-- States that accept are entered from the initial state. -/
  accepting : ∀ origin label state symbol, grammar.Transition origin label state →
    grammar.actionOn state symbol = .ok (some .accept) → origin = grammar.tables.lalrInitial
  /-- The initial state is not entered. -/
  initial : ∀ origin label, ¬ grammar.Transition origin label grammar.tables.lalrInitial
  /-- The initial state does not accept. -/
  begun : ∀ symbol,
    grammar.actionOn grammar.tables.lalrInitial symbol ≠ .ok (some .accept)

end Grammar

namespace StackPath

variable {grammar : Grammar} {state : LalrStateId}

/-- Every entry above another has a tree. -/
theorem carried {above rest : Stack} (path : StackPath grammar state (above ++ rest))
    (left : rest ≠ []) : ∀ entry ∈ above, ∃ node, entry.node = some node := by
  induction above generalizing state with
  | nil => simp
  | cons top others inductionHypothesis =>
    generalize stacked : top :: others ++ rest = whole at path
    cases path with
    | start start =>
      obtain ⟨-, empty⟩ := List.cons.inj stacked
      exact absurd (List.append_eq_nil_iff.mp empty).2 left
    | extend target first node below carried moved path =>
      obtain ⟨rfl, rfl⟩ := List.cons.inj stacked
      intro entry member
      rcases List.mem_cons.mp member with rfl | among
      · exact ⟨node, carried⟩
      · exact inductionHypothesis path entry among

/-- From where an entry was pushed, its symbol and those above it lead to the current
state. Induct on the entries above. -/
theorem along {above rest : Stack} {entry : Entry}
    (path : StackPath grammar state (above ++ entry :: rest)) (left : rest ≠ []) :
    grammar.targetAlong? entry.origin
      ((entry :: above.reverse).map fun entry => entry.token.symbol.id) = some state := by
  induction above generalizing state with
  | nil =>
    cases path with
    | start => contradiction
    | extend target _ node _ carried moved path => exact Grammar.targetAlong?_concat [] rfl moved
  | cons top others inductionHypothesis =>
    generalize stacked : (top :: others) ++ entry :: rest = whole at path
    cases path with
    | start => simp at stacked
    | extend target first node below carried moved path =>
      obtain ⟨rfl, rfl⟩ := List.cons.inj stacked
      have before := inductionHypothesis path
      rw [List.reverse_cons, ← List.cons_append, List.map_append]
      exact Grammar.targetAlong?_concat _ before moved

/-- A machine that accepts has a root: the only entry above the start entry was pushed
from the initial state. -/
theorem root_of_accept {machine : Machine} {symbol : SymbolId}
    (path : StackPath grammar machine.state machine.stack) (sturdy : grammar.Sturdy)
    (listed : grammar.actionOn machine.state symbol = .ok (some .accept)) :
    ∃ tree, machine.root = .ok tree := by
  obtain ⟨state, stack, tally⟩ := machine
  dsimp only at path listed
  cases path with
  | start => exact absurd listed (sturdy.begun symbol)
  | extend target entry node below carried moved path =>
    have origin := sturdy.accepting _ _ _ _ moved listed
    -- Below the entry that was pushed in the initial state there can be no other.
    rw [origin] at path
    generalize opened : grammar.tables.lalrInitial = initial at path
    cases path with
    | start => exact ⟨node, by simp [Machine.root, carried]⟩
    | extend target second other lower _ before _ =>
      rw [← opened] at before
      exact absurd before (sturdy.initial _ _)

/-- Recovery finds a state that has an action on the error terminal, if the initial state
has one. Induct on the path: in the initial state recovery does not set out. -/
theorem unwind_resumes {error : SymbolId} {stack : Stack}
    (path : StackPath grammar state stack) (well : grammar.tables.WellFormed)
    (resumes : ∃ action, grammar.actionOn grammar.tables.lalrInitial error = .ok (some action))
    (unlisted : grammar.actionOn state error = .ok none) :
    ∃ resumed rest, Automaton.unwind grammar error state stack = (resumed, rest, .ok true) := by
  induction path with
  | start =>
    obtain ⟨action, listed⟩ := resumes
    have same := Except.ok.inj (listed.symm.trans unlisted)
    contradiction
  | extend target entry node below carried moved path inductionHypothesis =>
    cases below with
    | nil => exact absurd rfl path.ne_nil
    | cons next others =>
      obtain ⟨action, listed⟩ := Grammar.actionOn_of_lt (path.state_lt well) error
      unfold Automaton.unwind
      rw [listed]
      cases action with
      | some action => exact ⟨_, _, rfl⟩
      | none => exact inductionHypothesis listed

end StackPath

namespace Automaton

variable {automaton : Automaton} {machine : Machine}

/-- Entries that all have trees have a list of trees. -/
theorem exists_children {entries : List Entry}
    (carried : ∀ entry ∈ entries, ∃ node, entry.node = some node) :
    ∃ children : List Node, entries.map Entry.node = children.map some := by
  induction entries with
  | nil => exact ⟨[], rfl⟩
  | cons entry others inductionHypothesis =>
    obtain ⟨node, own⟩ := carried entry List.mem_cons_self
    obtain ⟨children, rest⟩ := inductionHypothesis fun other member =>
      carried other (List.mem_cons_of_mem entry member)
    exact ⟨node :: children, by rw [List.map_cons, own, rest, List.map_cons]⟩

/-- The body of a rule that is reduced can be taken off, and its symbols lead from the
exposed state to the current one. -/
theorem exists_bodyTaken (consistent : automaton.grammar.Consistent)
    (path : StackPath automaton.grammar machine.state machine.stack) {id : RuleId} {rule : Rule}
    {symbol : SymbolId} (looked : automaton.grammar.rule id = .ok rule)
    (listed : automaton.grammar.actionOn machine.state symbol = .ok (some (.reduce id)))
    (head : Symbol) (lookahead : Token) (trimmed : Bool) :
    ∃ node below, BodyTaken machine id rule head lookahead trimmed node below ∧
      automaton.grammar.targetAlong? below.state rule.body = some machine.state := by
  -- The body is spelled by entries above the start entry, which has no label.
  have short : rule.body.length ≤ machine.stack.length - 1 := by
    rw [← Stack.length_labels]
    exact (path.body_suffix consistent listed looked).length_le
  have held : 0 < machine.stack.length := List.length_pos_iff.mpr path.ne_nil
  have left : machine.stack.drop rule.body.length ≠ [] := by
    intro nothing
    have none := List.drop_eq_nil_iff.mp nothing
    omega
  have split := List.take_append_drop rule.body.length machine.stack
  rw [← split] at path
  generalize machine.stack.drop rule.body.length = rest at split left path
  have size : (machine.stack.take rule.body.length).length = rule.body.length := by
    rw [List.length_take]
    omega
  generalize machine.stack.take rule.body.length = above at split path size
  cases handle : above.reverse with
  | nil =>
    obtain rfl := List.reverse_eq_nil_iff.mp handle
    have bodiless : rule.body = [] := List.length_eq_zero_iff.mp size.symm
    refine ⟨_, _, .empty bodiless, ?_⟩
    rw [bodiless]
    rfl
  | cons first others =>
    have stacked : machine.stack = (first :: others).reverse ++ rest := by
      rw [← handle, List.reverse_reverse, split]
    obtain ⟨children, nodes⟩ := exists_children fun entry member =>
      path.carried left entry (List.mem_reverse.mp (handle ▸ member))
    have fits : (first :: others).length = rule.body.length := by
      rw [← handle, List.length_reverse, size]
    have spelled : above = others.reverse ++ [first] := by
      rw [← List.reverse_reverse above, handle, List.reverse_cons]
    refine ⟨_, _, .handle first others rest children stacked fits left nodes, ?_⟩
    have ends := path
    rw [spelled, List.append_assoc, List.singleton_append] at ends
    have leads := ends.along left
    rw [List.reverse_reverse] at leads
    rw [spelled, ← List.reverse_cons] at path
    rw [path.body_eq consistent listed looked fits left] at leads
    exact leads

/-- A reduction succeeds. -/
theorem exists_reduced (well : automaton.grammar.tables.WellFormed)
    (consistent : automaton.grammar.Consistent) (sturdy : automaton.grammar.Sturdy)
    (path : StackPath automaton.grammar machine.state machine.stack) {id : RuleId} {token : Token}
    (listed : automaton.grammar.actionOn machine.state token.symbol.id =
      .ok (some (.reduce id))) : ∃ after, Reduced automaton machine id token after := by
  obtain ⟨-, inside, -⟩ := Grammar.actionOn_eq_some well listed
  obtain ⟨rule, head, trimmed, planned⟩ := plan_answers well inside
  obtain ⟨looked, named, -⟩ := plan_eq_ok.mp planned
  obtain ⟨node, below, taken, along⟩ :=
    exists_bodyTaken consistent path looked listed head token trimmed
  obtain ⟨target, moved⟩ := sturdy.heads _ id rule _ _ looked along listed
  rw [← Grammar.symbol_id well named] at moved
  exact ⟨_, .intro rule head trimmed node below target planned taken moved⟩

/-- The initial state has an action on the terminal to recover by. -/
def Resumes (automaton : Automaton) : Prop :=
  ∀ error ∈ automaton.errorSymbol, error < automaton.grammar.tables.count .symbol ∧
    ∃ action, automaton.grammar.actionOn automaton.grammar.tables.lalrInitial error =
      .ok (some action)

/-- Every step is answered. -/
theorem exists_effect (well : automaton.grammar.tables.WellFormed)
    (consistent : automaton.grammar.Consistent) (sturdy : automaton.grammar.Sturdy)
    (resumes : automaton.Resumes)
    (path : StackPath automaton.grammar machine.state machine.stack) (token : Token) :
    ∃ after next signal, automaton.Effect machine token after next signal := by
  obtain ⟨action, listed⟩ := Grammar.actionOn_of_lt (path.state_lt well) token.symbol.id
  cases action with
  | none =>
    cases recovers : automaton.errorSymbol with
    | none => exact ⟨_, _, _, .reject listed recovers⟩
    | some error =>
      obtain ⟨inside, resumed⟩ := resumes error recovers
      by_cases substituted : token.symbol.id = error
      · rw [substituted] at listed
        obtain ⟨state, rest, unwound⟩ := path.unwind_resumes well resumed listed
        rw [← substituted] at listed
        exact ⟨_, _, _, .unwind error state rest listed recovers substituted unwound⟩
      · obtain ⟨symbol, named⟩ := Grammar.errorTerminal_of_lt inside
        exact ⟨_, _, _, .substitute error symbol listed recovers substituted named⟩
  | some action =>
    cases action with
    | shift target => exact ⟨_, _, _, .shift target listed⟩
    | goto target => exact ⟨_, _, _, .goto target listed⟩
    | reduce id =>
      obtain ⟨after, reduced⟩ := exists_reduced well consistent sturdy path listed
      exact ⟨_, _, _, .reduce id after listed reduced⟩
    | accept => exact ⟨_, _, _, .accept listed⟩
    | error =>
      obtain ⟨-, -, proper⟩ := Grammar.actionOn_eq_some well listed
      exact absurd rfl proper

/-- What an automaton that is not led astray ends with. -/
inductive Orderly (automaton : Automaton) (ending : Ending) : Except Halt Node → Prop where
  | tree (tree : Node) : Orderly automaton ending (.ok tree)
  | rejected (strict : automaton.errorSymbol = none) (line : Nat) (found : String)
      (expected : List String) :
      Orderly automaton ending (.error (.error (.unexpected line found expected)))
  | stopped (error : ParseError) (ends : ending = .stopped error) :
      Orderly automaton ending (.error (.error error))

/-- Nothing leads the automaton astray. Induct on what it does: each step is answered. -/
theorem Yields.orderly (well : automaton.grammar.tables.WellFormed)
    (consistent : automaton.grammar.Consistent) (sturdy : automaton.grammar.Sturdy)
    (resumes : automaton.Resumes) {ending : Ending} {tokens : List Token}
    {result : Except Halt Node} (yields : automaton.Yields ending machine tokens result)
    (path : StackPath automaton.grammar machine.state machine.stack) :
    automaton.Orderly ending result := by
  induction yields with
  | pushed stepped pushed rest inductionHypothesis =>
    exact inductionHypothesis (path.effect (effect_of_step_eq stepped))
  | again stepped rest inductionHypothesis =>
    exact inductionHypothesis (path.effect (effect_of_step_eq stepped))
  | accepted stepped =>
    cases effect_of_step_eq stepped with
    | accept listed =>
      obtain ⟨tree, root⟩ := path.root_of_accept sturdy listed
      rw [root]
      exact .tree tree
  | @rejected _ _ token _ _ stepped =>
    cases effect_of_step_eq stepped with
    | reject unlisted strict =>
      obtain ⟨expected, reported⟩ := rejection_eq well (path.state_lt well) token
      rw [reported]
      exact .rejected strict _ _ expected
  | @halted machine after token next tokens halt stepped =>
    obtain ⟨other, again, signal, effect⟩ :=
      exists_effect well consistent sturdy resumes path token
    rw [step_eq_of_effect effect] at stepped
    simp at stepped
  | refilled complete rest inductionHypothesis => exact inductionHypothesis path
  | stopped ends => exact .stopped _ ends

end Automaton

end TableDriven
