import TableDriven.Proofs.Lexing.Scanned
import TableDriven.Proofs.Parsing.StackPath

/-!
# Nothing is looked up that is not there

The automaton looks up the state it is in, the states that the stack returns it
to, and what their actions lead to. As the stack is a path of the automaton all of
these are entries of a well-formed grammar, and the symbol to recover by is one
because it was found by its name. So a step never ends a parse over a missing
entry. One defect is left: a state may accept while more or less than one tree is
on the stack, and nothing but the rules the tables were made from excludes that.
-/

namespace TableDriven

/-- A parser as it is made for its grammar, whatever it has been used for since:
it reports the first error, or recovers by the terminal of some name. -/
inductive Parser.Made (parser : Parser) : Prop where
  | strict (same : parser.errorSymbol = (Parser.ofGrammar parser.grammar).errorSymbol)
  | recovering (name : String)
      (same : parser.errorSymbol = (Parser.recoveringBy parser.grammar name).errorSymbol)

/-- A terminal found by its name is one of the symbols. -/
theorem Grammar.terminalNamed?_lt {grammar : Grammar} (well : grammar.tables.WellFormed)
    {name : String} {symbol : Symbol} (found : grammar.terminalNamed? name = some symbol) :
    symbol.id < grammar.tables.count .symbol :=
  lt_of_entry_eq_ok (symbol_of_mem well (Array.mem_of_find?_eq_some found))

/-- The terminal that a parser recovers by is a symbol of its grammar. -/
theorem Parser.Made.errorSymbol_lt {parser : Parser} (made : parser.Made)
    (well : parser.grammar.tables.WellFormed) :
    ∀ error ∈ parser.errorSymbol, error < parser.grammar.tables.count .symbol := by
  intro error given
  cases made with
  | strict same => simp [same, Parser.ofGrammar] at given
  | recovering name same =>
    rw [same] at given
    obtain ⟨symbol, found, rfl⟩ := Option.map_eq_some_iff.mp given
    exact Grammar.terminalNamed?_lt well found

/-- The state at the end of a path exists. -/
theorem StackPath.state_lt {grammar : Grammar} {state : LalrStateId} {stack : Stack}
    (path : StackPath grammar state stack) (well : grammar.tables.WellFormed) :
    state < grammar.tables.count .lalrState := by
  cases path with
  | start => exact well.lalrInitial
  | extend _ _ _ _ _ moved _ =>
    cases moved with
    | shift listed => exact (Grammar.actionOn_eq_some well listed).2.1
    | goto listed => exact (Grammar.actionOn_eq_some well listed).2.1

/-- The only entry above the start entry has a tree, so all that can be wrong with
an accepting machine is the number of its entries. -/
theorem StackPath.root_eq_error {grammar : Grammar} {machine : Machine} {defect : Defect}
    (path : StackPath grammar machine.state machine.stack)
    (rootless : machine.root = .error defect) : defect = .acceptDepth := by
  unfold Machine.root at rootless
  split at rootless
  · rename_i entry lowest two
    rw [two] at path
    generalize machine.state = state at path
    cases path with
    | extend _ _ node _ carried =>
      rw [carried] at rootless
      contradiction
  · exact (Except.error.inj rootless).symm

namespace Automaton

variable {automaton : Automaton} {machine : Machine}

/-- Recovery finds out about every state that it passes. -/
theorem unwind_answers {grammar : Grammar} (well : grammar.tables.WellFormed) (error : SymbolId)
    {state : LalrStateId} {stack : Stack} (path : StackPath grammar state stack) :
    ∃ resumed rest found, unwind grammar error state stack = (resumed, rest, .ok found) := by
  induction path with
  | start start named => exact ⟨_, _, false, rfl⟩
  | extend target entry node below carried moved path inductionHypothesis =>
    cases below with
    | nil => exact absurd rfl path.ne_nil
    | cons next others =>
      obtain ⟨action, listed⟩ := Grammar.actionOn_of_lt (path.state_lt well) error
      unfold unwind
      rw [listed]
      cases action with
      | some action => exact ⟨_, _, true, rfl⟩
      | none => exact inductionHypothesis

/-- A rule that exists can be planned: so do its head and the symbols of its body. -/
theorem plan_answers (well : automaton.grammar.tables.WellFormed) {id : RuleId}
    (inside : id < automaton.grammar.tables.count .rule) :
    ∃ rule head trimmed, automaton.plan id = .ok (rule, head, trimmed) := by
  obtain ⟨rule, looked⟩ := Grammar.rule_of_lt inside
  obtain ⟨head, named⟩ := Grammar.symbol_of_rule well looked List.mem_cons_self
  have verdict : ∃ trimmed, automaton.trims rule = .ok trimmed := by
    unfold trims
    split
    · rename_i only _ single
      obtain ⟨symbol, found⟩ : ∃ symbol, automaton.grammar.symbol only = .ok symbol :=
        Grammar.symbol_of_rule well looked (by simp [single])
      exact ⟨_, by rw [found]; rfl⟩
    · exact ⟨false, rfl⟩
  obtain ⟨trimmed, verdict⟩ := verdict
  exact ⟨rule, head, trimmed, plan_eq_ok.mpr ⟨looked, named, verdict⟩⟩

/-- A reduction may find that the tables are malformed, but looks for nothing that
is not there. -/
theorem reduce_no_defect (well : automaton.grammar.tables.WellFormed)
    (path : StackPath automaton.grammar machine.state machine.stack) {id : RuleId}
    (inside : id < automaton.grammar.tables.count .rule) (token : Token) (defect : Defect) :
    (automaton.reduce machine id token).2 ≠ .error (.defect defect) := by
  obtain ⟨rule, head, trimmed, planned⟩ := plan_answers well inside
  unfold reduce
  simp only [planned]
  split
  · simp
  · rename_i node below taken
    have exposed := (path.bodyTaken (bodyTaken_of_takeBody taken)).state_lt well
    obtain ⟨action, listed⟩ := Grammar.actionOn_of_lt exposed head.id
    unfold follow
    rw [listed]
    rcases action with _ | (_ | _ | _ | _ | _) <;> simp

/-- Recovery may find no state to go on from, but looks for nothing that is not
there. -/
theorem recover_no_defect (well : automaton.grammar.tables.WellFormed)
    (recoverable : ∀ error ∈ automaton.errorSymbol,
      error < automaton.grammar.tables.count .symbol)
    (path : StackPath automaton.grammar machine.state machine.stack) (token : Token)
    (defect : Defect) :
    (automaton.recover machine token).result ≠ .error (.defect defect) := by
  unfold recover
  split
  · simp
  · rename_i error given
    split
    · obtain ⟨symbol, named⟩ := Grammar.errorTerminal_of_lt (recoverable error given)
      simp [substitute, named]
    · obtain ⟨resumed, rest, found, unwound⟩ := unwind_answers well error path
      rw [unwound]
      cases found <;> simp

/-- A step answers or says what is wrong with the input or the tables. -/
theorem step_no_defect (well : automaton.grammar.tables.WellFormed)
    (recoverable : ∀ error ∈ automaton.errorSymbol,
      error < automaton.grammar.tables.count .symbol)
    (path : StackPath automaton.grammar machine.state machine.stack) (token : Token)
    (defect : Defect) :
    (automaton.step machine token).result ≠ .error (.defect defect) := by
  obtain ⟨action, listed⟩ := Grammar.actionOn_of_lt (path.state_lt well) token.symbol.id
  unfold step
  rw [listed]
  rcases action with _ | (_ | _ | id | _ | _)
  · exact recover_no_defect well recoverable path token defect
  · simp
  · simp
  · obtain ⟨-, inside, -⟩ := Grammar.actionOn_eq_some well listed
    have sound := reduce_no_defect well path inside token defect
    cases reduced : (automaton.reduce machine id token).2 with
    | ok done => simp [reduced, Except.map]
    | error halt =>
      rw [reduced] at sound
      simpa [reduced, Except.map] using sound
  · simp
  · obtain ⟨-, -, proper⟩ := Grammar.actionOn_eq_some well listed
    exact absurd rfl proper

/-- A rejected token is reported with the names of the symbols that would have
had an action. -/
theorem rejection_no_defect (well : automaton.grammar.tables.WellFormed) {state : LalrStateId}
    (inside : state < automaton.grammar.tables.count .lalrState) (token : Token)
    (defect : Defect) :
    automaton.rejection state token ≠ .defect defect := by
  obtain ⟨found, looked⟩ := Grammar.lalrState_of_lt inside
  have placed : automaton.grammar.tables.lalrStates[state]? = some found :=
    (Grammar.entry_eq_ok _ _ _ _).mp looked
  have named (entries : List ActionEntry) (listed : ∀ entry ∈ entries, entry ∈ found.actions) :
      ∃ names, (entries.mapM fun entry =>
        (automaton.grammar.symbol entry.symbol).map Symbol.name) = .ok names := by
    induction entries with
    | nil => exact ⟨[], rfl⟩
    | cons entry rest inductionHypothesis =>
      have member := listed entry List.mem_cons_self
      obtain ⟨symbol, own⟩ := Grammar.symbol_of_lt
        (well.actions found (Array.mem_of_getElem? placed) entry member).1
      obtain ⟨names, others⟩ := inductionHypothesis fun other among =>
        listed other (List.mem_cons_of_mem entry among)
      exact ⟨symbol.name :: names, by rw [List.mapM_cons, own, others]; rfl⟩
  unfold rejection expected
  simp only [looked]
  obtain ⟨names, all⟩ := named _ fun entry among => (List.mem_filter.mp among).1
  rw [all]
  simp

/-- A rejected token is reported as unexpected. -/
theorem rejection_eq (well : automaton.grammar.tables.WellFormed) {state : LalrStateId}
    (inside : state < automaton.grammar.tables.count .lalrState) (token : Token) :
    ∃ expected, automaton.rejection state token =
      .error (.unexpected token.line token.symbol.name expected) := by
  have sound := rejection_no_defect well inside token
  unfold rejection at sound ⊢
  cases found : automaton.expected state with
  | error defect =>
    rw [found] at sound
    exact absurd rfl (sound defect)
  | ok expected => exact ⟨expected, rfl⟩

end Automaton

namespace Run

variable {σ : Type} [Source σ] {automaton : Automaton} {run last : Run σ} {defect : Defect}

omit [Source σ] in
/-- Offering a token reveals no defect but that of accepting too early or too late. -/
theorem offer_defect (well : automaton.grammar.tables.WellFormed)
    (recoverable : ∀ error ∈ automaton.errorSymbol,
      error < automaton.grammar.tables.count .symbol)
    (path : StackPath automaton.grammar run.machine.state run.machine.stack) {token : Token}
    (stopped : run.offer automaton token = .ended (.error (.defect defect)) last) :
    defect = .acceptDepth := by
  unfold offer at stopped
  have sound := Automaton.step_no_defect well recoverable path token
  cases answer : (automaton.step run.machine token).result with
  | error halt =>
    obtain ⟨same, -⟩ := Progress.ended.inj (by simpa only [answer] using stopped)
    rw [Except.error.inj same] at answer
    exact absurd answer (sound defect)
  | ok signal =>
    have after := path.effect (Automaton.effect_of_step answer)
    cases signal with
    | accept =>
      obtain ⟨taken, -⟩ := Progress.ended.inj (by simpa only [answer] using stopped)
      cases root : (automaton.step run.machine token).machine.root with
      | ok tree =>
        rw [root] at taken
        contradiction
      | error found =>
        rw [root] at taken
        obtain rfl := Halt.defect.inj (Except.error.inj taken)
        exact after.root_eq_error root
    | reject =>
      obtain ⟨same, -⟩ := Progress.ended.inj (by simpa only [answer] using stopped)
      exact absurd (Except.error.inj same)
        (Automaton.rejection_no_defect well (after.state_lt well) _ defect)
    | shift => simp [answer] at stopped
    | goto => simp [answer] at stopped
    | reduce => simp [answer] at stopped

/-- No step of a run reveals another defect. -/
theorem step_defect (well : automaton.grammar.tables.WellFormed)
    (recoverable : ∀ error ∈ automaton.errorSymbol,
      error < automaton.grammar.tables.count .symbol)
    (path : StackPath automaton.grammar run.machine.state run.machine.stack)
    (stopped : run.step automaton = .ended (.error (.defect defect)) last) :
    defect = .acceptDepth := by
  unfold step at stopped
  split at stopped
  · unfold fetch at stopped
    rcases Scan.next_result well recoverable run.scanned run.source with
      ⟨token, scanned⟩ | ⟨error, scanned⟩
    · simp [scanned] at stopped
    · simp [scanned] at stopped
  · split at stopped
    · unfold outsideComment at stopped
      split at stopped
      · contradiction
      · contradiction
      · contradiction
      · simp at stopped
      all_goals exact offer_defect well recoverable path stopped
    · unfold insideComment at stopped
      split at stopped <;> simp at stopped

end Run

end TableDriven
