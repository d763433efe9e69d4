import TableDriven.Proofs.Lexing.Progress
import TableDriven.Proofs.Parsing.Sturdy

/-!
# What validation is worth

Tables that pass validation may still be nonsense. But whatever a parse looks up by them is
there, whatever it takes off its stack above the start entry has a tree, and over bytes in
memory its scans neither measure a negative distance nor have a request refused. So besides
what may be wrong with the text, it can only turn out that a reduction finds too few entries
or no transition on its head, or that the input is accepted above more or less than one tree.
The last is the only way in which a parse breaks down.
-/

namespace TableDriven

/-- What a parse by validated tables may come to. No entry is missing among its tables, the
source has not refused a request, and every entry that was taken off had a tree. -/
inductive Sound : Outcome ParseError Node → Prop where
  | unfinished : Sound .unfinished
  | tree (tree : Node) : Sound (.done tree)
  | lexical (line : Nat) (text : String) : Sound (.failed (.lexical line text))
  | unexpected (line : Nat) (found : String) (expected : List String) :
      Sound (.failed (.unexpected line found expected))
  | unrecoverable (line : Nat) : Sound (.failed (.unrecoverable line))
  | unterminated (line : Nat) : Sound (.failed (.unterminatedComment line))
  | shortStack (rule : RuleId) (needed held : Nat) :
      Sound (.failed (.malformedTable (.shortStack rule needed held)))
  | missingGoto (state : LalrStateId) (found : Option Action) (name : String) :
      Sound (.failed (.malformedTable (.missingGoto state found name)))
  | acceptDepth : Sound (.broken .acceptDepth)

/-- A machine holds more or less than one tree exactly if it does not have two entries. -/
theorem Machine.root_eq_acceptDepth {machine : Machine} :
    machine.root = .error .acceptDepth ↔ machine.stack.length ≠ 2 := by
  constructor
  · intro rootless two
    obtain ⟨entry, lowest, stacked⟩ := List.length_eq_two.mp two
    unfold root at rootless
    rw [stacked] at rootless
    cases carried : entry.node <;> simp [carried] at rootless
  · intro depth
    unfold root
    split
    · rename_i entry lowest stacked
      rw [stacked] at depth
      exact absurd rfl depth
    · rfl

namespace Automaton

variable {automaton : Automaton} {machine : Machine}

/-- Only a lack of entries keeps the body of a rule from being taken off. -/
theorem sound_takeBody {grammar : Grammar} (path : StackPath grammar machine.state machine.stack)
    {id : RuleId} {rule : Rule} {head : Symbol} {lookahead : Token} {trimmed : Bool}
    {fault : TableFault} (failed : takeBody machine id rule head lookahead trimmed = .error fault) :
    ∃ needed held, fault = .shortStack id needed held := by
  unfold takeBody at failed
  split at failed
  · contradiction
  · rename_i length _
    split at failed
    · exact ⟨_, _, (Except.error.inj failed).symm⟩
    · rename_i handle rest found
      obtain ⟨stacked, -, left⟩ := Stack.takeHandle?_eq_some.mp found
      rw [stacked] at path
      have carried := path.carried left
      obtain ⟨children, nodes⟩ := exists_children fun entry member =>
        carried entry (List.mem_reverse.mpr member)
      rw [handleNodes_eq_ok.mpr nodes] at failed
      contradiction

/-- A reduction fails only over too few entries or a missing transition. -/
theorem sound_reduce (well : automaton.grammar.tables.WellFormed)
    (path : StackPath automaton.grammar machine.state machine.stack) {id : RuleId}
    (inside : id < automaton.grammar.tables.count .rule) {token : Token} {halt : Halt}
    (failed : (automaton.reduce machine id token).2 = .error halt) :
    Sound (Outcome.ofResult (.error halt)) := by
  obtain ⟨rule, head, trimmed, planned⟩ := plan_answers well inside
  unfold reduce at failed
  simp only [planned] at failed
  split at failed
  · rename_i fault taken
    obtain ⟨needed, held, rfl⟩ := sound_takeBody path taken
    obtain rfl := Except.error.inj failed
    exact .shortStack id needed held
  · rename_i node below taken
    have exposed := (path.bodyTaken (bodyTaken_of_takeBody taken)).state_lt well
    obtain ⟨action, listed⟩ := Grammar.actionOn_of_lt exposed head.id
    unfold follow at failed
    rw [listed] at failed
    split at failed
    · contradiction
    · contradiction
    · contradiction
    · obtain rfl := Except.error.inj failed
      exact .missingGoto _ _ _

/-- Recovery fails only if it finds no state to go on from. -/
theorem sound_recover (well : automaton.grammar.tables.WellFormed)
    (recoverable : ∀ error ∈ automaton.errorSymbol,
      error < automaton.grammar.tables.count .symbol)
    (path : StackPath automaton.grammar machine.state machine.stack) {token : Token} {halt : Halt}
    (failed : (automaton.recover machine token).result = .error halt) :
    Sound (Outcome.ofResult (.error halt)) := by
  unfold recover at failed
  split at failed
  · contradiction
  · rename_i error given
    split at failed
    · obtain ⟨symbol, named⟩ := Grammar.errorTerminal_of_lt (recoverable error given)
      simp [substitute, named] at failed
    · obtain ⟨resumed, rest, found, unwound⟩ := unwind_answers well error path
      rw [unwound] at failed
      cases found with
      | true => contradiction
      | false =>
        obtain rfl := Except.error.inj failed
        exact .unrecoverable token.line

/-- A step fails only where a reduction or recovery does. -/
theorem sound_step (well : automaton.grammar.tables.WellFormed)
    (recoverable : ∀ error ∈ automaton.errorSymbol,
      error < automaton.grammar.tables.count .symbol)
    (path : StackPath automaton.grammar machine.state machine.stack) {token : Token} {halt : Halt}
    (failed : (automaton.step machine token).result = .error halt) :
    Sound (Outcome.ofResult (.error halt)) := by
  obtain ⟨action, listed⟩ := Grammar.actionOn_of_lt (path.state_lt well) token.symbol.id
  unfold step at failed
  rw [listed] at failed
  cases action with
  | none => exact sound_recover well recoverable path failed
  | some action =>
    cases action with
    | shift target => contradiction
    | goto target => contradiction
    | reduce id =>
      obtain ⟨-, inside, -⟩ := Grammar.actionOn_eq_some well listed
      cases reduced : (automaton.reduce machine id token).2 with
      | ok done => simp [reduced, Except.map] at failed
      | error own =>
        obtain rfl : own = halt := by simpa [reduced, Except.map] using failed
        exact sound_reduce well path inside reduced
    | accept => contradiction
    | error =>
      obtain ⟨-, -, proper⟩ := Grammar.actionOn_eq_some well listed
      exact absurd rfl proper

end Automaton

namespace Run

/-- A token that ends a parse by itself is text that is no token or the end of the input in a
comment. -/
theorem sound_stops {token : Token} {depth : Nat} {error : ParseError}
    (fate : token.fate depth = .stops error) : Sound (.failed error) := by
  unfold Token.fate at fate
  by_cases outside : depth = 0
  · rw [if_pos outside] at fate
    cases kind : token.symbol.kind <;> simp [kind] at fate
    rw [← fate]
    exact .lexical _ _
  · rw [if_neg outside] at fate
    cases kind : token.symbol.kind <;> simp [kind] at fate
    rw [← fate]
    exact .unterminated _

/-- A token is offered and accepted above more or less than one tree. -/
def AcceptsAmiss {σ : Type} (automaton : Automaton) (run : Run σ) : Prop :=
  ∃ token, run.pending = some token ∧ token.fate run.commentDepth = .offered ∧
    automaton.grammar.actionOn run.machine.state token.symbol.id = .ok (some .accept) ∧
    run.machine.stack.length ≠ 2

section

variable {automaton : Automaton} {run last : Run ByteSource}

/-- What the last step of a run leads to is sound. -/
theorem sound_of_stopped {result : Except Halt Node} (well : automaton.grammar.tables.WellFormed)
    (recoverable : ∀ error ∈ automaton.errorSymbol,
      error < automaton.grammar.tables.count .symbol)
    (path : StackPath automaton.grammar run.machine.state run.machine.stack)
    (stopped : Stopped automaton run result) : Sound (Outcome.ofResult result) := by
  cases stopped with
  | unscanned halt hand failed =>
    obtain ⟨token, scanned⟩ := Scan.next_answers well recoverable .zero run.source
    rw [scanned] at failed
    contradiction
  | stops token error held fate => exact sound_stops fate
  | failed token halt held failed => exact Automaton.sound_step well recoverable path failed
  | accepted token held fate listed =>
    cases root : run.machine.root with
    | ok tree => exact .tree tree
    | error defect =>
      obtain rfl := path.root_eq_error root
      exact .acceptDepth
  | rejected token held unlisted =>
    obtain ⟨expected, reported⟩ := Automaton.rejection_eq well (path.state_lt well) token
    rw [reported]
    exact .unexpected _ _ _

/-- A run breaks down exactly where it accepts above more or less than one tree. -/
theorem breaks_iff_acceptsAmiss (well : automaton.grammar.tables.WellFormed)
    (recoverable : ∀ error ∈ automaton.errorSymbol,
      error < automaton.grammar.tables.count .symbol)
    (path : StackPath automaton.grammar run.machine.state run.machine.stack) :
    (∃ last, run.step automaton = .ended (.error (.defect .acceptDepth)) last) ↔
      AcceptsAmiss automaton run := by
  constructor
  · rintro ⟨last, ended⟩
    generalize breaks : Except.error (Halt.defect Defect.acceptDepth) = result at ended
    have stopped := stopped_of_step ended
    cases stopped with
    | unscanned halt hand failed =>
      obtain ⟨token, scanned⟩ := Scan.next_answers well recoverable .zero run.source
      rw [scanned] at failed
      contradiction
    | stops token error held fate => simp at breaks
    | failed token halt held failed =>
      rw [← Except.error.inj breaks] at failed
      exact absurd failed (Automaton.step_no_defect well recoverable path token _)
    | accepted token held fate listed =>
      refine ⟨token, held, fate, listed, Machine.root_eq_acceptDepth.mp ?_⟩
      cases root : run.machine.root with
      | ok tree =>
        rw [root] at breaks
        contradiction
      | error defect =>
        rw [root] at breaks
        exact congrArg Except.error (Halt.defect.inj (Except.error.inj breaks)).symm
    | rejected token held unlisted =>
      have sound := Automaton.rejection_no_defect well (path.state_lt well) token .acceptDepth
      exact absurd (Except.error.inj breaks).symm sound
  · rintro ⟨token, held, fate, listed, depth⟩
    have stepped := Automaton.step_eq_of_effect (Automaton.Effect.accept listed)
    have goes := step_of_offered held fate stepped
    dsimp only at goes
    rw [Machine.root_eq_acceptDepth.mpr depth] at goes
    exact ⟨_, goes⟩

end

end Run

/-- No distance that the scan of a token measures is negative. -/
structure Scan.Measures (grammar : Grammar) (errorSymbol : Option SymbolId)
    (source : ByteSource) : Prop where
  /-- From the start of the token to any stage that the walk passes through. -/
  stages : ∀ state earlier exhausted moves here,
    Walk.Stage grammar source state earlier exhausted moves here →
      (∃ steps, Walk.ofSource grammar source =
        Walk.follow grammar source.position steps state earlier exhausted moves here) ∧
      source.position ≤ here.position
  /-- From the start of the token to where the walk ends. -/
  walked : source.position ≤ (Walk.ofSource grammar source).source.position
  /-- From the end of the token to where the walk ends. -/
  returned : ∃ found symbol length, (Walk.ofSource grammar source).outcome = .ok found ∧
    classify grammar errorSymbol
      ((Walk.ofSource grammar source).source.position - source.position) found =
        .ok (symbol, length) ∧
    length ≤ (Walk.ofSource grammar source).source.position - source.position
  /-- From the start of the token, to which the source returns, to the end of its bytes. -/
  reread : ∃ returned, Source.seek (Walk.ofSource grammar source).source source.position =
    (.ok (), returned) ∧ returned.position ≤ returned.size

/-- No scan of bytes in memory measures a negative distance. -/
theorem Scan.measures {grammar : Grammar} {errorSymbol : Option SymbolId} {source : ByteSource}
    (well : grammar.tables.WellFormed)
    (recoverable : ∀ error ∈ errorSymbol, error < grammar.tables.count .symbol)
    (more : source.position < source.size) : Measures grammar errorSymbol source where
  stages state earlier exhausted moves here stage := by
    obtain ⟨steps, -, same⟩ := stage.ofSource_eq
    exact ⟨⟨steps, same⟩, (stage.ahead (Nat.le_of_lt more)).1.forward⟩
  walked := by
    obtain ⟨-, -, ahead, -⟩ := Walk.ofSource_within well more
    exact ahead.forward
  returned := by
    obtain ⟨found, symbol, length, outcome, classified, short, -⟩ :=
      classify_within well recoverable more
    exact ⟨found, symbol, length, outcome, classified, by omega⟩
  reread := by
    obtain ⟨-, -, ahead, -⟩ := Walk.ofSource_within well more
    refine ⟨source, ?_, Nat.le_of_lt more⟩
    rw [ahead.same]
    have reachable : ¬ source.size < source.position := by omega
    exact if_neg reachable

/-- The symbols that scans make up tokens from are found by their numbers: the end of the input,
and text that is no token, unless the tables offer no symbol for it and it is unlisted. -/
theorem Grammar.symbol_of_mark {tables : Tables} {grammar : Grammar}
    (accepted : ofTables tables = .ok grammar) :
    grammar.symbol grammar.endSymbol.id = .ok grammar.endSymbol ∧
      (grammar.symbol grammar.lexicalError.id = .ok grammar.lexicalError ∨
        tables.lexicalErrorSymbol? = none ∧ grammar.lexicalError = unlistedError) := by
  have well := wellFormed_of_ofTables accepted
  obtain ⟨-, rfl, ends, marked⟩ := ofTables_eq_ok.mp accepted
  refine ⟨symbol_of_mem well (Array.mem_of_find?_eq_some ends), ?_⟩
  rw [marked]
  cases found : grammar.tables.lexicalErrorSymbol? with
  | none => exact .inr ⟨rfl, rfl⟩
  | some symbol => exact .inl (symbol_of_mem well (Array.mem_of_find?_eq_some found))

/-- By tables that pass validation, with a parser that is made for them, every parse of bytes
in memory is sound within any limit. It breaks down exactly if it gets to where a token is
accepted while the stack does not have two entries. Whenever it takes a token off its source,
no distance that is measured is negative. -/
theorem validated_parse_is_sound {tables : Tables} (parser : Parser)
    (accepted : Grammar.ofTables tables = .ok parser.grammar) (made : parser.Made)
    (source : ByteSource) (trim : Bool) :
    (∀ limit, Sound (parser.parse source trim limit).outcome) ∧
    ∃ first, parser.begin? source = .ok first ∧
      ((∃ limit, (parser.parse source trim limit).outcome = .broken .acceptDepth) ↔
        ∃ run, Run.Reaches (parser.automaton trim) first run ∧
          Run.AcceptsAmiss (parser.automaton trim) run) ∧
      ∀ run, Run.Reaches (parser.automaton trim) first run → run.pending = none →
        Source.atEnd run.source = false →
        Scan.Measures parser.grammar parser.errorSymbol run.source := by
  have well := Grammar.wellFormed_of_ofTables accepted
  have recoverable := made.errorSymbol_lt well
  obtain ⟨first, begun⟩ := Parser.exists_begin? well source
  have path (run : Run ByteSource) (reached : Run.Reaches (parser.automaton trim) first run) :=
    StackPath.of_reaches begun reached
  refine ⟨fun limit => ?_, first, begun, ?_, ?_⟩
  · rcases Parser.outcome_cases trim limit begun with none | ⟨result, ended⟩
    · rw [none]
      exact .unfinished
    · obtain ⟨before, last, reached, stopped⟩ :=
        (Parser.parse_iff_endsWith trim result begun).mp ⟨limit, ended⟩
      rw [ended]
      exact Run.sound_of_stopped well recoverable (path before reached)
        (Run.stopped_of_step stopped)
  · have breaks := Parser.parse_iff_endsWith trim (.error (.defect .acceptDepth)) begun
    refine Iff.trans breaks ⟨?_, ?_⟩
    · rintro ⟨before, last, reached, stopped⟩
      have amiss := (Run.breaks_iff_acceptsAmiss well recoverable (path before reached)).mp
        ⟨last, stopped⟩
      exact ⟨before, reached, amiss⟩
    · rintro ⟨run, reached, amiss⟩
      obtain ⟨last, stopped⟩ :=
        (Run.breaks_iff_acceptsAmiss well recoverable (path run reached)).mpr amiss
      exact ⟨run, last, reached, stopped⟩
  · intro run reached hand left
    exact Scan.measures well recoverable (ByteSource.not_atEnd_iff.mp left)

namespace Hasty

/-- Tables by which letters are pushed and the end of the input is accepted above any number of
them. -/
def tables : Tables where
  symbols := #[⟨0, .endOfInput, "EOF"⟩, ⟨1, .terminal, "Letter"⟩]
  charSets := #[⟨0, .ofList [110]⟩]
  dfaStates := #[⟨0, none, [⟨0, 1⟩]⟩, ⟨1, some 1, []⟩]
  lalrStates := #[⟨0, [⟨0, .accept⟩, ⟨1, .shift 0⟩]⟩]
  rules := #[]
  startSymbol := 0
  dfaInitial := 0
  lalrInitial := 0

/-- The grammar that the tables describe. -/
def grammar : Grammar := ⟨tables, ⟨0, .endOfInput, "EOF"⟩, Grammar.unlistedError⟩

/-- The tables pass validation. -/
theorem ofTables_tables : Grammar.ofTables tables = .ok grammar := by
  have faultless : tables.faults = [] := by decide
  exact Grammar.ofTables_eq_ok.mpr ⟨faultless, rfl, rfl, rfl⟩

end Hasty

open Hasty in
/-- Tables that accept too early pass validation, and a parse of nothing breaks down by them:
the end of the input is accepted above the start entry alone. -/
theorem validated_parse_breaks_by_hasty_tables :
    Grammar.ofTables tables = .ok (Parser.ofGrammar grammar).grammar ∧
      (Parser.ofGrammar grammar).Made ∧
      ((Parser.ofGrammar grammar).parse (ByteSource.ofBytes #[]) false 2).outcome =
        .broken .acceptDepth ∧
      ∃ first run, (Parser.ofGrammar grammar).begin? (ByteSource.ofBytes #[]) = .ok first ∧
        Run.Reaches ((Parser.ofGrammar grammar).automaton false) first run ∧
        Run.AcceptsAmiss ((Parser.ofGrammar grammar).automaton false) run := by
  have accepted : Grammar.ofTables tables = .ok (Parser.ofGrammar grammar).grammar :=
    ofTables_tables
  have made : (Parser.ofGrammar grammar).Made := .strict rfl
  obtain ⟨-, first, begun, breaks, -⟩ := validated_parse_is_sound (Parser.ofGrammar grammar)
    accepted made (ByteSource.ofBytes #[]) false
  have broken : ((Parser.ofGrammar grammar).parse (ByteSource.ofBytes #[]) false 2).outcome =
      .broken .acceptDepth := rfl
  obtain ⟨run, reached, amiss⟩ := breaks.mp ⟨2, broken⟩
  exact ⟨accepted, made, broken, first, run, begun, reached, amiss⟩

end TableDriven
