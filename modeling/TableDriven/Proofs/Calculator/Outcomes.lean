import TableDriven.Proofs.Calculator.Accepted
import TableDriven.Proofs.Calculator.Operands
import TableDriven.Proofs.Parsing.Sturdy

/-!
# How a calculation may end

The calculator's tables never lead the automaton astray. A reduction always finds its body
and a transition on its head, acceptance always finds one tree, and recovery always finds
a state to go on from, because the initial state has an action on the error terminal. So
only the text decides how a parse ends: with a tree, or because a comment is not closed,
or, if it does not recover, because of text that is no token or of a token that does not
belong where it stands. A parse that recovers may also go on for ever.
-/

namespace TableDriven.Calculator

/-- Nothing leads the automaton astray. -/
theorem sturdy_grammar : grammar.Sturdy where
  heads origin id rule state symbol looked along listed := by
    obtain ⟨member, rfl⟩ := mem_of_rule looked
    obtain ⟨found, placed, rfl, entry⟩ := Grammar.entry_of_actionOn wellFormed_tables listed
    -- All states are tried as origins, also those that no path leads through.
    have leads : ∀ origin ∈ List.range 19, ∀ rule ∈ rules, ∀ state ∈ lalrStates,
        (∃ entry ∈ state.actions, entry.action = .reduce rule.id) →
        grammar.targetAlong? origin rule.body = some state.id →
        (grammar.target? origin rule.head).isSome := by
      decide +kernel
    have inside : origin < 19 :=
      Grammar.lt_of_targetAlong? wellFormed_tables (body_ne_nil rule member) along
    have some := leads origin (List.mem_range.mpr inside) rule member found
      (List.mem_toArray.mp placed) ⟨_, entry, rfl⟩ along
    obtain ⟨target, moved⟩ := Option.isSome_iff_exists.mp some
    exact ⟨target, Grammar.target?_eq_some.mp moved⟩
  accepting origin label state symbol moved listed := by
    have accepting : ∀ state ∈ lalrStates, ∀ entry ∈ state.actions,
        entry.action = .accept → state.id = 1 := by decide
    have entering : ∀ state ∈ lalrStates, ∀ entry ∈ state.actions,
        entry.action.target? = some 1 → state.id = 0 := by decide
    obtain ⟨found, placed, rfl, entry⟩ := Grammar.entry_of_actionOn wellFormed_tables listed
    have last := accepting found (List.mem_toArray.mp placed) _ entry rfl
    rw [last] at moved
    obtain ⟨before, listed, rfl, entry, member, -, leads⟩ :=
      Grammar.entry_of_transition wellFormed_tables moved
    exact entering before (List.mem_toArray.mp listed) entry member leads
  initial origin label moved := by
    have left : ∀ state ∈ lalrStates, ∀ entry ∈ state.actions,
        entry.action.target? ≠ some 0 := by decide
    obtain ⟨before, listed, rfl, entry, member, -, leads⟩ :=
      Grammar.entry_of_transition wellFormed_tables moved
    exact left before (List.mem_toArray.mp listed) entry member leads
  begun symbol listed := by
    have accepting : ∀ state ∈ lalrStates, ∀ entry ∈ state.actions,
        entry.action = .accept → state.id ≠ 0 := by decide
    obtain ⟨found, placed, same, entry⟩ := Grammar.entry_of_actionOn wellFormed_tables listed
    exact accepting found (List.mem_toArray.mp placed) _ entry rfl same

/-- Only reductions push the heads of rules. -/
theorem head_of_goto {state target : LalrStateId} {symbol : SymbolId}
    (listed : grammar.actionOn state symbol = .ok (some (.goto target))) : IsHead symbol := by
  have heads : ∀ state ∈ lalrStates, ∀ entry ∈ state.actions, ∀ target ∈ entry.action.target?,
      entry.action = .goto target → IsHead entry.symbol := by
    decide
  obtain ⟨found, placed, -, entry⟩ := Grammar.entry_of_actionOn wellFormed_tables listed
  exact heads found (List.mem_toArray.mp placed) _ entry target rfl rfl

/-- The error terminal of a calculation that recovers. -/
def errorSymbol (recover : Bool) : Option SymbolId := if recover then some Symbols.error else none

/-- The automaton of a calculation. -/
def automatonOf (options : Options) : Automaton :=
  ⟨grammar, errorSymbol options.recover, options.trim⟩

/-- A calculation runs its automaton. -/
theorem automaton_parserFor (options : Options) :
    (parserFor grammar options.recover).automaton options.trim = automatonOf options := by
  obtain ⟨trim, recover⟩ := options
  cases recover <;> rfl

/-- The error terminal is a symbol. -/
theorem errorSymbol_lt (recover : Bool) :
    ∀ error ∈ errorSymbol recover, error < grammar.tables.count .symbol := by
  cases recover with
  | false => nofun
  | true =>
    intro error given
    obtain rfl := Option.some.inj given
    decide

/-- The initial state has an action on the error terminal. -/
theorem resumes_automatonOf (options : Options) : (automatonOf options).Resumes := by
  intro error given
  refine ⟨errorSymbol_lt options.recover error given, .shift 7, ?_⟩
  obtain ⟨trim, recover⟩ := options
  cases recover with
  | false => contradiction
  | true =>
    obtain rfl := Option.some.inj given
    rfl

/-- The symbols of the calculator's tokens are no heads of rules. They are the error terminal
only with recovery, and of the kind of an error only without. -/
theorem labels_facts {recover : Bool} {symbol : Symbol}
    (labels : Scan.Labels grammar (errorSymbol recover) symbol) :
    ¬ IsHead symbol.id ∧ (symbol.id = Symbols.error → recover = true) ∧
      (symbol.kind = .error → recover = false) := by
  cases labels with
  | accepted id symbol accepts named =>
    have listed : ∀ state ∈ dfaStates, ∀ id ∈ state.accept, ∀ symbol ∈ symbols, symbol.id = id →
        ¬ IsHead symbol.id ∧ symbol.id ≠ Symbols.error ∧ symbol.kind ≠ .error := by
      decide
    obtain ⟨state, member, accepting⟩ := accepts
    obtain ⟨placed, own⟩ := mem_of_symbol named
    obtain ⟨head, ordinary, sound⟩ :=
      listed state (List.mem_toArray.mp member) id accepting symbol placed own
    exact ⟨head, fun same => absurd same ordinary, fun same => absurd same sound⟩
  | recovered error symbol given named =>
    cases recover with
    | false => contradiction
    | true =>
      obtain rfl := Option.some.inj given
      obtain rfl := Except.ok.inj named
      decide
  | faulty strict =>
    cases recover with
    | false => decide
    | true => contradiction

/-- A token that is offered again is the same or has become the error terminal. -/
theorem same_or_error_of_again {options : Options} {machine after : Machine} {token next : Token}
    (effect : (automatonOf options).Effect machine token after next .reduce) :
    next = token ∨ next.symbol.id = Symbols.error := by
  cases effect with
  | reduce => exact .inl rfl
  | substitute error symbol unlisted recovers ordinary named =>
    right
    rw [Grammar.errorTerminal_id wellFormed_tables named]
    cases recover : options.recover <;> simp_all [automatonOf, errorSymbol]
  | unwind => exact .inl rfl

/-- No head of a rule is ever at hand. -/
theorem not_head_of_reaches {σ : Type} [Source σ] {options : Options} {first run : Run σ}
    (empty : first.pending = none) (reached : Run.Reaches (automatonOf options) first run) :
    ∀ token ∈ run.pending, ¬ IsHead token.symbol.id := by
  refine Run.held_of_reaches (fun token _ => ¬ IsHead token.symbol.id) ?_ ?_ empty reached
  · intro source token scanned
    cases done : Source.atEnd source with
    | true =>
      rw [Scan.next_of_atEnd done] at scanned
      obtain rfl := Except.ok.inj scanned
      have terminal : ¬ IsHead Symbols.endOfInput := by decide
      exact terminal
    | false =>
      have labels : Scan.Labels grammar (errorSymbol options.recover) token.symbol :=
        Scan.next_labels wellFormed_tables (errorSymbol_lt options.recover) done scanned
      exact (labels_facts labels).1
  · intro machine after token next source effect ordinary
    rcases same_or_error_of_again effect with rfl | error
    · exact ordinary
    · rw [error]
      decide

/-- The machine that every calculation begins with. -/
def initialMachine : Machine :=
  ⟨0, [Parser.startEntry grammar ⟨Symbols.expr, .nonterminal, "Expr"⟩], .zero⟩

/-- The machine begins on a path. -/
theorem path_initialMachine :
    StackPath grammar initialMachine.state initialMachine.stack :=
  .start ⟨Symbols.expr, .nonterminal, "Expr"⟩ rfl

/-- The machine begins without trees. -/
theorem bare_initialMachine (fits : SymbolId → Node → Prop) : initialMachine.stack.Fit fits := by
  intro entry member node carried
  obtain rfl := List.mem_singleton.mp member
  contradiction

/-- Every calculation begins. -/
theorem begin?_parserFor (recover : Bool) (source : ByteSource) :
    (parserFor grammar recover).begin? source =
      .ok ⟨initialMachine, source, .zero, 0, none, 0⟩ := by
  cases recover <;> rfl

/-- Every text has tokens in store. -/
theorem exists_upcoming (input : Array UInt8) (recover : Bool) :
    ∃ tokens ending, Upcoming grammar (errorSymbol recover) none 0 (ByteSource.ofBytes input)
      tokens ending :=
  ByteSource.exists_upcoming wellFormed_tables noEmptyToken_grammar (errorSymbol_lt recover) _
    (Nat.zero_le _) 0

variable {input : Array UInt8} {options : Options} {tokens : List Token} {ending : Ending}

/-- A calculation has the outcome of its parse. -/
theorem parse_eq_parseWith (input : Array UInt8) (options : Options) (limit : Nat) :
    parse input options limit =
      (parseWith grammar input options limit).outcome.mapError .parse := by
  have loaded : grammar? = .ok grammar := ofTables_tables
  rw [parse, loaded]

/-- A calculation has an error if its parse has. -/
theorem parse_eq_failed {input : Array UInt8} {options : Options} {limit : Nat}
    {error : ParseError} :
    parse input options limit = .failed (.parse error) ↔
      (parseWith grammar input options limit).outcome = .failed error := by
  rw [parse_eq_parseWith]
  cases (parseWith grammar input options limit).outcome <;> simp [Outcome.mapError]

/-- A calculation ends with what its automaton yields from the tokens in store. -/
theorem parse_iff_yields (options : Options)
    (upcoming : Upcoming grammar (errorSymbol options.recover) none 0 (ByteSource.ofBytes input)
      tokens ending) (result : Except Halt Node) :
    (∃ limit, (parseWith grammar input options limit).outcome = Outcome.ofResult result) ↔
      (automatonOf options).Yields ending initialMachine tokens result := by
  rw [← automaton_parserFor]
  refine Parser.parse_iff_yields options.trim result (begin?_parserFor options.recover _) ?_
  obtain ⟨trim, recover⟩ := options
  cases recover with
  | false => exact upcoming
  | true => exact upcoming

/-- A calculation finds one tree at most, whatever limits it is given. -/
theorem tree_unique {tree other : Node} {limit enough : Nat}
    (parsed : parse input options limit = .done tree)
    (again : parse input options enough = .done other) : other = tree := by
  have first : (parseWith grammar input options limit).outcome = Outcome.ofResult (.ok tree) :=
    parse_eq_done.mp parsed
  have second : (parseWith grammar input options enough).outcome = Outcome.ofResult (.ok other) :=
    parse_eq_done.mp again
  exact Except.ok.inj (Parser.result_unique first second)

/-- A calculation finds the tree that its automaton yields. -/
theorem found_iff_yields (options : Options)
    (upcoming : Upcoming grammar (errorSymbol options.recover) none 0 (ByteSource.ofBytes input)
      tokens ending) (tree : Node) :
    (∃ limit, parse input options limit = .done tree) ↔
      (automatonOf options).Yields ending initialMachine tokens (.ok tree) := by
  rw [← parse_iff_yields options upcoming (.ok tree)]
  exact exists_congr fun limit => parse_eq_done

/-- The run of a calculation before its first step. -/
def firstRun (input : Array UInt8) : Run ByteSource :=
  ⟨initialMachine, ByteSource.ofBytes input, .zero, 0, none, 0⟩

/-- A calculation has the outcome of what its run ends with. -/
theorem parse_iff_endsWith (input : Array UInt8) (options : Options) (result : Except Halt Node) :
    (∃ limit, (parseWith grammar input options limit).outcome = Outcome.ofResult result) ↔
      Run.EndsWith (automatonOf options) (firstRun input) result := by
  rw [← automaton_parserFor]
  exact Parser.parse_iff_endsWith options.trim result (begin?_parserFor options.recover _)

/-- The tree of a calculation fits an expression, whatever fits symbols is closed under the rules
and holds of the leaves of the tokens in store. -/
theorem fits_of_parse {fits : SymbolId → Node → Prop} {tree : Node} {limit : Nat}
    (composes : grammar.Composes fits)
    (offers : ∀ {tokens ending}, Upcoming grammar (errorSymbol options.recover) none 0
      (ByteSource.ofBytes input) tokens ending → (automatonOf options).Offers fits ending tokens)
    (parsed : parse input options limit = .done tree) : fits Symbols.expr tree := by
  obtain ⟨tokens, ending, upcoming⟩ := exists_upcoming input options.recover
  have yields := (found_iff_yields options upcoming tree).mp ⟨limit, parsed⟩
  exact yields.fits_start wellFormed_tables consistent_grammar composes path_initialMachine
    (bare_initialMachine fits) (offers upcoming)

/-- The leaves of the tokens in store stand for their symbols. -/
theorem offers_fits
    (upcoming : Upcoming grammar (errorSymbol options.recover) none 0 (ByteSource.ofBytes input)
      tokens ending) : (automatonOf options).Offers Fits ending tokens where
  stored token member := by
    have labels := upcoming.labels wellFormed_tables (errorSymbol_lt options.recover) (by simp)
      token member
    exact .of_token token (labels_facts labels).1
  last token complete := by
    subst complete
    refine .of_token token ?_
    rw [upcoming.last_symbol]
    decide
  error error symbol line recovers named := by
    have labels : Scan.Labels grammar (errorSymbol options.recover) symbol :=
      .recovered error symbol recovers named
    exact .of_token ⟨symbol, line, "error"⟩ (labels_facts labels).1

/-- A tree that the automaton yields is an operand. -/
theorem operand_of_yields {tree : Node}
    (upcoming : Upcoming grammar (errorSymbol options.recover) none 0 (ByteSource.ofBytes input)
      tokens ending)
    (yields : (automatonOf options).Yields ending initialMachine tokens (.ok tree)) :
    Operand tree := by
  have fits : Fits Symbols.expr tree :=
    yields.fits_start wellFormed_tables consistent_grammar composes_fits path_initialMachine
      (bare_initialMachine Fits) (offers_fits upcoming)
  exact fits.operand (.inl rfl)

/-- The tree of a calculation is an operand. -/
theorem operand_of_parse {tree : Node} {limit : Nat}
    (parsed : parse input options limit = .done tree) : Operand tree := by
  have fits : Fits Symbols.expr tree := fits_of_parse composes_fits offers_fits parsed
  exact fits.operand (.inl rfl)

/-- The ways in which a parse may end. -/
inductive Orderly (options : Options) : Outcome CalculatorError Node → Prop where
  /-- Not within the steps it was given. -/
  | unfinished : Orderly options .unfinished
  /-- With a tree of which no node is refused. -/
  | tree (tree : Node)
      (sensible : ∀ name line, evaluate tree ≠ .error (.unexpectedNode name line)) :
      Orderly options (.done tree)
  /-- Inside a comment. -/
  | unterminated (line : Nat) : Orderly options (.failed (.parse (.unterminatedComment line)))
  /-- Without recovery, over text that is no token. -/
  | lexical (strict : options.recover = false) (line : Nat) (text : String) :
      Orderly options (.failed (.parse (.lexical line text)))
  /-- Without recovery, over a token that does not belong where it stands. -/
  | unexpected (strict : options.recover = false) (line : Nat) (found : String)
      (expected : List String) :
      Orderly options (.failed (.parse (.unexpected line found expected)))

/-- Whatever the text and the options, a parse never reveals a defect and never finds fault
with the tables. If it recovers it ends with a tree, inside a comment, or not at all; if it
does not, the first error of the text may end it. Evaluation refuses no node of its
tree. -/
theorem parse_orderly (input : Array UInt8) (options : Options) (limit : Nat) :
    Orderly options (parse input options limit) := by
  obtain ⟨tokens, ending, upcoming⟩ := exists_upcoming input options.recover
  rw [parse_eq_parseWith]
  rcases Parser.outcome_cases options.trim limit (begin?_parserFor options.recover
    (ByteSource.ofBytes input)) with none | ⟨result, ended⟩
  · rw [parseWith, none]
    exact .unfinished
  · have yields := (parse_iff_yields options upcoming result).mp ⟨limit, ended⟩
    rw [parseWith, ended]
    cases yields.orderly wellFormed_tables consistent_grammar sturdy_grammar
      (resumes_automatonOf options) path_initialMachine with
    | tree tree =>
      refine .tree tree ?_
      rw [evaluate_eq_valueOf]
      exact (operand_of_yields upcoming yields).value_ne_unexpected
    | rejected strict line found expected =>
      refine .unexpected ?_ line found expected
      obtain ⟨trim, recover⟩ := options
      cases recover with
      | false => rfl
      | true => contradiction
    | stopped error ends =>
      subst ends
      rcases upcoming.stopped_cases wellFormed_tables (errorSymbol_lt options.recover) (by simp)
        with ⟨line, rfl⟩ | ⟨line, text, symbol, rfl, faulty, labels⟩
      · exact .unterminated line
      · exact .lexical ((labels_facts labels).2.2 faulty) line text

end TableDriven.Calculator
