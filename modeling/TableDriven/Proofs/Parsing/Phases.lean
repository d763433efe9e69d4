import TableDriven.Proofs.Parsing.Independence
import TableDriven.Proofs.Parsing.Lexed

/-!
# Lexing first and parsing second

A parse scans a token whenever the automaton asks for one, with comments, line ends and
reductions in between. The same comes of it when all bytes are lexed first, without a parser, and
the automaton is then handed the list of tokens: the same tree, the same error on the same line,
the same defect, and no end in the one case if there is none in the other.
-/

namespace TableDriven

namespace Automaton

/-- What the automaton makes of tokens and of what they end with in so many steps; none if it takes
more. The end of the input is offered as often as it is asked for. -/
def consume (automaton : Automaton) (ending : Ending) :
    Nat → Machine → List Token → Option (Except Halt Node)
  | 0, _, _ => none
  | limit + 1, machine, [] =>
    match ending with
    | .complete last => automaton.consume ending limit machine [last]
    | .stopped error => some (.error (.error error))
  | limit + 1, machine, token :: tokens =>
    let advance := automaton.step machine token
    match advance.result with
    | .error halt => some (.error halt)
    | .ok .shift => automaton.consume ending limit advance.machine tokens
    | .ok .goto => automaton.consume ending limit advance.machine tokens
    | .ok .reduce => automaton.consume ending limit advance.machine (advance.token :: tokens)
    | .ok .accept => some (advance.machine.root.mapError Halt.defect)
    | .ok .reject => some (.error (automaton.rejection advance.machine.state token))

variable {automaton : Automaton} {ending : Ending} {machine : Machine} {tokens : List Token}
  {result : Except Halt Node}

/-- What the automaton makes of tokens in some number of steps is what it yields from them. -/
theorem yields_of_consume {limit : Nat}
    (consumed : automaton.consume ending limit machine tokens = some result) :
    automaton.Yields ending machine tokens result := by
  induction limit generalizing machine tokens with
  | zero => contradiction
  | succ limit inductionHypothesis =>
    cases tokens with
    | nil =>
      cases complete : ending with
      | complete last =>
        subst complete
        exact .refilled rfl (inductionHypothesis consumed)
      | stopped error =>
        subst complete
        obtain rfl := Option.some.inj consumed
        exact .stopped rfl
    | cons token tokens =>
      unfold consume at consumed
      rcases stepped : automaton.step machine token with ⟨after, next, halt | signal⟩
      · rw [stepped] at consumed
        obtain rfl := Option.some.inj consumed
        exact .halted stepped
      · rw [stepped] at consumed
        cases signal with
        | shift => exact .pushed stepped (.inl rfl) (inductionHypothesis consumed)
        | goto => exact .pushed stepped (.inr rfl) (inductionHypothesis consumed)
        | reduce => exact .again stepped (inductionHypothesis consumed)
        | accept =>
          obtain rfl := Option.some.inj consumed
          exact .accepted stepped
        | reject =>
          obtain rfl := Option.some.inj consumed
          exact .rejected stepped

/-- What the automaton yields from tokens it makes of them in some number of steps. -/
theorem exists_consume (yields : automaton.Yields ending machine tokens result) :
    ∃ limit, automaton.consume ending limit machine tokens = some result := by
  induction yields with
  | pushed stepped pushed _ inductionHypothesis =>
    obtain ⟨limit, consumed⟩ := inductionHypothesis
    refine ⟨limit + 1, ?_⟩
    unfold consume
    rw [stepped]
    rcases pushed with rfl | rfl
    · exact consumed
    · exact consumed
  | again stepped _ inductionHypothesis =>
    obtain ⟨limit, consumed⟩ := inductionHypothesis
    refine ⟨limit + 1, ?_⟩
    unfold consume
    rw [stepped]
    exact consumed
  | accepted stepped => exact ⟨1, by rw [consume, stepped]⟩
  | rejected stepped => exact ⟨1, by rw [consume, stepped]⟩
  | halted stepped => exact ⟨1, by rw [consume, stepped]⟩
  | refilled complete _ inductionHypothesis =>
    obtain ⟨limit, consumed⟩ := inductionHypothesis
    subst complete
    exact ⟨limit + 1, consumed⟩
  | stopped ends =>
    subst ends
    exact ⟨1, rfl⟩

/-- The automaton makes of tokens what it yields from them. -/
theorem consume_iff_yields :
    (∃ limit, automaton.consume ending limit machine tokens = some result) ↔
      automaton.Yields ending machine tokens result :=
  ⟨fun ⟨_, consumed⟩ => yields_of_consume consumed, exists_consume⟩

end Automaton

namespace Parser

/-- What becomes of a parse in at most `limit` steps when it is given tokens and what they end
with instead of a source. -/
def parseTokens (parser : Parser) (tokens : List Token) (ending : Ending) (trim : Bool)
    (limit : Nat) : Outcome ParseError Node :=
  let grammar := parser.grammar
  match grammar.symbol grammar.tables.startSymbol with
  | .error defect => .broken defect
  | .ok start =>
    let first : Machine := ⟨grammar.tables.lalrInitial, [startEntry grammar start], .zero⟩
    match (parser.automaton trim).consume ending limit first tokens with
    | none => .unfinished
    | some result => .ofResult result

variable {σ : Type} [Source σ] {parser : Parser} {source : σ} {tokens : List Token}
  {ending : Ending}

/-- A parse of a source and a parse of the tokens that the source has in store have the same
result. What the parser was used for before makes no difference, so it may be taken for unused. -/
theorem parse_iff_parseTokens
    (upcoming : Upcoming parser.grammar parser.errorSymbol none 0 source tokens ending)
    (trim : Bool) (result : Except Halt Node) :
    (∃ limit, (parser.parse source trim limit).outcome = Outcome.ofResult result) ↔
      ∃ limit, parser.parseTokens tokens ending trim limit = Outcome.ofResult result := by
  simp only [(parser.parse_unused source trim _).1]
  cases found : parser.grammar.symbol parser.grammar.tables.startSymbol with
  | error defect =>
    -- Without a start symbol neither parse begins.
    simp [parse, begin?, unused, parseTokens, found, Except.map]
  | ok start =>
    have begun : parser.unused.begin? source = .ok
        ⟨⟨parser.grammar.tables.lalrInitial, [startEntry parser.grammar start], .zero⟩, source,
          .zero, 0, none, 0⟩ := by
      simp [begin?, unused, found, Except.map]
    have yields :
        (∃ limit, (parser.unused.parse source trim limit).outcome = Outcome.ofResult result) ↔
          (parser.automaton trim).Yields ending _ tokens result :=
      parse_iff_yields trim result begun upcoming
    refine yields.trans (Automaton.consume_iff_yields.symm.trans (exists_congr fun limit => ?_))
    simp only [parseTokens, found]
    cases (parser.automaton trim).consume ending limit
        ⟨parser.grammar.tables.lalrInitial, [startEntry parser.grammar start], .zero⟩ tokens with
    | none =>
      constructor
      · intro impossible
        contradiction
      · intro unended
        exact absurd unended.symm (Outcome.ne_unfinished_iff.mpr ⟨result, rfl⟩)
    | some own =>
      constructor
      · intro same
        exact congrArg Outcome.ofResult (Option.some.inj same)
      · intro same
        exact congrArg some (Outcome.ofResult_inj same)

end Parser

/-- By tables that pass validation and whose lexical automaton accepts nothing at once, a parse
of bytes, by a parser of any kind, with or without trimming, comes out as if all bytes had been
lexed before the first token was looked at. There is always a list of tokens and something that
they end with; a parse of the source has exactly the outcome of a parse of these tokens, and has
none within any limit just if that has none. -/
theorem parse_lexes_first {tables : Tables} {parser : Parser}
    (accepted : Grammar.ofTables tables = .ok parser.grammar) (made : parser.Made)
    (proper : parser.grammar.NoEmptyToken) (bytes : Array UInt8) (trim : Bool) :
    ∃ tokens ending,
      ByteSource.lex parser.grammar parser.errorSymbol bytes = some (tokens, ending) ∧
      (∀ outcome, outcome ≠ .unfinished →
        ((∃ limit, (parser.parse (ByteSource.ofBytes bytes) trim limit).outcome = outcome) ↔
          ∃ limit, parser.parseTokens tokens ending trim limit = outcome)) ∧
      ((∀ limit, (parser.parse (ByteSource.ofBytes bytes) trim limit).outcome = .unfinished) ↔
        ∀ limit, parser.parseTokens tokens ending trim limit = .unfinished) := by
  have well := Grammar.wellFormed_of_ofTables accepted
  obtain ⟨tokens, ending, lexed, upcoming⟩ :=
    ByteSource.exists_lex well proper (made.errorSymbol_lt well) bytes
  have same (outcome : Outcome ParseError Node) (ended : outcome ≠ .unfinished) :
      (∃ limit, (parser.parse (ByteSource.ofBytes bytes) trim limit).outcome = outcome) ↔
        ∃ limit, parser.parseTokens tokens ending trim limit = outcome := by
    obtain ⟨result, rfl⟩ := Outcome.ne_unfinished_iff.mp ended
    exact Parser.parse_iff_parseTokens upcoming trim result
  refine ⟨tokens, ending, lexed, same, fun endless limit => ?_, fun endless limit => ?_⟩
  · by_cases ended : parser.parseTokens tokens ending trim limit = .unfinished
    · exact ended
    · obtain ⟨other, parsed⟩ := (same _ ended).mpr ⟨limit, rfl⟩
      exact parsed.symm.trans (endless other)
  · by_cases ended : (parser.parse (ByteSource.ofBytes bytes) trim limit).outcome = .unfinished
    · exact ended
    · obtain ⟨other, parsed⟩ := (same _ ended).mp ⟨limit, rfl⟩
      exact parsed.symm.trans (endless other)

open Sums in
/-- The number of `1#2` with a line end behind it is the only token: the second one stands in a
comment. The automaton makes a tree of it, and so does a parse. -/
theorem parse_lexes_first_past_comment :
    Grammar.ofTables tables = .ok (Parser.ofGrammar grammar).grammar ∧
      (Parser.ofGrammar grammar).Made ∧ (Parser.ofGrammar grammar).grammar.NoEmptyToken ∧
      ByteSource.lex grammar none #[49, 35, 50, 10] =
        some ([⟨⟨Symbols.number, .terminal, "Num"⟩, 1, "1"⟩],
          .complete (Scan.endToken grammar 2)) ∧
      ∃ tree limit, ((Parser.ofGrammar grammar).parse
        (ByteSource.ofBytes #[49, 35, 50, 10]) true limit).outcome = .done tree := by
  have lexed : ByteSource.lex grammar none #[49, 35, 50, 10] =
      some ([⟨⟨Symbols.number, .terminal, "Num"⟩, 1, "1"⟩],
        .complete (Scan.endToken grammar 2)) := rfl
  have made : (Parser.ofGrammar grammar).Made := .strict rfl
  obtain ⟨tokens, ending, found, same, -⟩ := parse_lexes_first ofTables_tables made
    noEmptyToken_grammar #[49, 35, 50, 10] true
  obtain ⟨rfl, rfl⟩ := Prod.mk.inj (Option.some.inj (lexed.symm.trans found))
  obtain ⟨tree, parsed⟩ : ∃ tree, (Parser.ofGrammar grammar).parseTokens
      [⟨⟨Symbols.number, .terminal, "Num"⟩, 1, "1"⟩] (.complete (Scan.endToken grammar 2)) true 20 =
        .done tree := ⟨_, rfl⟩
  obtain ⟨limit, done⟩ := (same (.done tree) nofun).mpr ⟨20, parsed⟩
  exact ⟨ofTables_tables, made, noEmptyToken_grammar, lexed, tree, limit, done⟩

end TableDriven
