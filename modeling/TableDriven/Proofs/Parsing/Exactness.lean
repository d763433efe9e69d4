import TableDriven.Proofs.Lexing.Unrecognized
import TableDriven.Proofs.Parsing.Completeness
import TableDriven.Proofs.Parsing.Soundness

/-!
# What is accepted is what can be derived

Let the tables be consistent and have a certificate, and let nothing but the end of
the input be accepted and the end never be pushed. Then an automaton that neither
trims nor recovers ends with a tree exactly if its tokens end with the end of the
input and the tree is a derivation tree of the start symbol over all of them.
-/

namespace TableDriven

/-- The end of the input is what the automaton accepts on, it is never pushed, and
no text is scanned as it. -/
structure Grammar.EndMarked (grammar : Grammar) : Prop where
  unscanned : ¬ grammar.tables.Accepts grammar.endSymbol.id
  faultless : grammar.lexicalError.id ≠ grammar.endSymbol.id
  accepts : ∀ state symbol, grammar.actionOn state symbol = .ok (some .accept) →
    symbol = grammar.endSymbol.id
  kept : ∀ state target, ¬ grammar.Transition state grammar.endSymbol.id target

/-- Tables from which a strict automaton accepts exactly what can be derived. -/
structure Grammar.Exact (grammar : Grammar) (certificate : Certificate) : Prop where
  wellFormed : grammar.tables.WellFormed
  consistent : grammar.Consistent
  endMarked : grammar.EndMarked
  certified : certificate.Holds grammar

/-- A pushed token was pushed along a transition. -/
theorem Automaton.Effect.transition {automaton : Automaton} {machine after : Machine}
    {token next : Token} {signal : Signal}
    (effect : automaton.Effect machine token after next signal)
    (pushed : signal = .shift ∨ signal = .goto) :
    ∃ target, automaton.grammar.Transition machine.state token.symbol.id target := by
  cases effect with
  | shift target listed => exact ⟨target, .shift listed⟩
  | goto target listed => exact ⟨target, .goto listed⟩
  | reduce => simp at pushed
  | substitute => simp at pushed
  | unwind => simp at pushed
  | accept => simp at pushed
  | reject => simp at pushed

/-- The same tokens, or with the end of the input behind them. -/
def Ending.Adds (ending : Ending) (tokens all : List Token) : Prop :=
  all = tokens ∨ ∃ last, ending = .complete last ∧ all = tokens ++ [last]

/-- The first of the tokens is one of them or the end of the input. -/
theorem Ending.Adds.cases {ending : Ending} {token : Token} {tokens rest : List Token}
    (adds : ending.Adds tokens (token :: rest)) :
    (∃ others, tokens = token :: others ∧ ending.Adds others rest) ∨
      (tokens = [] ∧ ending = .complete token) := by
  rcases adds with rfl | ⟨last, complete, same⟩
  · exact .inl ⟨rest, rfl, .inl rfl⟩
  · cases tokens with
    | nil =>
      obtain ⟨rfl, -⟩ := List.cons.inj same
      exact .inr ⟨rfl, complete⟩
    | cons first others =>
      obtain ⟨rfl, behind⟩ := List.cons.inj same
      exact .inl ⟨others, rfl, .inr ⟨last, complete, behind⟩⟩

/-- A tree that the automaton ends with is a derivation tree of the start symbol over
the tokens of the trees on its stack and the tokens still to come. Induct on what
the automaton does: every token that is pushed moves from the one to the other. The
end of the input may be the last of the tokens to come. -/
theorem Grown.of_yields {automaton : Automaton} {ending : Ending} {machine : Machine}
    {all : List Token} {result : Except Halt Node}
    (well : automaton.grammar.tables.WellFormed) (consistent : automaton.grammar.Consistent)
    (marked : automaton.grammar.EndMarked) (untrimmed : automaton.trim = false)
    (strict : automaton.errorSymbol = none)
    (ends : ∀ last, ending = .complete last → last.symbol.id = automaton.grammar.endSymbol.id)
    (yields : automaton.Yields ending machine all result) :
    ∀ (tree : Node) (labels : List SymbolId) (before tokens : List Token), result = .ok tree →
      StackPath automaton.grammar machine.state machine.stack →
      Grown automaton.grammar machine.stack labels before →
      (∀ token ∈ tokens, token.symbol.id ≠ automaton.grammar.endSymbol.id) →
      ending.Adds tokens all →
      (∃ last, ending = .complete last) ∧ Derivation automaton.grammar
        [automaton.grammar.tables.startSymbol] (before ++ tokens) [tree] := by
  induction yields with
  | pushed stepped pushed _ inductionHypothesis =>
    intro tree labels before tokens ended path grown unmarked adds
    have effect := Automaton.effect_of_step_eq stepped
    obtain ⟨target, moved⟩ := effect.transition pushed
    obtain ⟨others, yielded, further, extended, -⟩ :=
      grown.effect well consistent untrimmed effect path
    rcases adds.cases with ⟨remaining, rfl, left⟩ | ⟨rfl, complete⟩
    · have onward := inductionHypothesis tree others yielded remaining ended (path.effect effect)
        further (fun token member => unmarked token (List.mem_cons_of_mem _ member)) left
      rw [extended pushed, List.append_assoc, List.singleton_append] at onward
      exact onward
    · rw [ends _ complete] at moved
      exact absurd moved (marked.kept _ target)
  | again stepped rest inductionHypothesis =>
    intro tree labels before tokens ended path grown unmarked adds
    have effect := Automaton.effect_of_step_eq stepped
    obtain ⟨others, yielded, further, -, kept⟩ :=
      grown.effect well consistent untrimmed effect path
    obtain ⟨rfl, rfl⟩ := kept rfl strict
    exact inductionHypothesis tree others yielded tokens ended (path.effect effect) further unmarked
      adds
  | accepted stepped =>
    intro tree labels before tokens ended path grown unmarked adds
    cases Automaton.effect_of_step_eq stepped with
    | accept listed =>
      have last := marked.accepts _ _ listed
      rcases adds.cases with ⟨remaining, rfl, -⟩ | ⟨rfl, complete⟩
      · exact absurd last (unmarked _ List.mem_cons_self)
      · refine ⟨⟨_, complete⟩, ?_⟩
        rw [List.append_nil]
        exact grown.root consistent path listed (Machine.root_of_mapError ended)
  | rejected stepped => simp
  | halted stepped => simp
  | refilled complete rest inductionHypothesis =>
    intro tree labels before tokens ended path grown unmarked adds
    obtain rfl : tokens = [] := by
      rcases adds with same | ⟨last, -, same⟩
      · exact same.symm
      · simp at same
    exact inductionHypothesis tree labels before [] ended path grown unmarked
      (.inr ⟨_, complete, rfl⟩)
  | stopped ends => simp

/-- A token that is not the end of the input does not have its symbol, unless this is what
recovery works with. -/
theorem Grammar.EndMarked.unmarked {grammar : Grammar} (marked : grammar.EndMarked)
    (well : grammar.tables.WellFormed) {errorSymbol : Option SymbolId}
    (ordinary : errorSymbol ≠ some grammar.endSymbol.id) {symbol : Symbol}
    (labels : Scan.Labels grammar errorSymbol symbol) : symbol.id ≠ grammar.endSymbol.id := by
  cases labels with
  | accepted id symbol accepts named =>
    rw [Grammar.symbol_id well named]
    intro same
    exact marked.unscanned (same ▸ accepts)
  | recovered error symbol given named =>
    rw [Grammar.errorTerminal_id well named]
    intro same
    exact ordinary (same ▸ given)
  | faulty => exact marked.faultless

/-- A parser that neither trims nor recovers ends with a tree exactly if the tokens in
store come to an end with the end of the input and the tree is a derivation tree of
the start symbol over them. -/
theorem Parser.parse_eq_done_iff {σ : Type} [Source σ] (parser : Parser) {source : σ}
    {certificate : Certificate} {tokens : List Token} {ending : Ending}
    (exact : parser.grammar.Exact certificate) (strict : parser.errorSymbol = none)
    (upcoming : Upcoming parser.grammar parser.errorSymbol none 0 source tokens ending)
    (tree : Node) :
    (∃ limit, (parser.parse source false limit).outcome = .done tree) ↔
      (∃ last, ending = .complete last) ∧
        Derivation parser.grammar [parser.grammar.tables.startSymbol] tokens [tree] := by
  obtain ⟨well, consistent, marked, holds⟩ := exact
  obtain ⟨first, begun⟩ := Parser.exists_begin? well source
  have yields : (∃ limit, (parser.parse source false limit).outcome = .done tree) ↔
      (parser.automaton false).Yields ending first.machine tokens (.ok tree) :=
    Parser.parse_iff_yields false (.ok tree) begun upcoming
  rw [yields]
  obtain ⟨start, named, rfl⟩ := Parser.begin?_eq_ok.mp begun
  constructor
  · intro accepted
    have unmarked : ∀ token ∈ tokens, token.symbol.id ≠ parser.grammar.endSymbol.id := by
      intro token member
      rw [strict] at upcoming
      exact marked.unmarked well (by simp) (upcoming.labels well (by simp) (by simp) token member)
    have ends : ∀ last, ending = .complete last →
        last.symbol.id = parser.grammar.endSymbol.id := by
      rintro last rfl
      exact upcoming.last_symbol
    exact Grown.of_yields well consistent marked rfl strict ends accepted tree [] [] tokens rfl
      (.start start named) (.start _) unmarked (.inl rfl)
  · rintro ⟨⟨last, rfl⟩, derived⟩
    exact holds.accepts well rfl rfl rfl upcoming.last_symbol derived

/-- The only derivation tree of the start symbol over the tokens in store is the one
that the parser ends with, for the parser would end with any other as well. -/
theorem Parser.derivation_iff_of_parse {σ : Type} [Source σ] (parser : Parser) {source : σ}
    {certificate : Certificate} {tokens : List Token} {ending : Ending} {tree : Node} {limit : Nat}
    (exact : parser.grammar.Exact certificate) (strict : parser.errorSymbol = none)
    (upcoming : Upcoming parser.grammar parser.errorSymbol none 0 source tokens ending)
    (parsed : (parser.parse source false limit).outcome = .done tree) (other : Node) :
    Derivation parser.grammar [parser.grammar.tables.startSymbol] tokens [other] ↔
      other = tree := by
  obtain ⟨first, begun⟩ := Parser.exists_begin? exact.wellFormed source
  have accepted := Parser.parse_eq_done_iff parser exact strict upcoming
  have ends (node : Node) := Parser.parse_iff_endsWith false (.ok node) begun
  obtain ⟨complete, derived⟩ := (accepted tree).mp ⟨limit, parsed⟩
  constructor
  · intro second
    have again := (ends other).mp ((accepted other).mpr ⟨complete, second⟩)
    have own := (ends tree).mp ⟨limit, parsed⟩
    exact Except.ok.inj (Run.EndsWith.unique own again)
  · rintro rfl
    exact derived

/-- The end of the input is only at hand when the source is at its end, unless it is what
recovery works with. -/
theorem Run.atEnd_of_reaches {σ : Type} [Source σ] {automaton : Automaton} {first last : Run σ}
    (well : automaton.grammar.tables.WellFormed) (marked : automaton.grammar.EndMarked)
    (recoverable : ∀ error ∈ automaton.errorSymbol,
      error < automaton.grammar.tables.count .symbol)
    (ordinary : automaton.errorSymbol ≠ some automaton.grammar.endSymbol.id)
    (empty : first.pending = none) (reached : Reaches automaton first last) :
    ∀ token ∈ last.pending, token.symbol.id = automaton.grammar.endSymbol.id →
      Source.atEnd last.source = true := by
  refine held_of_reaches (fun token source =>
    token.symbol.id = automaton.grammar.endSymbol.id → Source.atEnd source = true)
    ?_ ?_ empty reached
  · intro source token scanned last
    cases done : Source.atEnd source with
    | true =>
      rw [Scan.next_of_atEnd done]
      exact done
    | false =>
      have labels := Scan.next_labels well recoverable done scanned
      exact absurd last (marked.unmarked well ordinary labels)
  · intro machine after token next source effect known last
    cases effect with
    | reduce => exact known last
    | substitute error symbol unlisted recovers _ named =>
      rw [Grammar.errorTerminal_id well named] at last
      exact absurd (last ▸ recovers) ordinary
    | unwind => exact known last

/-- A parser that does not recover ends with a tree only at the end of its source. -/
theorem Parser.atEnd_of_parse {σ : Type} [Source σ] (parser : Parser) {source : σ} {trim : Bool}
    {limit : Nat} {tree : Node} (well : parser.grammar.tables.WellFormed)
    (marked : parser.grammar.EndMarked) (strict : parser.errorSymbol = none)
    (parsed : (parser.parse source trim limit).outcome = .done tree) :
    Source.atEnd (parser.parse source trim limit).source = true := by
  obtain ⟨first, last, begun, reached, stopped, same⟩ := Parser.reaches_of_parse_eq_done parsed
  obtain ⟨start, -, rfl⟩ := Parser.begin?_eq_ok.mp begun
  obtain ⟨token, held, listed, -⟩ := Run.accepted_of_step stopped
  rw [same]
  have own : (parser.automaton trim).errorSymbol = none := strict
  exact Run.atEnd_of_reaches well marked (by simp [own]) (by simp [own]) rfl reached token held
    (marked.accepts _ _ listed)

end TableDriven
