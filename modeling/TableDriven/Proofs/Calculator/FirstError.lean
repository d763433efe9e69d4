import TableDriven.Proofs.Calculator.Trimmed
import TableDriven.Proofs.Calculator.Viability

/-!
# Errors are reported at the first impossible token

A calculation that does not recover rejects a token exactly if no text behind it makes an
expression of the tokens up to it, while some text behind the token before it does. The
automaton may reduce on such a token before it rejects it, but it never pushes it. What has
been pushed is viable. And if a rejected token were viable behind what has been pushed, the
automaton would accept some expression that begins in this way, although it rejects the token
whatever comes behind it.
-/

namespace TableDriven.Calculator

/-- A token is the first by which the tokens that are offered cannot become an expression. -/
structure Impossible (offered : List Token) (index : Nat) (token : Token) : Prop where
  placed : offered[index]? = some token
  viable : Viable ((offered.take index).map fun token => token.symbol.id)
  unviable : ¬ Viable ((offered.take (index + 1)).map fun token => token.symbol.id)

/-- There is one such token at the most. -/
theorem Impossible.unique {offered : List Token} {index other : Nat} {token second : Token}
    (impossible : Impossible offered index token) (again : Impossible offered other second) :
    other = index := by
  have least {first later : Nat} {own next : Token} (before : Impossible offered first own)
      (behind : Impossible offered later next) : ¬ first < later := by
    intro smaller
    have front : offered.take (first + 1) <+: offered.take later :=
      List.take_prefix_take_left smaller
    exact before.unviable (behind.viable.of_prefix (front.map _))
  have forward := least impossible again
  have backward := least again impossible
  omega

/-- Some tokens have given symbols. -/
theorem exists_tokens (symbols : List SymbolId) :
    ∃ tokens : List Token, (tokens.map fun token => token.symbol.id) = symbols :=
  ⟨symbols.map fun symbol => ⟨⟨symbol, .terminal, ""⟩, 0, ""⟩, by simp [Function.comp_def]⟩

/-- An expression is accepted. -/
theorem yields_of_derives {tokens : List Token} {last : Token}
    (derives : grammar.Derives [Symbols.expr] (tokens.map fun token => token.symbol.id))
    (ends : last.symbol.id = Symbols.endOfInput) :
    ∃ tree, (automatonOf ⟨false, false⟩).Yields (.complete last) initialMachine tokens
      (.ok tree) := by
  obtain ⟨forest, derived⟩ := Derivation.exists_of_derives wellFormed_tables derives
  obtain ⟨tree, rfl⟩ := List.length_eq_one_iff.mp derived.length_eq
  exact ⟨tree, holds_certificate.accepts wellFormed_tables rfl rfl rfl ends derived⟩

section

variable {tokens before rest : List Token} {token : Token} {ending : Ending}
  {between after : Machine}

/-- What the calculator pushes and a token that it then rejects are not viable together. -/
theorem not_viable_of_rejected
    (pushes : (automatonOf ⟨false, false⟩).Pushes initialMachine before between)
    (reduces : (automatonOf ⟨false, false⟩).ReducesTo token between after)
    (unlisted : grammar.actionOn after.state token.symbol.id = .ok none) :
    ¬ Viable ((before ++ [token]).map fun token => token.symbol.id) := by
  rintro ⟨sentence, derives, -, more, split⟩
  -- An expression that begins in this way, with the end of the text behind it.
  obtain ⟨behind, rfl⟩ := exists_tokens more
  have symbols : ((before ++ token :: behind).map fun token => token.symbol.id) =
      sentence ++ [Symbols.endOfInput] := by
    simp [← split]
  obtain ⟨front, last, whole⟩ : ∃ front last, before ++ token :: behind = front ++ [last] :=
    ⟨_, _, (List.dropLast_append_getLast (by simp)).symm⟩
  rw [whole, List.map_append, List.map_singleton] at symbols
  obtain ⟨rfl, final⟩ := List.append_inj' symbols rfl
  obtain ⟨tree, yields⟩ := yields_of_derives derives (List.singleton_inj.mp final)
  have all := yields.with_last
  rw [← whole] at all
  have rejected := (reduces.of_yields (pushes.of_yields all)).eq_rejection rfl unlisted
  cases rejected

/-- The tokens that are offered are no heads of rules. -/
theorem not_head_offered {input : Array UInt8}
    (upcoming : Upcoming grammar none none 0 (ByteSource.ofBytes input) tokens ending) :
    ∀ token ∈ ending.offered tokens, ¬ IsHead token.symbol.id := by
  have stored : ∀ token ∈ tokens, ¬ IsHead token.symbol.id := by
    intro token member
    have labels := upcoming.labels wellFormed_tables (errorSymbol_lt false) (by simp) token member
    exact (labels_facts labels).1
  cases ending with
  | stopped error => exact stored
  | complete last =>
    intro token member
    rcases List.mem_append.mp member with among | final
    · exact stored token among
    · obtain rfl := List.mem_singleton.mp final
      rw [upcoming.last_symbol]
      decide

/-- The end of the text is not pushed. -/
theorem not_end_of_pushes {machine : Machine}
    (pushes : (automatonOf ⟨false, false⟩).Pushes machine tokens after) :
    ∀ token ∈ tokens, token.symbol.id ≠ Symbols.endOfInput := by
  induction pushes with
  | nil => simp
  | @cons machine between after last token tokens reduces shifted _ inductionHypothesis =>
    intro other member
    rcases List.mem_cons.mp member with rfl | later
    · obtain ⟨target, moved⟩ := (Automaton.effect_of_step_eq shifted).transition (.inl rfl)
      intro same
      rw [same] at moved
      exact endMarked_grammar.kept _ target moved
    · exact inductionHypothesis other later

/-- What is yielded from the tokens in store is yielded from those that are offered. -/
theorem yields_offered {machine : Machine} {result : Except Halt Node}
    (yields : (automatonOf ⟨false, false⟩).Yields ending machine tokens result) :
    (automatonOf ⟨false, false⟩).Yields ending machine (ending.offered tokens) result := by
  cases ending with
  | complete last => exact yields.with_last
  | stopped error => exact yields

/-- What the calculator makes of the tokens that are offered. -/
theorem verdict_offered {input : Array UInt8}
    (upcoming : Upcoming grammar none none 0 (ByteSource.ofBytes input) tokens ending) :
    (automatonOf ⟨false, false⟩).Verdict initialMachine (ending.offered tokens) := by
  have terminal : ∀ token ∈ ending.offered tokens, ∀ state target,
      grammar.actionOn state token.symbol.id ≠ .ok (some (.goto target)) := by
    intro token member state target listed
    exact not_head_offered upcoming token member (head_of_goto listed)
  exact Automaton.verdict settling_grammar _ path_initialMachine terminal

/-- The first impossible token is the one that is rejected. -/
theorem impossible_of_rejected {input : Array UInt8}
    (upcoming : Upcoming grammar none none 0 (ByteSource.ofBytes input) tokens ending)
    (split : ending.offered tokens = before ++ token :: rest)
    (pushes : (automatonOf ⟨false, false⟩).Pushes initialMachine before between)
    (reduces : (automatonOf ⟨false, false⟩).ReducesTo token between after)
    (unlisted : grammar.actionOn after.state token.symbol.id = .ok none) :
    Impossible (ending.offered tokens) before.length token where
  placed := by
    rw [split]
    simp
  viable := by
    rw [split, List.take_left]
    refine viable_of_pushes pushes fun own member => ?_
    refine not_head_offered upcoming own ?_
    rw [split]
    exact List.mem_append_left _ member
  unviable := by
    have front : (before ++ token :: rest).take (before.length + 1) = before ++ [token] :=
      List.take_length_add_append 1
    rw [split, front]
    exact not_viable_of_rejected pushes reduces unlisted

/-- A token that is accepted is the end of the text, and none comes behind it. -/
theorem last_of_accepted {input : Array UInt8}
    (upcoming : Upcoming grammar none none 0 (ByteSource.ofBytes input) tokens ending)
    (split : ending.offered tokens = before ++ token :: rest) {state : LalrStateId}
    (listed : grammar.actionOn state token.symbol.id = .ok (some .accept)) :
    token.symbol.id = Symbols.endOfInput ∧ rest = [] := by
  have ends : token.symbol.id = grammar.endSymbol.id := endMarked_grammar.accepts _ _ listed
  refine ⟨ends, ?_⟩
  obtain ⟨front, offers⟩ := Ending.offered_split split
  cases behind : tokens.drop before.length with
  | nil =>
    rw [behind] at offers
    cases ending with
    | stopped error => cases offers
    | complete last => exact (List.cons.inj offers).2.symm
  | cons own others =>
    rw [behind, Ending.offered_cons] at offers
    obtain ⟨rfl, -⟩ := List.cons.inj offers
    have member : own ∈ tokens := by
      rw [front, behind]
      simp
    have labels := upcoming.labels wellFormed_tables (errorSymbol_lt false) (by simp) own member
    exact absurd ends (endMarked_grammar.unmarked wellFormed_tables (by decide) labels)

/-- If the end of the text is accepted, all tokens that are offered are viable. -/
theorem viable_of_accepted {input : Array UInt8}
    (upcoming : Upcoming grammar none none 0 (ByteSource.ofBytes input) tokens ending)
    (split : ending.offered tokens = before ++ token :: rest)
    (pushes : (automatonOf ⟨false, false⟩).Pushes initialMachine before between)
    (reduces : (automatonOf ⟨false, false⟩).ReducesTo token between after)
    (listed : grammar.actionOn after.state token.symbol.id = .ok (some .accept)) :
    Viable ((ending.offered tokens).map fun token => token.symbol.id) := by
  obtain ⟨ends, rfl⟩ := last_of_accepted upcoming split listed
  have path : StackPath grammar between.state between.stack := pushes.path path_initialMachine
  have pushed : grammar.Derives between.stack.labels (before.map fun token => token.symbol.id) :=
    Automaton.Pushes.derives settling_grammar pushes path_initialMachine
  have reduced : grammar.Derives after.stack.labels between.stack.labels :=
    Automaton.ReducesTo.derives settling_grammar reduces path
  rw [labels_of_accept (reduces.path path) listed] at reduced
  refine ⟨_, reduced.trans pushed, ?_, ?_⟩
  · intro symbol member
    obtain ⟨own, listed, rfl⟩ := List.mem_map.mp member
    refine not_head_offered upcoming own ?_
    rw [split]
    exact List.mem_append_left _ listed
  · have all : (ending.offered tokens).map (fun token => token.symbol.id) =
        before.map (fun token => token.symbol.id) ++ [Symbols.endOfInput] := by
      rw [split, List.map_append, List.map_singleton, ends]
    exact ⟨[], all ▸ List.append_nil _⟩

/-- A token is rejected if one is impossible: otherwise all that are offered would be viable. -/
theorem rejected_of_impossible {input : Array UInt8}
    (upcoming : Upcoming grammar none none 0 (ByteSource.ofBytes input) tokens ending)
    {index : Nat} (impossible : Impossible (ending.offered tokens) index token) :
    ∃ between after,
      (automatonOf ⟨false, false⟩).Pushes initialMachine ((ending.offered tokens).take index)
        between ∧
      (automatonOf ⟨false, false⟩).ReducesTo token between after ∧
      grammar.actionOn after.state token.symbol.id = .ok none ∧
      ending.offered tokens = (ending.offered tokens).take index ++
        token :: (ending.offered tokens).drop (index + 1) := by
  have unviable : ¬ Viable ((ending.offered tokens).map fun token => token.symbol.id) := by
    intro viable
    exact impossible.unviable (viable.of_prefix ((List.take_prefix _ _).map _))
  cases verdict_offered upcoming with
  | pushed after pushes =>
    exact absurd (viable_of_pushes pushes (not_head_offered upcoming)) unviable
  | accepted before own rest between after split pushes reduces listed =>
    exact absurd (viable_of_accepted upcoming split pushes reduces listed) unviable
  | rejected before own rest between after split pushes reduces unlisted =>
    have again := impossible_of_rejected upcoming split pushes reduces unlisted
    obtain rfl := impossible.unique again
    obtain rfl := Option.some.inj (again.placed.symm.trans impossible.placed)
    have front : (ending.offered tokens).take before.length = before := by
      rw [split, List.take_left]
    have back : (ending.offered tokens).drop (before.length + 1) = rest := by
      rw [split]
      exact List.drop_length_add_append 1
    rw [front, back]
    exact ⟨between, after, pushes, reduces, unlisted, split⟩

/-- A token is rejected if the parse reports an unexpected one. -/
theorem impossible_of_unexpected {input : Array UInt8}
    (upcoming : Upcoming grammar none none 0 (ByteSource.ofBytes input) tokens ending)
    {line : Nat} {found : String} {expected : List String}
    (yields : (automatonOf ⟨false, false⟩).Yields ending initialMachine tokens
      (.error (.error (.unexpected line found expected)))) :
    ∃ index token, Impossible (ending.offered tokens) index token ∧ token.line = line ∧
      token.symbol.name = found := by
  have offered := yields_offered yields
  cases verdict_offered upcoming with
  | pushed after pushes =>
    exfalso
    rw [← List.append_nil (ending.offered tokens)] at offered
    have nothing := pushes.of_yields offered
    cases ending with
    | complete last =>
      have kept := not_end_of_pushes pushes last (List.mem_append_right _ List.mem_cons_self)
      exact kept upcoming.last_symbol
    | stopped error =>
      generalize reported : Except.error (Halt.error (ParseError.unexpected line found expected)) =
        result at nothing
      cases nothing with
      | refilled complete => cases complete
      | stopped ends =>
        obtain rfl := Ending.stopped.inj ends
        obtain rfl := Halt.error.inj (Except.error.inj reported)
        rcases upcoming.stopped_cases wellFormed_tables (errorSymbol_lt false) (by simp) with
          ⟨line, same⟩ | ⟨line, text, symbol, same, -⟩
        · cases same
        · cases same
  | accepted before own rest between after split pushes reduces listed =>
    exfalso
    rw [split] at offered
    have result := (reduces.of_yields (pushes.of_yields offered)).eq_root listed
    have path : StackPath grammar after.state after.stack :=
      reduces.path (pushes.path path_initialMachine)
    obtain ⟨tree, root⟩ := path.root_of_accept sturdy_grammar listed
    rw [root] at result
    cases result
  | rejected before own rest between after split pushes reduces unlisted =>
    rw [split] at offered
    have result := (reduces.of_yields (pushes.of_yields offered)).eq_rejection rfl unlisted
    have path : StackPath grammar after.state after.stack :=
      reduces.path (pushes.path path_initialMachine)
    obtain ⟨names, reported⟩ : ∃ names, (automatonOf ⟨false, false⟩).rejection after.state own =
        .error (.unexpected own.line own.symbol.name names) :=
      Automaton.rejection_eq wellFormed_tables (path.state_lt wellFormed_tables) own
    rw [reported] at result
    obtain ⟨rfl, rfl, -⟩ := by simpa using result
    exact ⟨before.length, own, impossible_of_rejected upcoming split pushes reduces unlisted, rfl,
      rfl⟩

/-- The run of a text with an impossible token rejects this token, and has read nothing behind
it. -/
theorem run_rejects_impossible {input : Array UInt8}
    (upcoming : Upcoming grammar none none 0 (ByteSource.ofBytes input) tokens ending)
    {index : Nat} (impossible : Impossible (ending.offered tokens) index token) :
    ∃ expected ready last,
      Run.Reaches (automatonOf ⟨false, false⟩) (firstRun input) ready ∧
      ready.step (automatonOf ⟨false, false⟩) =
        .ended (.error (.error (.unexpected token.line token.symbol.name expected))) last ∧
      Comes grammar none none 0 (ByteSource.ofBytes input) ((ending.offered tokens).take index)
        token last.source := by
  obtain ⟨between, after, pushes, reduces, unlisted, split⟩ :=
    rejected_of_impossible upcoming impossible
  obtain ⟨source, comes⟩ := upcoming.comes split
  have rejects : ∃ ready last,
      Run.Reaches (automatonOf ⟨false, false⟩) (firstRun input) ready ∧
      ready.step (automatonOf ⟨false, false⟩) =
        .ended (.error ((automatonOf ⟨false, false⟩).rejection after.state token)) last ∧
      last.source = source :=
    Run.rejects_behind rfl comes pushes reduces unlisted
  obtain ⟨ready, last, reached, stopped, rfl⟩ := rejects
  have path : StackPath grammar after.state after.stack :=
    reduces.path (pushes.path path_initialMachine)
  obtain ⟨expected, reported⟩ : ∃ expected,
      (automatonOf ⟨false, false⟩).rejection after.state token =
        .error (.unexpected token.line token.symbol.name expected) :=
    Automaton.rejection_eq wellFormed_tables (path.state_lt wellFormed_tables) token
  rw [reported] at stopped
  exact ⟨expected, ready, last, reached, stopped, comes⟩

end

/-- A trimming calculation reports the error that a full one does, and leaves the text at the
same place. -/
theorem strict_error_of_trim (input : Array UInt8) (trim : Bool) (limit : Nat)
    (error : ParseError) :
    ((parseWith grammar input ⟨trim, false⟩ limit).outcome = .failed error ↔
        (parseWith grammar input ⟨false, false⟩ limit).outcome = .failed error) ∧
      (parseWith grammar input ⟨trim, false⟩ limit).source =
        (parseWith grammar input ⟨false, false⟩ limit).source := by
  cases trim with
  | false => exact ⟨Iff.rfl, rfl⟩
  | true =>
    have collapsed := collapsed_parseWith input false limit
    exact ⟨collapsed.outcome.failed_iff error, collapsed.source⟩

/-- Every text has one list of tokens in store. A calculation that does not recover reports a
token as unexpected exactly if there is a first one by which those that are offered cannot
become an expression and the end of the text. Only one token can be the first, its line and the
name of its symbol are reported, and nothing behind it has been read. -/
theorem unexpected_at_first_impossible (input : Array UInt8) (trim : Bool) :
    ∃ tokens ending,
      Upcoming grammar none none 0 (ByteSource.ofBytes input) tokens ending ∧
      (∀ others last, Upcoming grammar none none 0 (ByteSource.ofBytes input) others last →
        others = tokens ∧ last = ending) ∧
      (∀ line found,
        (∃ limit expected, parse input ⟨trim, false⟩ limit =
          .failed (.parse (.unexpected line found expected))) ↔
        ∃ index token, Impossible (ending.offered tokens) index token ∧ token.line = line ∧
          token.symbol.name = found) ∧
      (∀ index other token second, Impossible (ending.offered tokens) index token →
        Impossible (ending.offered tokens) other second → other = index) ∧
      ∀ index token limit line found expected,
        Impossible (ending.offered tokens) index token →
        parse input ⟨trim, false⟩ limit = .failed (.parse (.unexpected line found expected)) →
        Comes grammar none none 0 (ByteSource.ofBytes input) ((ending.offered tokens).take index)
          token (parseWith grammar input ⟨trim, false⟩ limit).source := by
  obtain ⟨tokens, ending, upcoming⟩ := exists_upcoming input false
  refine ⟨tokens, ending, upcoming, fun others last => upcoming.unique, ?_, ?_, ?_⟩
  · intro line found
    constructor
    · rintro ⟨limit, expected, failed⟩
      have full := (strict_error_of_trim input trim limit _).1.mp (parse_eq_failed.mp failed)
      have yields := (parse_iff_yields ⟨false, false⟩ upcoming
        (.error (.error (.unexpected line found expected)))).mp ⟨limit, full⟩
      exact impossible_of_unexpected upcoming yields
    · rintro ⟨index, token, impossible, rfl, rfl⟩
      obtain ⟨expected, ready, last, reached, stopped, -⟩ :=
        run_rejects_impossible upcoming impossible
      obtain ⟨limit, full⟩ := (parse_iff_endsWith input ⟨false, false⟩ _).mpr
        ⟨ready, last, reached, stopped⟩
      have failed := (strict_error_of_trim input trim limit _).1.mpr full
      exact ⟨limit, expected, parse_eq_failed.mpr failed⟩
  · intro index other token second impossible again
    exact impossible.unique again
  · intro index token limit line found expected impossible failed
    obtain ⟨own, ready, last, reached, stopped, comes⟩ :=
      run_rejects_impossible upcoming impossible
    obtain ⟨same, source⟩ :=
      strict_error_of_trim input trim limit (.unexpected line found expected)
    have full := same.mp (parse_eq_failed.mp failed)
    have left : (parseWith grammar input ⟨false, false⟩ limit).source = last.source := by
      refine Parser.source_of_reaches (begin?_parserFor false _) reached stopped ?_
      intro unfinished
      have both := full.symm.trans unfinished
      cases both
    rw [source, left]
    exact comes

end TableDriven.Calculator
