import TableDriven.Proofs.Lexing.Progress

/-!
# The tokens that a source has in store

Which tokens are offered to the automaton is settled by the source alone. Scanned
one after the other, blanks are dropped, a line comment is dropped with the rest
of its line, and everything is dropped from the opening of a block comment to the
next closing, however many openings lie between. So a source has a list of tokens
in store, and after them either the end of the input, text that is no token, or a
comment that is not closed. It has only one such list.
-/

namespace TableDriven

/-- What is done with a token before the automaton sees it. -/
inductive Fate where
  /-- It is dropped, and leaves so many comment openings unclosed. -/
  | dropped (depth : Nat)
  /-- It is dropped together with the rest of its line. -/
  | lineDropped
  /-- It ends the parse. -/
  | stops (error : ParseError)
  /-- It is offered to the automaton. -/
  | offered

/-- What is done with a token when so many comment openings are unclosed. -/
def Token.fate (token : Token) (depth : Nat) : Fate :=
  if depth = 0 then
    match token.symbol.kind with
    | .whitespace => .dropped depth
    | .commentStart => .dropped (depth + 1)
    | .commentLine => .lineDropped
    | .error => .stops (.lexical token.line token.text)
    | .endOfInput => .offered
    | .terminal => .offered
    | .nonterminal => .offered
    | .commentEnd => .offered
  else
    match token.symbol.kind with
    | .commentEnd => .dropped 0
    | .commentStart => .dropped (depth + 1)
    | .endOfInput => .stops (.unterminatedComment token.line)
    | _ => .dropped depth

/-- Text that is no token ends the parse unless it stands in a comment. -/
theorem Token.fate_of_error {token : Token} (faulty : token.symbol.kind = .error) (depth : Nat) :
    token.fate depth =
      if depth = 0 then .stops (.lexical token.line token.text) else .dropped depth := by
  rw [fate, faulty]

/-- A terminal is offered unless it stands in a comment. -/
theorem Token.fate_of_terminal {token : Token} (ordinary : token.symbol.kind = .terminal)
    (depth : Nat) : token.fate depth = if depth = 0 then .offered else .dropped depth := by
  rw [fate, ordinary]

/-- No token is offered inside a comment. -/
theorem Token.depth_of_offered {token : Token} {depth : Nat}
    (offered : token.fate depth = .offered) : depth = 0 := by
  by_cases outside : depth = 0
  · exact outside
  · rw [fate, if_neg outside] at offered
    split at offered <;> contradiction

/-- No line is dropped inside a comment. -/
theorem Token.depth_of_lineDropped {token : Token} {depth : Nat}
    (dropped : token.fate depth = .lineDropped) : depth = 0 := by
  by_cases outside : depth = 0
  · exact outside
  · rw [fate, if_neg outside] at dropped
    split at dropped <;> contradiction

/-- How the tokens of a source come to an end. -/
inductive Ending where
  /-- With the end of the input, which is scanned as this token again and again. -/
  | complete (last : Token)
  /-- With an error. -/
  | stopped (error : ParseError)

variable {σ : Type} [Source σ]

/-- The tokens that will be offered to the automaton and how they end, from a token
at hand if there is one, the number of comment openings that are unclosed, and a
source. -/
inductive Upcoming (grammar : Grammar) (errorSymbol : Option SymbolId) :
    Option Token → Nat → σ → List Token → Ending → Prop where
  | finished {source : σ} (done : Source.atEnd source = true) :
      Upcoming grammar errorSymbol none 0 source []
        (.complete (Scan.endToken grammar (Source.line source)))
  | fetched {depth : Nat} {source : σ} {token : Token} {tokens : List Token} {ending : Ending}
      (left : depth = 0 → Source.atEnd source = false)
      (scanned : (Scan.next grammar errorSymbol .zero source).result = .ok token)
      (rest : Upcoming grammar errorSymbol (some token) depth
        (Scan.next grammar errorSymbol .zero source).source tokens ending) :
      Upcoming grammar errorSymbol none depth source tokens ending
  | dropped {depth after : Nat} {source : σ} {token : Token} {tokens : List Token}
      {ending : Ending} (fate : token.fate depth = .dropped after)
      (rest : Upcoming grammar errorSymbol none after source tokens ending) :
      Upcoming grammar errorSymbol (some token) depth source tokens ending
  | lineDropped {depth : Nat} {source : σ} {token : Token} {tokens : List Token}
      {ending : Ending} (fate : token.fate depth = .lineDropped)
      (rest : Upcoming grammar errorSymbol none depth (Run.nextLine source) tokens ending) :
      Upcoming grammar errorSymbol (some token) depth source tokens ending
  | stopped {depth : Nat} {source : σ} {token : Token} {error : ParseError}
      (fate : token.fate depth = .stops error) :
      Upcoming grammar errorSymbol (some token) depth source [] (.stopped error)
  | offered {depth : Nat} {source : σ} {token : Token} {tokens : List Token} {ending : Ending}
      (fate : token.fate depth = .offered)
      (rest : Upcoming grammar errorSymbol none depth source tokens ending) :
      Upcoming grammar errorSymbol (some token) depth source (token :: tokens) ending

namespace Upcoming

variable {grammar : Grammar} {errorSymbol : Option SymbolId} {hand : Option Token} {depth : Nat}
  {source : σ} {tokens others : List Token} {ending last : Ending}

/-- A source has only one list of tokens in store. -/
theorem unique (upcoming : Upcoming grammar errorSymbol hand depth source tokens ending)
    (second : Upcoming grammar errorSymbol hand depth source others last) :
    others = tokens ∧ last = ending := by
  induction upcoming generalizing others last with
  | finished done =>
    cases second with
    | finished => exact ⟨rfl, rfl⟩
    | fetched left => simp [left rfl] at done
  | fetched left scanned rest inductionHypothesis =>
    cases second with
    | finished done => simp [left rfl] at done
    | fetched _ again remaining =>
      obtain rfl := Except.ok.inj (scanned.symm.trans again)
      exact inductionHypothesis remaining
  | dropped fate rest inductionHypothesis =>
    cases second with
    | dropped again remaining =>
      obtain rfl := Fate.dropped.inj (fate.symm.trans again)
      exact inductionHypothesis remaining
    | lineDropped again => simp [fate] at again
    | stopped again => simp [fate] at again
    | offered again => simp [fate] at again
  | lineDropped fate rest inductionHypothesis =>
    cases second with
    | dropped again => simp [fate] at again
    | lineDropped again remaining => exact inductionHypothesis remaining
    | stopped again => simp [fate] at again
    | offered again => simp [fate] at again
  | stopped fate =>
    cases second with
    | dropped again => simp [fate] at again
    | lineDropped again => simp [fate] at again
    | stopped again =>
      obtain rfl := Fate.stops.inj (fate.symm.trans again)
      exact ⟨rfl, rfl⟩
    | offered again => simp [fate] at again
  | offered fate rest inductionHypothesis =>
    cases second with
    | dropped again => simp [fate] at again
    | lineDropped again => simp [fate] at again
    | stopped again => simp [fate] at again
    | offered again remaining =>
      obtain ⟨rfl, rfl⟩ := inductionHypothesis remaining
      exact ⟨rfl, rfl⟩

/-- What is in store behind a token at hand follows from its fate. -/
theorem of_hand {token : Token}
    (upcoming : Upcoming grammar errorSymbol (some token) depth source tokens ending) :
    match token.fate depth with
    | .dropped after => Upcoming grammar errorSymbol none after source tokens ending
    | .lineDropped => Upcoming grammar errorSymbol none depth (Run.nextLine source) tokens ending
    | .stops error => tokens = [] ∧ ending = .stopped error
    | .offered => ∃ rest, tokens = token :: rest ∧
        Upcoming grammar errorSymbol none depth source rest ending := by
  cases upcoming with
  | dropped fate rest =>
    rw [fate]
    exact rest
  | lineDropped fate rest =>
    rw [fate]
    exact rest
  | stopped fate =>
    rw [fate]
    exact ⟨rfl, rfl⟩
  | offered fate rest =>
    rw [fate]
    exact ⟨_, rfl, rest⟩

/-- Without a token at hand the first one is scanned. It may mark the end of the input, which is
not counted among the tokens in store until it is at hand. -/
theorem of_none (upcoming : Upcoming grammar errorSymbol none depth source tokens ending) :
    ∃ token others, (Scan.next grammar errorSymbol .zero source).result = .ok token ∧
      Upcoming grammar errorSymbol (some token) depth
        (Scan.next grammar errorSymbol .zero source).source others ending ∧
      (others = tokens ∨ tokens = [] ∧ others = [token] ∧ ending = .complete token) := by
  cases upcoming with
  | finished done =>
    rw [Scan.next_of_atEnd done]
    exact ⟨_, _, rfl, .offered rfl (.finished done), .inr ⟨rfl, rfl, rfl⟩⟩
  | fetched left scanned rest => exact ⟨_, tokens, scanned, rest, .inl rfl⟩

/-- What is in store behind a token at hand is decided by its fate. -/
theorem hand_eq (grammar : Grammar) (errorSymbol : Option SymbolId) (token : Token) (depth : Nat)
    (source : σ) :
    Upcoming grammar errorSymbol (some token) depth source =
      match token.fate depth with
      | .dropped after => Upcoming grammar errorSymbol none after source
      | .lineDropped => Upcoming grammar errorSymbol none depth (Run.nextLine source)
      | .stops error => fun tokens ending => tokens = [] ∧ ending = .stopped error
      | .offered => fun tokens ending => ∃ rest, tokens = token :: rest ∧
          Upcoming grammar errorSymbol none depth source rest ending := by
  funext tokens ending
  refine propext ⟨fun upcoming => ?_, fun stored => ?_⟩
  · have behind := upcoming.of_hand
    cases fate : token.fate depth with
    | dropped after => simpa only [fate] using behind
    | lineDropped => simpa only [fate] using behind
    | stops error => simpa only [fate] using behind
    | offered => simpa only [fate] using behind
  · cases fate : token.fate depth with
    | dropped after =>
      rw [fate] at stored
      exact .dropped fate stored
    | lineDropped =>
      rw [fate] at stored
      exact .lineDropped fate stored
    | stops error =>
      rw [fate] at stored
      obtain ⟨rfl, rfl⟩ := stored
      exact .stopped fate
    | offered =>
      rw [fate] at stored
      obtain ⟨rest, rfl, behind⟩ := stored
      exact .offered fate behind

/-- Sources that have the same in store behind an offered token have the same in store without it,
and the other way round. -/
theorem offered_eq_iff {token : Token} {other : σ} (fate : token.fate depth = .offered) :
    Upcoming grammar errorSymbol (some token) depth source =
        Upcoming grammar errorSymbol (some token) depth other ↔
      Upcoming grammar errorSymbol none depth source =
        Upcoming grammar errorSymbol none depth other := by
  simp only [hand_eq, fate]
  refine ⟨fun same => ?_, fun same => by rw [same]⟩
  funext tokens ending
  simpa using congrFun (congrFun same (token :: tokens)) ending

/-- Where a token is left to be scanned, it is the next one at hand. -/
theorem none_eq {token : Token} (left : depth = 0 → Source.atEnd source = false)
    (scanned : (Scan.next grammar errorSymbol .zero source).result = .ok token) :
    Upcoming grammar errorSymbol none depth source =
      Upcoming grammar errorSymbol (some token) depth
        (Scan.next grammar errorSymbol .zero source).source := by
  funext tokens ending
  refine propext ⟨fun upcoming => ?_, fun rest => .fetched left scanned rest⟩
  cases upcoming with
  | finished done => simp [left rfl] at done
  | fetched _ again rest =>
    obtain rfl := Except.ok.inj (scanned.symm.trans again)
    exact rest

/-- Tokens that come to an end with the end of the input end with the token that marks it. -/
theorem eq_endToken {last : Token}
    (upcoming : Upcoming grammar errorSymbol hand depth source tokens (.complete last)) :
    ∃ line, last = Scan.endToken grammar line := by
  generalize complete : Ending.complete last = ending at upcoming
  induction upcoming with
  | finished => exact ⟨_, Ending.complete.inj complete⟩
  | fetched _ _ _ inductionHypothesis => exact inductionHypothesis complete
  | dropped _ _ inductionHypothesis => exact inductionHypothesis complete
  | lineDropped _ _ inductionHypothesis => exact inductionHypothesis complete
  | stopped => contradiction
  | offered _ _ inductionHypothesis => exact inductionHypothesis complete

/-- Tokens that come to an end with the end of the input end with its symbol. -/
theorem last_symbol {last : Token}
    (upcoming : Upcoming grammar errorSymbol hand depth source tokens (.complete last)) :
    last.symbol.id = grammar.endSymbol.id := by
  obtain ⟨line, rfl⟩ := upcoming.eq_endToken
  rfl

/-- The tokens in store have the symbols of scanned tokens. -/
theorem labels (well : grammar.tables.WellFormed)
    (recoverable : ∀ error ∈ errorSymbol, error < grammar.tables.count .symbol)
    (upcoming : Upcoming grammar errorSymbol hand depth source tokens ending)
    (known : ∀ token ∈ hand, token.fate depth = .offered →
      Scan.Labels grammar errorSymbol token.symbol) :
    ∀ token ∈ tokens, Scan.Labels grammar errorSymbol token.symbol := by
  induction upcoming with
  | finished => simp
  | fetched left scanned rest inductionHypothesis =>
    refine inductionHypothesis ?_
    intro token held offered
    obtain rfl := Option.some.inj held
    exact Scan.next_labels well recoverable (left (Token.depth_of_offered offered)) scanned
  | dropped fate rest inductionHypothesis => exact inductionHypothesis (by simp)
  | lineDropped fate rest inductionHypothesis => exact inductionHypothesis (by simp)
  | stopped fate => simp
  | offered fate rest inductionHypothesis =>
    intro token member
    rcases List.mem_cons.mp member with rfl | later
    · exact known _ rfl fate
    · exact inductionHypothesis (by simp) token later

/-- What ends the tokens too early is a comment that is not closed or a token that marks
text that is no token. -/
theorem stopped_cases (well : grammar.tables.WellFormed)
    (recoverable : ∀ error ∈ errorSymbol, error < grammar.tables.count .symbol)
    {error : ParseError}
    (upcoming : Upcoming grammar errorSymbol hand depth source tokens (.stopped error))
    (known : ∀ token ∈ hand, token.symbol.kind = .error →
      Scan.Labels grammar errorSymbol token.symbol) :
    (∃ line, error = .unterminatedComment line) ∨
      ∃ line text symbol, error = .lexical line text ∧ symbol.kind = .error ∧
        Scan.Labels grammar errorSymbol symbol := by
  generalize stops : Ending.stopped error = ending at upcoming
  induction upcoming with
  | finished => contradiction
  | @fetched depth source token tokens ending left scanned rest inductionHypothesis =>
    refine inductionHypothesis ?_ stops
    intro own held faulty
    obtain rfl := Option.some.inj held
    cases done : Source.atEnd source with
    | false => exact Scan.next_labels well recoverable done scanned
    | true =>
      rw [Scan.next_of_atEnd done] at scanned
      obtain rfl := Except.ok.inj scanned
      contradiction
  | dropped fate rest inductionHypothesis => exact inductionHypothesis (by simp) stops
  | lineDropped fate rest inductionHypothesis => exact inductionHypothesis (by simp) stops
  | @stopped depth source token own fate =>
    obtain rfl := Ending.stopped.inj stops
    unfold Token.fate at fate
    by_cases outside : depth = 0
    · rw [if_pos outside] at fate
      cases kind : token.symbol.kind <;> simp [kind] at fate
      exact .inr ⟨_, _, token.symbol, fate.symm, kind, known token rfl kind⟩
    · rw [if_neg outside] at fate
      cases kind : token.symbol.kind <;> simp [kind] at fate
      exact .inl ⟨_, fate.symm⟩
  | offered fate rest inductionHypothesis => exact inductionHypothesis (by simp) stops

end Upcoming

end TableDriven
