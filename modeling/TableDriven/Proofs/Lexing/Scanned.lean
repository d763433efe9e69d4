import TableDriven.Lexing.Scan
import TableDriven.Proofs.Grammar.WellFormed

/-!
# What a scan yields

In a well-formed grammar the walk of the lexical automaton never looks for an
entry that does not exist, so a scan ends with a token or because its source
refused a request. A token that is not the end of the input has a symbol that
some lexical state accepts, or the error terminal if there is one, or marks text
that is no token.
-/

namespace TableDriven

/-- Some lexical state accepts a symbol. -/
def Tables.Accepts (tables : Tables) (symbol : SymbolId) : Prop :=
  ∃ state ∈ tables.dfaStates, state.accept = some symbol

variable {grammar : Grammar}

/-- The first edge for a byte is found among edges whose sets exist. -/
theorem Grammar.firstEdge_eq_ok (byte : UInt8) {edges : List Edge}
    (leads : ∀ edge ∈ edges, edge.charSet < grammar.tables.count .charSet) :
    ∃ found, grammar.firstEdge byte edges = .ok found ∧ ∀ edge ∈ found, edge ∈ edges := by
  induction edges with
  | nil => exact ⟨none, rfl, by simp⟩
  | cons edge rest inductionHypothesis =>
    obtain ⟨set, looked⟩ := entry_of_lt .charSet grammar.tables.charSets edge.charSet
      (leads edge List.mem_cons_self)
    have own : grammar.charSet edge.charSet = .ok set := looked
    by_cases inside : set.bytes.contains byte
    · exact ⟨some edge, by simp [Grammar.firstEdge, own, inside], by simp⟩
    · obtain ⟨found, first, among⟩ := inductionHypothesis fun other member =>
        leads other (List.mem_cons_of_mem edge member)
      refine ⟨found, by simp [Grammar.firstEdge, own, inside, first], ?_⟩
      intro other member
      exact List.mem_cons_of_mem edge (among other member)

/-- A symbol that exists can serve as the error terminal. -/
theorem Grammar.errorTerminal_of_lt {error : SymbolId}
    (inside : error < grammar.tables.count .symbol) :
    ∃ found, grammar.errorTerminal error = .ok found := by
  obtain ⟨symbol, looked⟩ := Grammar.symbol_of_lt inside
  exact ⟨{ symbol with kind := .terminal }, by simp [Grammar.errorTerminal, looked, Except.map]⟩

namespace Walk

variable {σ : Type} [Source σ]

/-- What is recognized in a state of the tables is a symbol that they accept. -/
theorem recognized_accepts {state : DfaState} (member : state ∈ grammar.tables.dfaStates)
    (length : Nat) {earlier : Option Match}
    (known : ∀ found ∈ earlier, grammar.tables.Accepts found.symbol) :
    ∀ found ∈ recognized state length earlier, grammar.tables.Accepts found.symbol := by
  unfold recognized
  cases accepts : state.accept with
  | none => exact known
  | some symbol =>
    intro found same
    obtain rfl : ⟨symbol, length⟩ = found := by simpa using same
    exact ⟨state, member, accepts⟩

/-- A walk through states of the tables ends with what it recognized last. -/
theorem follow_outcome (well : grammar.tables.WellFormed) (start steps : Nat) {state : DfaState}
    (member : state ∈ grammar.tables.dfaStates) {earlier : Option Match}
    (known : ∀ found ∈ earlier, grammar.tables.Accepts found.symbol)
    (exhausted : Bool) (moves : List Move) (source : σ) :
    ∃ last, (follow grammar start steps state earlier exhausted moves source).outcome = .ok last ∧
      ∀ found ∈ last, grammar.tables.Accepts found.symbol := by
  induction steps generalizing state earlier exhausted moves source with
  | zero => exact ⟨_, rfl, recognized_accepts member _ known⟩
  | succ steps inductionHypothesis =>
    have now := recognized_accepts member (Source.cursor source - start) known
    unfold follow
    dsimp only
    split
    · exact ⟨_, rfl, now⟩
    · rename_i byte after exhausted _
      obtain ⟨found, first, among⟩ := Grammar.firstEdge_eq_ok byte fun edge inside =>
        ((well.dfaStates state member).edges edge inside).1
      rw [first]
      cases found with
      | none => exact ⟨_, rfl, now⟩
      | some edge =>
        have reach := ((well.dfaStates state member).edges edge (among edge rfl)).2
        obtain ⟨target, looked, listed⟩ := Grammar.dfaState_of_lt reach
        simp only [looked]
        exact inductionHypothesis listed now exhausted _ after

/-- The walk from a source ends with what it recognized last. -/
theorem ofSource_outcome (well : grammar.tables.WellFormed) (source : σ) :
    ∃ last, (ofSource grammar source).outcome = .ok last ∧
      ∀ found ∈ last, grammar.tables.Accepts found.symbol := by
  obtain ⟨initial, looked, listed⟩ := Grammar.dfaState_of_lt well.dfaInitial
  simp only [ofSource, looked]
  exact follow_outcome well _ _ listed (by simp) _ _ source

end Walk

namespace Scan

variable {σ : Type} [Source σ] {errorSymbol : Option SymbolId}

/-- The symbols of tokens that are not the end of the input. -/
inductive Labels (grammar : Grammar) (errorSymbol : Option SymbolId) : Symbol → Prop where
  | accepted (id : SymbolId) (symbol : Symbol) (accepts : grammar.tables.Accepts id)
      (named : grammar.symbol id = .ok symbol) : Labels grammar errorSymbol symbol
  | recovered (error : SymbolId) (symbol : Symbol) (given : errorSymbol = some error)
      (named : grammar.errorTerminal error = .ok symbol) : Labels grammar errorSymbol symbol
  | faulty (strict : errorSymbol = none) : Labels grammar errorSymbol grammar.lexicalError

/-- What a walk recognized is classified. A token that is not recognized covers
all bytes walked over, or one byte. -/
theorem classify_eq_ok (well : grammar.tables.WellFormed)
    (recoverable : ∀ error ∈ errorSymbol, error < grammar.tables.count .symbol) (walked : Nat)
    {last : Option Match} (known : ∀ found ∈ last, grammar.tables.Accepts found.symbol) :
    ∃ symbol length, classify grammar errorSymbol walked last = .ok (symbol, length) ∧
      Labels grammar errorSymbol symbol ∧
      length = (last.map Match.length).getD (if errorSymbol.isSome then walked else 1) := by
  cases last with
  | some found =>
    obtain ⟨state, member, accepts⟩ := known found rfl
    obtain ⟨symbol, named⟩ := Grammar.symbol_of_lt
      ((well.dfaStates state member).accept found.symbol accepts)
    exact ⟨symbol, found.length, by simp [classify, named, Except.map],
      .accepted found.symbol symbol ⟨state, member, accepts⟩ named, rfl⟩
  | none =>
    cases given : errorSymbol with
    | none => exact ⟨grammar.lexicalError, 1, by simp [classify], .faulty rfl, rfl⟩
    | some error =>
      obtain ⟨symbol, named⟩ := Grammar.errorTerminal_of_lt (recoverable error given)
      exact ⟨symbol, walked, by simp [classify, named, Except.map],
        .recovered error symbol rfl named, rfl⟩

/-- A scan that does not end the input yields a token, or its source refuses to go
back or to read. -/
theorem next_result (well : grammar.tables.WellFormed)
    (recoverable : ∀ error ∈ errorSymbol, error < grammar.tables.count .symbol)
    (tally : ScanTally) (source : σ) :
    (∃ token, (next grammar errorSymbol tally source).result = .ok token) ∨
      ∃ error,
        (next grammar errorSymbol tally source).result = .error (.error (.source error)) := by
  unfold next
  split
  · exact .inl ⟨_, rfl⟩
  · obtain ⟨last, outcome, known⟩ := Walk.ofSource_outcome well source
    obtain ⟨symbol, length, classified, -, -⟩ := classify_eq_ok well recoverable
      (Source.cursor (Walk.ofSource grammar source).source - Source.cursor source) known
    simp only [outcome, classified]
    split
    · exact .inr ⟨_, rfl⟩
    · exact .inl ⟨_, rfl⟩

/-- A scan at the end leaves everything as it is. -/
theorem next_of_atEnd {source : σ} (done : Source.atEnd source = true) (grammar : Grammar)
    (errorSymbol : Option SymbolId) (tally : ScanTally) :
    next grammar errorSymbol tally source =
      ⟨source, tally, [], none, .ok (endToken grammar (Source.line source))⟩ := by
  rw [next, if_pos done]

/-- The token of a scan that is not at the end has one of these symbols. -/
theorem next_labels (well : grammar.tables.WellFormed)
    (recoverable : ∀ error ∈ errorSymbol, error < grammar.tables.count .symbol)
    {tally : ScanTally} {source : σ} {token : Token} (left : Source.atEnd source = false)
    (scanned : (next grammar errorSymbol tally source).result = .ok token) :
    Labels grammar errorSymbol token.symbol := by
  obtain ⟨last, outcome, known⟩ := Walk.ofSource_outcome well source
  obtain ⟨symbol, length, classified, labels, -⟩ := classify_eq_ok well recoverable
    (Source.cursor (Walk.ofSource grammar source).source - Source.cursor source) known
  unfold next at scanned
  simp only [left, Bool.false_eq_true, if_false, outcome, classified] at scanned
  split at scanned
  · contradiction
  · obtain rfl := Except.ok.inj scanned
    exact labels

/-- What a scan counts has no influence on its token. -/
theorem next_result_tally (grammar : Grammar) (errorSymbol : Option SymbolId)
    (tally other : ScanTally) (source : σ) :
    (next grammar errorSymbol tally source).result =
        (next grammar errorSymbol other source).result ∧
      (next grammar errorSymbol tally source).source =
        (next grammar errorSymbol other source).source := by
  unfold next
  split
  · exact ⟨rfl, rfl⟩
  · dsimp only
    cases (Walk.ofSource grammar source).outcome with
    | error defect => exact ⟨rfl, rfl⟩
    | ok found =>
      dsimp only
      split
      · exact ⟨rfl, rfl⟩
      · split <;> exact ⟨rfl, rfl⟩

end Scan

end TableDriven
