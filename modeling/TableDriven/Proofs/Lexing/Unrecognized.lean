import TableDriven.Proofs.Lexing.Progress

/-!
# Bytes that no token begins with

A scan with an error terminal differs from one without in nothing but what it makes
of bytes that no token begins with. Without, it takes one byte and marks it as text
that is no token. With, it takes all bytes that the walk went over, the last of which
is the one at which the walk stopped.

Outside comments the first such byte ends a parse that reports its first error, so
there the difference is never seen in a parse that ends with a tree. Inside a block
comment both kinds of token are dropped, and the longer one may cover the beginning
of what would have closed the comment. This cannot happen where every walk that
recognizes nothing stops at its first byte.
-/

namespace TableDriven

/-- What marks text that is no token is of a kind of its own. -/
theorem Grammar.lexicalError_kind {tables : Tables} {grammar : Grammar}
    (accepted : ofTables tables = .ok grammar) : grammar.lexicalError.kind = .error := by
  obtain ⟨-, -, -, marked⟩ := ofTables_eq_ok.mp accepted
  rw [marked]
  cases found : tables.lexicalErrorSymbol? with
  | none => rfl
  | some symbol => simpa using Array.find?_some found

/-- The error terminal is a symbol of the tables, taken for a terminal. -/
theorem Grammar.errorTerminal_eq_ok {grammar : Grammar} {id : SymbolId} {symbol : Symbol} :
    grammar.errorTerminal id = .ok symbol ↔
      ∃ found, grammar.symbol id = .ok found ∧ { found with kind := .terminal } = symbol := by
  unfold errorTerminal
  cases grammar.symbol id <;> simp [Except.map]

/-- The error terminal keeps its number. -/
theorem Grammar.errorTerminal_id {grammar : Grammar} (well : grammar.tables.WellFormed)
    {id : SymbolId} {symbol : Symbol} (named : grammar.errorTerminal id = .ok symbol) :
    symbol.id = id := by
  obtain ⟨found, looked, rfl⟩ := errorTerminal_eq_ok.mp named
  have placed : found.id = id := symbol_id well looked
  exact placed

/-- The first edge for a byte is one of the edges. -/
theorem Grammar.firstEdge_mem {grammar : Grammar} {byte : UInt8} {edges : List Edge} {edge : Edge}
    (first : grammar.firstEdge byte edges = .ok (some edge)) : edge ∈ edges := by
  induction edges with
  | nil => simp [firstEdge] at first
  | cons candidate rest inductionHypothesis =>
    unfold firstEdge at first
    split at first
    · contradiction
    · split at first
      · obtain rfl : candidate = edge := by simpa using first
        exact List.mem_cons_self
      · exact List.mem_cons_of_mem candidate (inductionHypothesis first)

/-- Every state that the initial lexical state has an edge to accepts a symbol. So a
walk that recognizes nothing has stopped at its first byte. -/
def Grammar.FaultsSingly (grammar : Grammar) : Prop :=
  ∀ initial, grammar.dfaState grammar.tables.dfaInitial = .ok initial →
    ∀ edge ∈ initial.edges, ∀ target, grammar.dfaState edge.target = .ok target →
      target.accept ≠ none

/-- Faults are single where all lexical states but the initial one accept and no edge leads back
to it. -/
theorem Grammar.faultsSingly_of_accepting {grammar : Grammar} (well : grammar.tables.WellFormed)
    {states : List DfaState} (listed : grammar.tables.dfaStates = states.toArray)
    (accepting : ∀ state ∈ states, state.id ≠ grammar.tables.dfaInitial → state.accept ≠ none)
    (onward : ∀ state ∈ states, ∀ edge ∈ state.edges, edge.target ≠ grammar.tables.dfaInitial) :
    grammar.FaultsSingly := by
  have placed : ∀ id state, grammar.dfaState id = .ok state → state ∈ states ∧ state.id = id := by
    intro id state looked
    have found := (entry_eq_ok _ _ _ _).mp looked
    have member := Array.mem_of_getElem? found
    rw [listed] at member
    exact ⟨List.mem_toArray.mp member, well.dfaStatesPlaced id state found⟩
  intro initial looked edge member target led
  obtain ⟨first, -⟩ := placed _ initial looked
  obtain ⟨within, same⟩ := placed _ target led
  exact accepting target within (same ▸ onward initial first edge member)

/-- Every byte that a token of a sum begins with is a token by itself. -/
theorem Sums.faultsSingly_grammar : grammar.FaultsSingly :=
  Grammar.faultsSingly_of_accepting (Grammar.wellFormed_of_ofTables ofTables_tables) rfl
    (by decide) (by decide)

namespace Walk

variable {grammar : Grammar}

/-- In a state that accepts something is recognized. -/
theorem recognized_ne_none {state : DfaState} (accepts : state.accept ≠ none) (length : Nat)
    (earlier : Option Match) : recognized state length earlier ≠ none := by
  unfold recognized
  cases symbol : state.accept with
  | none => exact absurd symbol accepts
  | some id => exact Option.some_ne_none _

/-- What has been recognized is not forgotten. -/
theorem recognized_of_earlier {earlier : Option Match} (some : earlier ≠ none) (state : DfaState)
    (length : Nat) : recognized state length earlier ≠ none := by
  unfold recognized
  cases state.accept with
  | none => exact some
  | some id => exact Option.some_ne_none _

/-- A walk that has recognized something, or is in a state that accepts, does not end
with nothing. -/
theorem follow_ne_none {σ : Type} [Source σ] (start steps : Nat) {state : DfaState}
    {earlier : Option Match} (some : earlier ≠ none ∨ state.accept ≠ none) (exhausted : Bool)
    (moves : List Move) (source : σ) :
    (follow grammar start steps state earlier exhausted moves source).outcome ≠ .ok none := by
  induction steps generalizing state earlier exhausted moves source with
  | zero =>
    intro nothing
    rcases some with some | accepts
    · exact recognized_of_earlier some state _ (Except.ok.inj nothing)
    · exact recognized_ne_none accepts _ earlier (Except.ok.inj nothing)
  | succ steps inductionHypothesis =>
    have now : recognized state (Source.cursor source - start) earlier ≠ none := by
      rcases some with some | accepts
      · exact recognized_of_earlier some state _
      · exact recognized_ne_none accepts _ earlier
    unfold follow
    dsimp only
    split
    · simpa using now
    · rename_i byte after exhausted _
      cases grammar.firstEdge byte state.edges with
      | error defect => simp
      | ok found =>
        cases found with
        | none => simpa using now
        | some edge =>
          dsimp only
          cases grammar.dfaState edge.target with
          | error defect => simp
          | ok target => exact inductionHypothesis (.inl now) exhausted _ after

/-- Where faults are single a walk over bytes in memory that recognizes nothing went
over one byte. -/
theorem ofSource_single (single : grammar.FaultsSingly) {source : ByteSource}
    (more : source.position < source.size)
    (nothing : (ofSource grammar source).outcome = .ok none) :
    (ofSource grammar source).source = { source with position := source.position + 1 } := by
  obtain ⟨byte, read⟩ := ByteSource.next?_of_lt more
  have stepped := nextByte_of_next? read false
  unfold ofSource at nothing ⊢
  cases looked : grammar.dfaState grammar.tables.dfaInitial with
  | error defect => simp [looked] at nothing
  | ok initial =>
    simp only [looked] at nothing ⊢
    unfold follow at nothing ⊢
    simp only [stepped] at nothing ⊢
    cases first : grammar.firstEdge byte initial.edges with
    | error defect => simp [first] at nothing
    | ok found =>
      cases found with
      | none => rfl
      | some edge =>
        simp only [first] at nothing ⊢
        cases led : grammar.dfaState edge.target with
        | error defect => simp [led] at nothing
        | ok target =>
          simp only [led] at nothing
          have accepts := single initial looked edge (Grammar.firstEdge_mem first) target led
          exact absurd nothing (follow_ne_none _ _ (.inr accepts) _ _ _)

end Walk

namespace Scan

section Sources

variable {σ : Type} [Source σ] {grammar : Grammar} {errorSymbol : Option SymbolId}

/-- An error terminal makes no difference to a scan, unless without one it yields what
marks text that is no token. -/
theorem next_agrees (errorSymbol : Option SymbolId) {tally : ScanTally} {source : σ} {token : Token}
    (scanned : (next grammar none tally source).result = .ok token) :
    next grammar errorSymbol tally source = next grammar none tally source ∨
      token.symbol = grammar.lexicalError := by
  unfold next at scanned ⊢
  split
  · exact .inl rfl
  · rename_i left
    rw [if_neg left] at scanned
    dsimp only at scanned ⊢
    cases outcome : (Walk.ofSource grammar source).outcome with
    | error defect => exact .inl rfl
    | ok found =>
      cases found with
      | some found => exact .inl rfl
      | none =>
        simp only [outcome, classify] at scanned
        split at scanned
        · contradiction
        · exact .inr (congrArg Token.symbol (Except.ok.inj scanned)).symm

/-- Scanned inside a block comment a source is left behind the token that closes the
comment. The end of the input is not reached before. -/
inductive Closes (grammar : Grammar) (errorSymbol : Option SymbolId) : σ → σ → Prop where
  | closed {source : σ} {token : Token}
      (scanned : (next grammar errorSymbol .zero source).result = .ok token)
      (closing : token.symbol.kind = .commentEnd) :
      Closes grammar errorSymbol source (next grammar errorSymbol .zero source).source
  | skipped {source after : σ} {token : Token}
      (scanned : (next grammar errorSymbol .zero source).result = .ok token)
      (ordinary : token.symbol.kind ≠ .commentEnd) (more : token.symbol.kind ≠ .endOfInput)
      (rest : Closes grammar errorSymbol (next grammar errorSymbol .zero source).source after) :
      Closes grammar errorSymbol source after

end Sources

variable {grammar : Grammar} {source after : ByteSource}

/-- Where faults are single an error terminal changes nothing but the symbol of what
marks text that is no token. -/
theorem next_single (single : grammar.FaultsSingly) {error : SymbolId} {symbol : Symbol}
    (named : grammar.errorTerminal error = .ok symbol) {tally : ScanTally} {token : Token}
    (scanned : (next grammar none tally source).result = .ok token) :
    next grammar (some error) tally source = next grammar none tally source ∨
      token.symbol = grammar.lexicalError ∧
        (next grammar (some error) tally source).result = .ok { token with symbol } ∧
        (next grammar (some error) tally source).source =
          (next grammar none tally source).source := by
  by_cases more : source.position < source.size
  · have left := ne_true_of_eq_false (ByteSource.not_atEnd_iff.mpr more)
    unfold next at scanned ⊢
    rw [if_neg left] at scanned
    rw [if_neg left, if_neg left]
    dsimp only at scanned ⊢
    cases outcome : (Walk.ofSource grammar source).outcome with
    | error defect => exact .inl rfl
    | ok found =>
      cases found with
      | some found => exact .inl rfl
      | none =>
        have walked : Source.cursor (Walk.ofSource grammar source).source -
            Source.cursor source = 1 := by
          rw [Walk.ofSource_single single more outcome]
          exact Nat.add_sub_cancel_left source.position 1
        simp only [outcome, classify, named, Except.map, walked] at scanned ⊢
        cases read : reread (Walk.ofSource grammar source).source (Source.cursor source) 1 with
        | mk result later =>
          cases result with
          | error error => simp [read] at scanned
          | ok pair =>
            obtain ⟨line, bytes⟩ := pair
            rw [read] at scanned
            obtain rfl := Except.ok.inj scanned
            exact .inr ⟨rfl, rfl, rfl⟩
  · have done := ByteSource.atEnd_iff.mpr (Nat.le_of_not_lt more)
    rw [next_of_atEnd done, next_of_atEnd done]
    exact .inl rfl

/-- Where faults are single a block comment is closed by the same token with an error
terminal as without. Induct on the tokens inside the comment. -/
theorem Closes.of_faultsSingly (marked : grammar.lexicalError.kind = .error)
    (single : grammar.FaultsSingly) {errorSymbol : Option SymbolId}
    (recoverable : ∀ error ∈ errorSymbol, error < grammar.tables.count .symbol)
    (closes : Closes grammar none source after) : Closes grammar errorSymbol source after := by
  cases given : errorSymbol with
  | none => exact closes
  | some error =>
    obtain ⟨symbol, named⟩ := Grammar.errorTerminal_of_lt (recoverable error given)
    obtain ⟨found, -, rfl⟩ := Grammar.errorTerminal_eq_ok.mp named
    induction closes with
    | closed scanned closing =>
      rcases next_single single named scanned with same | ⟨unlisted, -, -⟩
      · rw [← same] at scanned ⊢
        exact .closed scanned closing
      · rw [unlisted, marked] at closing
        contradiction
    | skipped scanned ordinary more rest inductionHypothesis =>
      rcases next_single single named scanned with same | ⟨-, recovered, moved⟩
      · rw [← same] at scanned inductionHypothesis
        exact .skipped scanned ordinary more inductionHypothesis
      · rw [← moved] at inductionHypothesis
        exact .skipped recovered nofun nofun inductionHypothesis

end Scan

end TableDriven
