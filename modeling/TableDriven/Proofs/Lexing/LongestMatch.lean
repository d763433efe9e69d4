import TableDriven.Proofs.Lexing.Spelling
import TableDriven.Proofs.Source.Lines

/-!
# The longest match

What a scan takes for a token is settled by the states that the lexical automaton comes to over
the bytes that are left and one zero byte for the end. The walk passes through all of them, so
what it has recognized in the end is the symbol of the last that accepts, and it has read every
byte that a state was reached before. So a token is the longest that is accepted; the zero byte
counts as a byte of the match but not of the token. If no state accepts, the token is the error
terminal over all bytes that were read, or one byte that is no token.
-/

namespace TableDriven

namespace Grammar

variable (grammar : Grammar)

/-- Whether a byte is in the set of an edge. -/
def leadsOn (byte : UInt8) (edge : Edge) : Bool :=
  match grammar.tables.charSets[edge.charSet]? with
  | some set => set.bytes.contains byte
  | none => false

/-- The state that the first edge for a byte leads to. -/
def successor? (state : DfaState) (byte : UInt8) : Option DfaState :=
  (state.edges.find? (grammar.leadsOn byte)).bind fun edge =>
    grammar.tables.dfaStates[edge.target]?

/-- The state that is reached over so many of the bytes that are left and a zero byte. -/
def stateAfter? (left : List UInt8) : Nat → Option DfaState
  | 0 => grammar.tables.dfaStates[grammar.tables.dfaInitial]?
  | count + 1 =>
    (stateAfter? left count).bind fun state =>
      (left ++ [0])[count]?.bind fun byte => grammar.successor? state byte

/-- A symbol is accepted after so many bytes. -/
def AcceptsAfter (left : List UInt8) (count : Nat) (symbol : SymbolId) : Prop :=
  ∃ state, grammar.stateAfter? left count = some state ∧ state.accept = some symbol

/-- What has been recognized last over fewer bytes than so many. -/
def Latest (left : List UInt8) (count : Nat) : Option Match → Prop
  | none => ∀ index < count, ∀ symbol, ¬ grammar.AcceptsAfter left index symbol
  | some found => ∃ index < count, grammar.AcceptsAfter left index found.symbol ∧
      found.length = min index left.length ∧
      ∀ later < count, index < later → ∀ symbol, ¬ grammar.AcceptsAfter left later symbol

/-- The symbol and the length of a token that begins with the bytes that are left. -/
inductive LongestMatch (errorSymbol : Option SymbolId) (left : List UInt8) :
    Symbol → Nat → Prop where
  /-- The last state that accepts decides. -/
  | accepted (index : Nat) (id : SymbolId) (symbol : Symbol)
      (accepts : grammar.AcceptsAfter left index id)
      (longest : ∀ later, index < later → ∀ other, ¬ grammar.AcceptsAfter left later other)
      (named : grammar.symbol id = .ok symbol) :
      LongestMatch errorSymbol left symbol (min index left.length)
  /-- No state accepts, and the error terminal covers the bytes before which a state was
  reached. -/
  | recovered (error : SymbolId) (symbol : Symbol) (length : Nat)
      (given : errorSymbol = some error)
      (unaccepted : ∀ index id, ¬ grammar.AcceptsAfter left index id)
      (named : grammar.symbol error = .ok symbol) (within : length ≤ left.length)
      (read : ∀ index < left.length,
        index < length ↔ ∃ state, grammar.stateAfter? left index = some state) :
      LongestMatch errorSymbol left { symbol with kind := .terminal } length
  /-- No state accepts, and there is no error terminal. -/
  | faulty (strict : errorSymbol = none)
      (unaccepted : ∀ index id, ¬ grammar.AcceptsAfter left index id) :
      LongestMatch errorSymbol left grammar.lexicalError 1

variable {grammar} {left : List UInt8} {count : Nat}

/-- The edge that a walk takes is the first whose set has the byte. -/
theorem find?_of_firstEdge {byte : UInt8} {edges : List Edge} {found : Option Edge}
    (first : grammar.firstEdge byte edges = .ok found) :
    edges.find? (grammar.leadsOn byte) = found := by
  induction edges with
  | nil => exact Except.ok.inj first
  | cons edge rest inductionHypothesis =>
    unfold firstEdge at first
    cases looked : grammar.charSet edge.charSet with
    | error defect => simp [looked] at first
    | ok set =>
      have placed := (entry_eq_ok _ _ _ _).mp looked
      have leads : grammar.leadsOn byte edge = set.bytes.contains byte := by
        rw [leadsOn, placed]
      rw [looked] at first
      dsimp only at first
      cases inside : set.bytes.contains byte with
      | true =>
        rw [inside] at first leads
        rw [List.find?_cons_of_pos leads]
        exact Except.ok.inj first
      | false =>
        rw [inside] at first leads
        rw [List.find?_cons_of_neg (by simp [leads])]
        exact inductionHypothesis first

/-- A state that is reached is one of the tables. -/
theorem mem_of_stateAfter? {state : DfaState}
    (reached : grammar.stateAfter? left count = some state) :
    state ∈ grammar.tables.dfaStates := by
  cases count with
  | zero => exact Array.mem_of_getElem? reached
  | succ count =>
    obtain ⟨before, -, further⟩ := Option.bind_eq_some_iff.mp reached
    obtain ⟨byte, -, moved⟩ := Option.bind_eq_some_iff.mp further
    obtain ⟨edge, -, looked⟩ := Option.bind_eq_some_iff.mp moved
    exact Array.mem_of_getElem? looked

/-- Where no state is reached, none is reached over more bytes. -/
theorem stateAfter?_of_le {index : Nat} (stuck : grammar.stateAfter? left count = none)
    (further : count ≤ index) : grammar.stateAfter? left index = none := by
  induction further with
  | refl => exact stuck
  | step _ inductionHypothesis => rw [stateAfter?, inductionHypothesis, Option.bind_none]

/-- What is recognized in the next state is what has been recognized last with it. -/
theorem Latest.next {state : DfaState} {earlier : Option Match}
    (latest : grammar.Latest left count earlier)
    (reached : grammar.stateAfter? left count = some state) :
    grammar.Latest left (count + 1)
      (Walk.recognized state (min count left.length) earlier) := by
  unfold Walk.recognized
  cases accepts : state.accept with
  | some symbol =>
    refine ⟨count, Nat.lt_succ_self count, ⟨state, reached, accepts⟩, rfl, ?_⟩
    intro later below above
    omega
  | none =>
    have silent (symbol : SymbolId) : ¬ grammar.AcceptsAfter left count symbol := by
      rintro ⟨own, same, accepted⟩
      obtain rfl := Option.some.inj (reached.symm.trans same)
      rw [accepts] at accepted
      contradiction
    cases earlier with
    | none =>
      intro index below symbol
      rcases Nat.lt_succ_iff_lt_or_eq.mp below with before | rfl
      · exact latest index before symbol
      · exact silent symbol
    | some found =>
      obtain ⟨index, below, accepted, length, last⟩ := latest
      refine ⟨index, Nat.lt_succ_of_lt below, accepted, length, ?_⟩
      intro later bound above symbol
      rcases Nat.lt_succ_iff_lt_or_eq.mp bound with before | rfl
      · exact last later before above symbol
      · exact silent symbol

end Grammar

namespace Walk

variable {grammar : Grammar} {source here after : ByteSource} {state : DfaState}
  {earlier : Option Match} {exhausted : Bool} {moves : List Move}

/-- The source after so many of the bytes that are left and a zero byte: the zero byte is not
read. -/
def behind (source : ByteSource) (count : Nat) : ByteSource :=
  { source with position := source.position + min count source.left.length }

/-- A walk is given the bytes that are left one by one, and then a zero byte. -/
theorem nextByte_behind (source : ByteSource) {count : Nat}
    (within : count ≤ source.left.length + 1) :
    nextByte (behind source count) (decide (source.left.length < count)) =
      (source.left ++ [0])[count]?.map fun byte =>
        (byte, behind source (count + 1), decide (source.left.length < count + 1)) := by
  have peeked : (behind source count).peek = source.left[min count source.left.length]? := by
    rw [ByteSource.left, List.getElem?_drop, Array.getElem?_toList]
    rfl
  have next : Source.next? (behind source count) =
      source.left[min count source.left.length]?.map fun byte =>
        (byte, { behind source count with position := (behind source count).position + 1 }) := by
    rw [← peeked]
    rfl
  unfold nextByte
  rw [next]
  -- A byte is left, or the zero byte is due, or it has been given already.
  rcases Nat.lt_trichotomy count source.left.length with more | last | beyond
  · have byte : source.left[count]? = some source.left[count] := List.getElem?_eq_getElem more
    rw [Nat.min_eq_left (Nat.le_of_lt more), List.getElem?_append_left more, byte]
    simp only [Option.map_some, behind]
    have passed : min (count + 1) source.left.length = count + 1 := Nat.min_eq_left more
    have unended : ¬ source.left.length < count := by omega
    have still : ¬ source.left.length < count + 1 := by omega
    simp only [passed, Nat.min_eq_left (Nat.le_of_lt more), unended, still, Nat.add_assoc]
  · have ended : source.left[count]? = none := List.getElem?_eq_none (Nat.le_of_eq last.symm)
    have zero : (source.left ++ [0])[count]? = some 0 := by
      rw [last]
      exact List.getElem?_concat_length
    rw [Nat.min_eq_left (Nat.le_of_eq last), ended, zero]
    simp [behind, last]
  · obtain rfl : count = source.left.length + 1 := by omega
    have ended : source.left[min (source.left.length + 1) source.left.length]? = none :=
      List.getElem?_eq_none (by omega)
    have nothing : (source.left ++ [0])[source.left.length + 1]? = none :=
      List.getElem?_eq_none (by simp)
    rw [ended, nothing]
    simp

/-- A stage of a walk as it is counted: the number of moves tells the state, the source, whether
the end has been reached, and what has been recognized last. -/
structure Counted (grammar : Grammar) (source : ByteSource) (count : Nat) (state : DfaState)
    (earlier : Option Match) (exhausted : Bool) (here : ByteSource) : Prop where
  within : count ≤ source.left.length + 1
  reached : grammar.stateAfter? source.left count = some state
  latest : grammar.Latest source.left count earlier
  ended : exhausted = decide (source.left.length < count)
  place : here = behind source count

/-- Every stage of a walk is counted by its moves. -/
theorem Stage.counted (stage : Stage grammar source state earlier exhausted moves here) :
    Counted grammar source moves.length state earlier exhausted here := by
  induction stage with
  | start initial looked =>
    refine ⟨Nat.zero_le _, (Grammar.entry_eq_ok _ _ _ _).mp looked, ?_, rfl, ?_⟩
    · intro index below
      contradiction
    · rw [behind, List.length_nil, Nat.zero_min]
      rfl
  | @move state target earlier exhausted ended moves here after byte edge stage read first looked
      inductionHypothesis =>
    obtain ⟨within, reached, latest, rfl, rfl⟩ := inductionHypothesis
    rw [nextByte_behind source within] at read
    obtain ⟨own, offered, same⟩ := Option.map_eq_some_iff.mp read
    obtain ⟨rfl, moved⟩ := Prod.mk.inj same
    obtain ⟨rfl, rfl⟩ := Prod.mk.inj moved
    have bound : moves.length < source.left.length + 1 := by
      have inside := (List.getElem?_eq_some_iff.mp offered).1
      rwa [List.length_append, List.length_singleton] at inside
    refine ⟨bound, ?_, ?_, rfl, rfl⟩
    · rw [List.length_cons, Grammar.stateAfter?, reached, Option.bind_some, offered,
        Option.bind_some, Grammar.successor?, Grammar.find?_of_firstEdge first, Option.bind_some]
      exact (Grammar.entry_eq_ok _ _ _ _).mp looked
    · rw [behind, Nat.add_sub_cancel_left]
      exact latest.next reached

/-- Where a walk stops, no state is reached over one more byte, and the byte that stopped it has
been read. -/
theorem Counted.stops {count : Nat}
    (counted : Counted grammar source count state earlier exhausted here)
    (stops : Stops grammar state exhausted here after) :
    grammar.stateAfter? source.left (count + 1) = none ∧ after = behind source (count + 1) := by
  obtain ⟨within, reached, -, rfl, rfl⟩ := counted
  rw [Grammar.stateAfter?, reached, Option.bind_some]
  cases stops with
  | ended none =>
    rw [nextByte_behind source within, Option.map_eq_none_iff] at none
    rw [none]
    refine ⟨rfl, ?_⟩
    have beyond := List.getElem?_eq_none_iff.mp none
    rw [List.length_append, List.length_singleton] at beyond
    rw [behind, behind, Nat.min_eq_right (by omega), Nat.min_eq_right (by omega)]
  | stuck read edgeless =>
    rw [nextByte_behind source within] at read
    obtain ⟨byte, offered, same⟩ := Option.map_eq_some_iff.mp read
    obtain ⟨rfl, moved⟩ := Prod.mk.inj same
    obtain ⟨rfl, rfl⟩ := Prod.mk.inj moved
    rw [offered, Option.bind_some, Grammar.successor?, Grammar.find?_of_firstEdge edgeless]
    exact ⟨rfl, rfl⟩

/-- A walk comes to all states that are reached, recognizes what the last of them that accepts
does, and reads the bytes before which one is reached. -/
theorem ofSource_counted (well : grammar.tables.WellFormed) (source : ByteSource) :
    ∃ count moves found, ofSource grammar source = ⟨behind source count, moves, .ok found⟩ ∧
      grammar.Latest source.left count found ∧
      ∀ index, (∃ state, grammar.stateAfter? source.left index = some state) ↔ index < count := by
  obtain ⟨initial, looked, -⟩ := Grammar.dfaState_of_lt well.dfaInitial
  obtain ⟨state, earlier, exhausted, moves, here, after, stage, stops⟩ :=
    Stage.exists_stops well (.start initial looked : Stage grammar source _ _ _ _ _)
  have counted := stage.counted
  obtain ⟨stuck, rfl⟩ := counted.stops stops
  refine ⟨moves.length + 1, moves, _, stage.ofSource_of_stops stops, ?_, ?_⟩
  · rw [counted.place, behind, Nat.add_sub_cancel_left]
    exact counted.latest.next counted.reached
  · intro index
    constructor
    · rintro ⟨own, reached⟩
      refine Nat.lt_of_not_le fun beyond => ?_
      rw [Grammar.stateAfter?_of_le stuck beyond] at reached
      contradiction
    · intro below
      cases none : grammar.stateAfter? source.left index with
      | some own => exact ⟨own, rfl⟩
      | none =>
        have reached := counted.reached
        rw [Grammar.stateAfter?_of_le none (Nat.le_of_lt_succ below)] at reached
        contradiction

end Walk

namespace Scan

variable {grammar : Grammar} {errorSymbol : Option SymbolId} {left : List UInt8}

/-- What a walk recognized last is classified as the longest match, which covers only bytes that
were read. -/
theorem classify_longest (well : grammar.tables.WellFormed)
    (recoverable : ∀ error ∈ errorSymbol, error < grammar.tables.count .symbol)
    (more : left ≠ []) {count : Nat} {found : Option Match}
    (latest : grammar.Latest left count found)
    (all : ∀ index, (∃ state, grammar.stateAfter? left index = some state) ↔ index < count) :
    ∃ symbol length,
      classify grammar errorSymbol (min count left.length) found = .ok (symbol, length) ∧
      grammar.LongestMatch errorSymbol left symbol length ∧ length ≤ min count left.length := by
  have below {index : Nat} {id : SymbolId} (accepts : grammar.AcceptsAfter left index id) :
      index < count := by
    obtain ⟨state, reached, -⟩ := accepts
    exact (all index).mp ⟨state, reached⟩
  cases found with
  | some found =>
    obtain ⟨index, inside, accepts, length, last⟩ := latest
    obtain ⟨state, reached, accepted⟩ := accepts
    obtain ⟨symbol, named⟩ := Grammar.symbol_of_lt
      ((well.dfaStates state (Grammar.mem_of_stateAfter? reached)).accept found.symbol accepted)
    refine ⟨symbol, min index left.length, ?_, ?_, by omega⟩
    · rw [classify, named, length]
      rfl
    · refine .accepted index found.symbol symbol ⟨state, reached, accepted⟩ ?_ named
      intro later above other accepts
      exact last later (below accepts) above other accepts
  | none =>
    have unaccepted (index : Nat) (id : SymbolId) : ¬ grammar.AcceptsAfter left index id := by
      intro accepts
      exact latest index (below accepts) id accepts
    cases given : errorSymbol with
    | some error =>
      obtain ⟨symbol, named⟩ := Grammar.symbol_of_lt (recoverable error given)
      refine ⟨{ symbol with kind := .terminal }, min count left.length, ?_, ?_, Nat.le_refl _⟩
      · rw [classify, Grammar.errorTerminal, named]
        rfl
      · refine .recovered error symbol _ rfl unaccepted named (Nat.min_le_right _ _) ?_
        intro index inside
        rw [all index]
        omega
    | none =>
      obtain ⟨initial, looked, -⟩ := Grammar.dfaState_of_lt well.dfaInitial
      have begun : 0 < count := (all 0).mp ⟨initial, (Grammar.entry_eq_ok _ _ _ _).mp looked⟩
      have positive := List.length_pos_iff.mpr more
      -- One byte is covered though nothing was recognized; the walk has read it, because the
      -- initial state is reached before it.
      exact ⟨grammar.lexicalError, 1, rfl, .faulty rfl unaccepted, by omega⟩

/-- A scan that is not at the end takes the longest match for the token and leaves the source
behind it. -/
theorem next_longest (well : grammar.tables.WellFormed)
    (recoverable : ∀ error ∈ errorSymbol, error < grammar.tables.count .symbol)
    (tally : ScanTally) {source : ByteSource} (more : source.position < source.size) :
    ∃ symbol length, grammar.LongestMatch errorSymbol source.left symbol length ∧
      length ≤ source.left.length ∧
      (next grammar errorSymbol tally source).result =
        .ok ⟨symbol, Source.line source, Text.lossy (source.left.take length)⟩ ∧
      (next grammar errorSymbol tally source).source =
        { source with position := source.position + length } := by
  have nonempty : source.left ≠ [] := by
    rw [ne_eq, ByteSource.left_eq_nil]
    omega
  have size : source.left.length = source.size - source.position := by
    rw [ByteSource.left, List.length_drop, Array.length_toList]
    rfl
  obtain ⟨count, moves, found, walked, latest, all⟩ := Walk.ofSource_counted well source
  obtain ⟨symbol, length, classified, longest, read⟩ :=
    classify_longest well recoverable nonempty latest all
  have within : length ≤ source.left.length := Nat.le_trans read (Nat.min_le_right _ _)
  have ahead : source.Ahead (Walk.behind source count) := by
    refine ⟨rfl, Nat.le_add_right _ _, ?_⟩
    dsimp only [Walk.behind]
    omega
  have fits : source.position + length ≤ source.size := by omega
  have reading := reread_eq_ok ahead fits
  have bytes : (source.bytes.extract source.position (source.position + length)).toList =
      source.left.take length := by
    have split := (List.take_append_drop length source.left).symm
    have word := ByteSource.extract_of_left split
    rwa [List.length_take, Nat.min_eq_left within] at word
  rw [bytes] at reading
  refine ⟨symbol, length, longest, within, ?_⟩
  have unfinished := ne_true_of_eq_false (ByteSource.not_atEnd_iff.mpr more)
  have distance : Source.cursor (Walk.behind source count) - source.position =
      min count source.left.length := Nat.add_sub_cancel_left _ _
  have starts : Source.cursor source = source.position := rfl
  unfold next
  rw [if_neg unfinished]
  simp only [walked, distance, classified, starts, reading]
  exact ⟨trivial, trivial⟩

end Scan

/-- By tables that pass validation, with an error terminal that is one of their symbols or with
none, a scan of bytes in memory that is not at their end yields a token. The token is the longest
match, its text is what its bytes decode to, and its line is one more than the line ends before
it; the source is left right behind it. -/
theorem scan_takes_longest_match {tables : Tables} {grammar : Grammar}
    (accepted : Grammar.ofTables tables = .ok grammar) {errorSymbol : Option SymbolId}
    (recoverable : ∀ error ∈ errorSymbol, error < grammar.tables.count .symbol)
    (tally : ScanTally) (bytes : Array UInt8) (position : Nat) (more : position < bytes.size) :
    ∃ token length,
      (Scan.next grammar errorSymbol tally { ByteSource.ofBytes bytes with position }).result =
        .ok token ∧
      grammar.LongestMatch errorSymbol (bytes.toList.drop position) token.symbol length ∧
      length ≤ (bytes.toList.drop position).length ∧
      token.text = Text.lossy ((bytes.toList.drop position).take length) ∧
      token.line = 1 + (bytes.toList.take position).count newline ∧
      (Scan.next grammar errorSymbol tally { ByteSource.ofBytes bytes with position }).source =
        { ByteSource.ofBytes bytes with position := position + length } := by
  have well := Grammar.wellFormed_of_ofTables accepted
  have left : ({ ByteSource.ofBytes bytes with position } : ByteSource).position <
      ({ ByteSource.ofBytes bytes with position } : ByteSource).size := more
  obtain ⟨symbol, length, longest, within, scanned, moved⟩ :=
    Scan.next_longest well recoverable tally left
  have line : ({ ByteSource.ofBytes bytes with position } : ByteSource).line =
      (bytes.toList.take position).count newline + 1 :=
    ByteSource.line_eq rfl
  exact ⟨_, length, scanned, longest, within, rfl, line.trans (Nat.add_comm _ _), moved⟩

open Sums in
/-- Behind a line end both digits of a number are taken before a sign. -/
theorem scan_takes_both_digits :
    Grammar.ofTables tables = .ok grammar ∧
      (∀ error ∈ some Symbols.error, error < grammar.tables.count .symbol) ∧
      1 < (#[10, 52, 50, 43] : Array UInt8).size ∧
      (Scan.next grammar (some Symbols.error) .zero
        { ByteSource.ofBytes #[10, 52, 50, 43] with position := 1 }).result =
          .ok ⟨⟨Symbols.number, .terminal, "Num"⟩, 2, "42"⟩ ∧
      grammar.LongestMatch (some Symbols.error) [52, 50, 43]
        ⟨Symbols.number, .terminal, "Num"⟩ 2 := by
  have recoverable : ∀ error ∈ some Symbols.error, error < grammar.tables.count .symbol := by
    decide
  have more : 1 < (#[10, 52, 50, 43] : Array UInt8).size := by decide
  obtain ⟨token, length, scanned, longest, -, -, -, moved⟩ := scan_takes_longest_match
    ofTables_tables recoverable .zero #[10, 52, 50, 43] 1 more
  have number : (Scan.next grammar (some Symbols.error) .zero
      { ByteSource.ofBytes #[10, 52, 50, 43] with position := 1 }).result =
        .ok ⟨⟨Symbols.number, .terminal, "Num"⟩, 2, "42"⟩ := rfl
  obtain rfl := Except.ok.inj (number.symm.trans scanned)
  have place : 3 = 1 + length := congrArg ByteSource.position moved
  obtain rfl : length = 2 := by omega
  exact ⟨ofTables_tables, recoverable, more, number, longest⟩

end TableDriven
