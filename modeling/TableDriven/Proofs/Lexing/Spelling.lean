import TableDriven.Proofs.Lexing.Progress

/-!
# Tokens by their spelling

The lexical automaton spells a word if its edges lead along the bytes of the word. Where a
source goes on with a word that is spelled up to an accepting state, and no edge leads on from
there, the next token is this word: it is the longest that is recognized. The end of the source
counts as a zero byte.
-/

namespace TableDriven

/-- The bytes that a source has still to give. -/
def ByteSource.left (source : ByteSource) : List UInt8 := source.bytes.toList.drop source.position

namespace ByteSource

variable {source : ByteSource} {byte : UInt8} {word rest : List UInt8}

/-- A source is at its end if it has nothing left. -/
theorem left_eq_nil (source : ByteSource) : source.left = [] ↔ source.size ≤ source.position := by
  rw [left, List.drop_eq_nil_iff, Array.length_toList]
  exact Iff.rfl

/-- A source with bytes left is not at its end. -/
theorem atEnd_of_left (left : source.left = byte :: rest) : Source.atEnd source = false := by
  rw [not_atEnd_iff]
  refine Nat.lt_of_not_le fun done => ?_
  rw [(left_eq_nil source).mpr done] at left
  contradiction

/-- A source gives the first of the bytes that are left. -/
theorem next?_of_left (left : source.left = byte :: rest) :
    source.next? = some (byte, { source with position := source.position + 1 }) := by
  have peeked : source.peek = some byte := by
    have first := congrArg List.head? left
    rw [ByteSource.left, List.head?_drop, Array.getElem?_toList] at first
    exact first
  rw [next?, peeked]
  rfl

/-- A source at its end gives nothing. -/
theorem next?_of_left_nil (left : source.left = []) : source.next? = none := by
  have peeked : source.peek = none := Array.getElem?_eq_none ((left_eq_nil source).mp left)
  rw [next?, peeked]
  rfl

/-- Behind a word the rest is left. -/
theorem left_advance (left : source.left = word ++ rest) :
    ({ source with position := source.position + word.length } : ByteSource).left = rest := by
  have behind : source.left.drop word.length = rest := by rw [left, List.drop_left]
  rw [← behind, ByteSource.left, ByteSource.left, List.drop_drop]

/-- A word that is left lies within the bytes. -/
theorem inside_of_left (left : source.left = word ++ rest) (some : word ≠ []) :
    source.position + word.length ≤ source.size := by
  have lengths := congrArg List.length left
  rw [ByteSource.left, List.length_drop, Array.length_toList, List.length_append] at lengths
  have positive := List.length_pos_iff.mpr some
  unfold size
  omega

/-- A word that is left is what reading so many bytes yields. -/
theorem extract_of_left (left : source.left = word ++ rest) :
    (source.bytes.extract source.position (source.position + word.length)).toList = word := by
  have front : source.left.take word.length = word := by rw [left, List.take_left]
  rw [Array.toList_extract, List.extract_eq_take_drop, Nat.add_sub_cancel_left]
  exact front

end ByteSource

/-- The lexical automaton gets from one state to another along the bytes of a word. -/
inductive Grammar.Spells (grammar : Grammar) : DfaState → List UInt8 → DfaState → Prop where
  | nil (state : DfaState) : Spells grammar state [] state
  | cons {state next last : DfaState} {byte : UInt8} {word : List UInt8} {edge : Edge}
      (first : grammar.firstEdge byte state.edges = .ok (some edge))
      (looked : grammar.dfaState edge.target = .ok next)
      (others : Spells grammar next word last) : Spells grammar state (byte :: word) last

variable {grammar : Grammar} {source here : ByteSource} {state last : DfaState}
  {word rest : List UInt8}

namespace Walk

/-- A walk goes along a word that is spelled. -/
theorem Stage.along {earlier : Option Match} {moves : List Move}
    (stage : Stage grammar source state earlier false moves here)
    (spells : grammar.Spells state word last) (left : here.left = word ++ rest) :
    ∃ earlier moves, Stage grammar source last earlier false moves
      { here with position := here.position + word.length } := by
  induction spells generalizing here earlier moves with
  | nil state => exact ⟨earlier, moves, stage⟩
  | @cons state next last byte word edge first looked _ inductionHypothesis =>
    have read := nextByte_of_next? (ByteSource.next?_of_left left) false
    have split : here.left = [byte] ++ (word ++ rest) := left
    obtain ⟨earlier, moves, behind⟩ := inductionHypothesis (.move stage read first looked)
      (ByteSource.left_advance split)
    refine ⟨earlier, moves, ?_⟩
    rwa [List.length_cons, Nat.add_comm word.length, ← Nat.add_assoc]

/-- A walk stops where no edge leads on. -/
theorem exists_stops_of_left (left : here.left = rest)
    (edgeless : grammar.firstEdge (rest.headD 0) state.edges = .ok none) :
    ∃ after, Stops grammar state false here after := by
  cases rest with
  | nil =>
    have read : nextByte here false = some (0, here, true) := by
      rw [nextByte, show Source.next? here = here.next? from rfl,
        ByteSource.next?_of_left_nil left]
      rfl
    exact ⟨here, .stuck read edgeless⟩
  | cons byte rest =>
    have read := nextByte_of_next? (ByteSource.next?_of_left left) false
    exact ⟨_, .stuck read edgeless⟩

end Walk

/-- The next token is the longest word that is spelled. -/
theorem Scan.next_of_spells {initial : DfaState} {id : SymbolId} {symbol : Symbol}
    (begins : grammar.dfaState grammar.tables.dfaInitial = .ok initial)
    (spells : grammar.Spells initial word last) (accepts : last.accept = some id)
    (named : grammar.symbol id = .ok symbol) (some : word ≠ [])
    (left : source.left = word ++ rest)
    (edgeless : grammar.firstEdge (rest.headD 0) last.edges = .ok none)
    (errorSymbol : Option SymbolId) (tally : ScanTally) :
    (next grammar errorSymbol tally source).result =
        .ok ⟨symbol, Source.line source, Text.lossy word⟩ ∧
      (next grammar errorSymbol tally source).source =
        { source with position := source.position + word.length } := by
  have inside := ByteSource.inside_of_left left some
  have positive := List.length_pos_iff.mpr some
  have more : source.position < source.size := by omega
  -- The walk stops behind the word at the earliest, and has recognized all of it by then.
  obtain ⟨earlier, moves, stage⟩ :=
    Walk.Stage.along (.start initial begins : Walk.Stage grammar source _ _ _ _ _) spells left
  obtain ⟨after, stops⟩ := Walk.exists_stops_of_left (ByteSource.left_advance left) edgeless
  have walked := stage.ofSource_of_stops stops
  obtain ⟨ahead, -⟩ := stage.ahead (Nat.le_of_lt more)
  have onward := ahead.trans (stage.stops_behind more stops).2
  have read := reread_eq_ok onward inside
  rw [ByteSource.extract_of_left left] at read
  have unfinished := ne_true_of_eq_false (ByteSource.not_atEnd_iff.mpr more)
  have starts : Source.cursor source = source.position := rfl
  unfold next
  rw [if_neg unfinished]
  simp only [walked, Walk.recognized, accepts, classify, named, Except.map,
    Nat.add_sub_cancel_left, starts, read]
  exact ⟨trivial, trivial⟩

end TableDriven
