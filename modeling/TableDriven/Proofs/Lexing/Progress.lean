import TableDriven.Proofs.Lexing.Stages
import TableDriven.Parsing.Run

/-!
# Scanning bytes in memory advances

The walk of a scan stays within the bytes, and the token that the scan makes of it covers no
more bytes than were walked over. So going back to the start of the token and reading it is
never refused, and no distance that the scan measures is negative. If the initial lexical
state accepts nothing, a scan that is not at the end moves the source forward.
-/

namespace TableDriven

namespace Scan

variable {grammar : Grammar} {errorSymbol : Option SymbolId}

/-- Going back from ahead to the start of a token within the bytes and reading it is
not refused. -/
theorem reread_eq_ok {source later : ByteSource} (ahead : source.Ahead later) {length : Nat}
    (inside : source.position + length ≤ source.size) :
    reread later source.position length =
      (.ok (Source.line source,
          (source.bytes.extract source.position (source.position + length)).toList),
        { source with position := source.position + length }) := by
  have sought : Source.seek later source.position = (.ok (), source) := by
    rw [ahead.same]
    have reachable : ¬ source.size < source.position := by omega
    exact if_neg reachable
  have taken : Source.take source length =
      (.ok (source.bytes.extract source.position (source.position + length)).toList,
        { source with position := source.position + length }) := by
    have available : ¬ source.size - source.position < length := by omega
    exact if_neg available
  simp only [reread, sought, taken]

/-- The token that a scan makes of its walk covers bytes that were walked over, and at least
one unless the initial lexical state accepts. -/
theorem classify_within (well : grammar.tables.WellFormed)
    (recoverable : ∀ error ∈ errorSymbol, error < grammar.tables.count .symbol)
    {source : ByteSource} (more : source.position < source.size) :
    ∃ found symbol length, (Walk.ofSource grammar source).outcome = .ok found ∧
      classify grammar errorSymbol
        ((Walk.ofSource grammar source).source.position - source.position) found =
          .ok (symbol, length) ∧
      source.position + length ≤ (Walk.ofSource grammar source).source.position ∧
      (grammar.NoEmptyToken → 1 ≤ length) := by
  obtain ⟨last, outcome, known⟩ := Walk.ofSource_outcome well source
  obtain ⟨own, same, ahead, begun, behind⟩ := Walk.ofSource_within well more
  obtain rfl := Except.ok.inj (outcome.symm.trans same)
  obtain ⟨symbol, length, classified, -, covering⟩ := classify_eq_ok well recoverable
    ((Walk.ofSource grammar source).source.position - source.position) known
  refine ⟨last, symbol, length, outcome, classified, ?_⟩
  cases last with
  | some found =>
    rw [covering]
    exact behind found rfl
  | none =>
    rw [covering]
    cases errorSymbol with
    | some error => simp; omega
    | none => simp; omega

/-- A scan that is not at the end yields a token of bytes that it has walked over, counts those
that it has walked over beyond the token as returned, and leaves the source behind the token. -/
theorem next_of_lt (well : grammar.tables.WellFormed)
    (recoverable : ∀ error ∈ errorSymbol, error < grammar.tables.count .symbol)
    (tally : ScanTally) {source : ByteSource} (more : source.position < source.size) :
    ∃ symbol walked length moves, length ≤ walked ∧ source.position + length ≤ source.size ∧
      (grammar.NoEmptyToken → 1 ≤ length) ∧
      next grammar errorSymbol tally source =
        let bytes := (source.bytes.extract source.position (source.position + length)).toList
        ⟨{ source with position := source.position + length }, tally.count walked length, moves,
          some bytes, .ok ⟨symbol, Source.line source, Text.lossy bytes⟩⟩ := by
  obtain ⟨found, symbol, length, outcome, classified, short, some⟩ :=
    classify_within well recoverable more
  obtain ⟨-, -, ahead, -⟩ := Walk.ofSource_within well more
  have inside : source.position + length ≤ source.size := Nat.le_trans short ahead.inside
  have read : reread (Walk.ofSource grammar source).source (Source.cursor source) length = _ :=
    reread_eq_ok ahead inside
  have left := ne_true_of_eq_false (ByteSource.not_atEnd_iff.mpr more)
  have cursors : Source.cursor (Walk.ofSource grammar source).source - Source.cursor source =
      (Walk.ofSource grammar source).source.position - source.position := rfl
  have within : length ≤ (Walk.ofSource grammar source).source.position - source.position :=
    Nat.le_sub_of_add_le' short
  refine ⟨symbol, _, length, (Walk.ofSource grammar source).moves.reverse, within, inside, some, ?_⟩
  unfold next
  rw [if_neg left]
  simp only [outcome, cursors, classified, read]

/-- A scan that is not at the end yields a token and leaves the source behind it. -/
theorem next_moves (well : grammar.tables.WellFormed)
    (recoverable : ∀ error ∈ errorSymbol, error < grammar.tables.count .symbol)
    (tally : ScanTally) {source : ByteSource} (more : source.position < source.size) :
    ∃ token length, source.position + length ≤ source.size ∧
      (grammar.NoEmptyToken → 1 ≤ length) ∧
      (next grammar errorSymbol tally source).result = .ok token ∧
      (next grammar errorSymbol tally source).source =
        { source with position := source.position + length } := by
  obtain ⟨symbol, walked, length, moves, -, inside, some, scanned⟩ :=
    next_of_lt well recoverable tally more
  rw [scanned]
  exact ⟨_, length, inside, some, rfl, rfl⟩

/-- A scan that is not at the end yields a token of at least one byte and leaves the
source behind it. -/
theorem next_advances (well : grammar.tables.WellFormed) (proper : grammar.NoEmptyToken)
    (recoverable : ∀ error ∈ errorSymbol, error < grammar.tables.count .symbol)
    (tally : ScanTally) {source : ByteSource} (more : source.position < source.size) :
    ∃ token length, 1 ≤ length ∧ source.position + length ≤ source.size ∧
      (next grammar errorSymbol tally source).result = .ok token ∧
      (next grammar errorSymbol tally source).source =
        { source with position := source.position + length } := by
  obtain ⟨token, length, inside, some, scanned, moved⟩ := next_moves well recoverable tally more
  exact ⟨token, length, some proper, inside, scanned, moved⟩

/-- A scan of bytes in memory always yields a token. -/
theorem next_answers (well : grammar.tables.WellFormed)
    (recoverable : ∀ error ∈ errorSymbol, error < grammar.tables.count .symbol)
    (tally : ScanTally) (source : ByteSource) :
    ∃ token, (next grammar errorSymbol tally source).result = .ok token := by
  by_cases more : source.position < source.size
  · obtain ⟨token, length, -, -, scanned, -⟩ := next_moves well recoverable tally more
    exact ⟨token, scanned⟩
  · have done := ByteSource.atEnd_iff.mpr (Nat.le_of_not_lt more)
    exact ⟨_, congrArg Scan.result (next_of_atEnd done grammar errorSymbol tally)⟩

end Scan

namespace Run

/-- Reading on to the next line moves a source forward within its bytes. -/
theorem nextLineFrom_ahead (steps : Nat) {source : ByteSource}
    (inside : source.position ≤ source.size) : source.Ahead (nextLineFrom steps source) := by
  induction steps generalizing source with
  | zero => exact .refl inside
  | succ steps inductionHypothesis =>
    unfold nextLineFrom
    cases read : Source.next? source with
    | none => exact .refl inside
    | some step =>
      obtain ⟨byte, after⟩ := step
      obtain ⟨ahead, -⟩ := ByteSource.Ahead.of_next? read
      by_cases ends : byte = 10
      · simp only [if_pos ends]
        exact ahead
      · simp only [if_neg ends]
        exact ahead.trans (inductionHypothesis (ahead.size_eq ▸ ahead.inside))

/-- The start of the next line lies ahead. -/
theorem nextLine_ahead {source : ByteSource} (inside : source.position ≤ source.size) :
    source.Ahead (nextLine source) :=
  nextLineFrom_ahead _ inside

end Run

end TableDriven
