import TableDriven.Proofs.Lexing.Progress

/-!
# Scans tile the bytes

A walk may go on beyond the token that it finds, and then the scan goes back. Where it leaves its
source is behind the bytes that it has read again as its token, and there the next scan begins. A
scan counts as returned what its walk went over beyond the token, and what is left of the walk is
the token. So a source that is scanned again and again is taken apart without gaps and overlaps,
and the totals say at every moment how much of it has been taken.

If the initial lexical state accepts nothing, every scan takes something as long as a byte is left,
and behind the last byte nothing changes any more.
-/

namespace TableDriven

namespace ByteSource.Ahead

variable {source later last : ByteSource}

/-- A source that is ahead stands among the same bytes. -/
theorem bytes_eq (ahead : source.Ahead later) : later.bytes = source.bytes := by
  rw [ahead.same]

/-- As many bytes lie between two places as these are apart. -/
theorem length_extract (ahead : source.Ahead later) :
    (source.bytes.extract source.position later.position).toList.length =
      later.position - source.position := by
  have inside : later.position ≤ source.bytes.size := ahead.inside
  rw [Array.length_toList, Array.size_extract, Nat.min_eq_left inside]

/-- What lies between two places, followed by what lies between the second and a third, is what
lies between the first and the third. -/
theorem extract_append (first : source.Ahead later) (second : later.Ahead last) :
    (source.bytes.extract source.position later.position).toList ++
        (later.bytes.extract later.position last.position).toList =
      (source.bytes.extract source.position last.position).toList := by
  rw [first.bytes_eq, ← Array.toList_append, Array.extract_append_extract,
    Nat.min_eq_left first.forward, Nat.max_eq_right second.forward]

end ByteSource.Ahead

/-- The bytes that the token of a scan covers. The end of the input covers none. -/
def Scan.covered {σ : Type} (scan : Scan σ) : List UInt8 := scan.bytes.getD []

/-- A scan yields a token that covers exactly the bytes from where its source stood to where it is
left. These are counted as walked over and not returned. -/
structure Scan.Covers (tally : ScanTally) (source : ByteSource) (scan : Scan ByteSource) :
    Prop where
  ahead : source.Ahead scan.source
  covered : scan.covered = (source.bytes.extract source.position scan.source.position).toList
  kept : scan.tally.walked + tally.returned =
    tally.walked + scan.tally.returned + scan.covered.length
  token : ∃ token, scan.result = .ok token ∧
    (Source.atEnd source = false → token.text = Text.lossy scan.covered)

namespace Scan

variable {grammar : Grammar} {errorSymbol : Option SymbolId} {source : ByteSource}

/-- Every scan of bytes in memory covers what it passes. -/
theorem next_covers (well : grammar.tables.WellFormed)
    (recoverable : ∀ error ∈ errorSymbol, error < grammar.tables.count .symbol)
    (tally : ScanTally) (inside : source.position ≤ source.size) :
    (next grammar errorSymbol tally source).Covers tally source := by
  by_cases more : source.position < source.size
  · obtain ⟨symbol, walked, length, moves, within, fits, -, scanned⟩ :=
      next_of_lt well recoverable tally more
    have passed : source.Ahead { source with position := source.position + length } :=
      ⟨rfl, Nat.le_add_right _ _, fits⟩
    have taken : (source.bytes.extract source.position (source.position + length)).toList.length =
        length :=
      passed.length_extract.trans (Nat.add_sub_cancel_left _ _)
    rw [scanned]
    refine ⟨passed, rfl, ?_, _, rfl, fun _ => rfl⟩
    dsimp only [covered, Option.getD_some, ScanTally.count, ScanTally.add]
    omega
  · have done : Source.atEnd source = true := ByteSource.atEnd_iff.mpr (Nat.le_of_not_lt more)
    have nothing : (source.bytes.extract source.position source.position).toList = [] := by
      rw [Array.extract_eq_empty_of_le (Nat.min_le_left _ _)]
    rw [next_of_atEnd done]
    refine ⟨.refl inside, nothing.symm, rfl, _, rfl, ?_⟩
    rw [done]
    nofun

/-- If the initial lexical state accepts nothing, a token covers something as long as a byte is
left. -/
theorem covered_pos (well : grammar.tables.WellFormed) (proper : grammar.NoEmptyToken)
    (recoverable : ∀ error ∈ errorSymbol, error < grammar.tables.count .symbol)
    (tally : ScanTally) (left : Source.atEnd source = false) :
    1 ≤ (next grammar errorSymbol tally source).covered.length := by
  have more : source.position < source.size := ByteSource.not_atEnd_iff.mp left
  obtain ⟨token, length, some, -, -, moved⟩ := next_advances well proper recoverable tally more
  have covers := next_covers well recoverable tally (Nat.le_of_lt more)
  rw [covers.covered, covers.ahead.length_extract, moved]
  dsimp only
  omega

end Scan

/-- Scanning a source again and again: what has been counted so far, and the source as it has been
left. -/
structure Scanning (σ : Type) where
  tally : ScanTally
  source : σ

namespace Scanning

section

variable {σ : Type} [Source σ]

/-- The next scan. -/
def scan (grammar : Grammar) (errorSymbol : Option SymbolId) (scanning : Scanning σ) : Scan σ :=
  Scan.next grammar errorSymbol scanning.tally scanning.source

/-- Where scanning a source stands after so many scans. -/
def after (grammar : Grammar) (errorSymbol : Option SymbolId) (source : σ) : Nat → Scanning σ
  | 0 => ⟨.zero, source⟩
  | count + 1 =>
    let scan := (after grammar errorSymbol source count).scan grammar errorSymbol
    ⟨scan.tally, scan.source⟩

/-- The bytes that the tokens of the first so many scans cover, one token after the other. -/
def taken (grammar : Grammar) (errorSymbol : Option SymbolId) (source : σ) (count : Nat) :
    List UInt8 :=
  (List.range count).flatMap fun earlier =>
    ((after grammar errorSymbol source earlier).scan grammar errorSymbol).covered

/-- The token of one more scan covers what comes next. -/
theorem taken_succ (grammar : Grammar) (errorSymbol : Option SymbolId) (source : σ)
    (count : Nat) :
    taken grammar errorSymbol source (count + 1) =
      taken grammar errorSymbol source count ++
        ((after grammar errorSymbol source count).scan grammar errorSymbol).covered := by
  rw [taken, List.range_succ, List.flatMap_append, List.flatMap_singleton]
  rfl

end

variable {grammar : Grammar} {errorSymbol : Option SymbolId} {source : ByteSource}

/-- After so many scans the tokens cover exactly the bytes that have been passed, and the totals
have kept as many. -/
structure Tiled (grammar : Grammar) (errorSymbol : Option SymbolId) (source : ByteSource)
    (count : Nat) : Prop where
  ahead : source.Ahead (after grammar errorSymbol source count).source
  covered : taken grammar errorSymbol source count =
    (source.bytes.extract source.position
      (after grammar errorSymbol source count).source.position).toList
  returned : (after grammar errorSymbol source count).tally.returned ≤
    (after grammar errorSymbol source count).tally.walked
  kept : (after grammar errorSymbol source count).tally.walked -
    (after grammar errorSymbol source count).tally.returned =
      (taken grammar errorSymbol source count).length

/-- The next scan covers what it passes. -/
theorem Tiled.covers (well : grammar.tables.WellFormed)
    (recoverable : ∀ error ∈ errorSymbol, error < grammar.tables.count .symbol) {count : Nat}
    (tiled : Tiled grammar errorSymbol source count) :
    ((after grammar errorSymbol source count).scan grammar errorSymbol).Covers
      (after grammar errorSymbol source count).tally
      (after grammar errorSymbol source count).source :=
  Scan.next_covers well recoverable _ (tiled.ahead.size_eq ▸ tiled.ahead.inside)

/-- After any number of scans the source is tiled. Induct on the number: one more token covers the
bytes behind those that the others cover. -/
theorem tiled (well : grammar.tables.WellFormed)
    (recoverable : ∀ error ∈ errorSymbol, error < grammar.tables.count .symbol)
    (inside : source.position ≤ source.size) (count : Nat) :
    Tiled grammar errorSymbol source count := by
  induction count with
  | zero =>
    refine ⟨.refl inside, ?_, Nat.le_refl 0, rfl⟩
    rw [after, Array.extract_eq_empty_of_le (Nat.min_le_left _ _)]
    rfl
  | succ count inductionHypothesis =>
    have covers := inductionHypothesis.covers well recoverable
    obtain ⟨ahead, covered, returned, kept⟩ := inductionHypothesis
    have more := covers.kept
    refine ⟨ahead.trans covers.ahead, ?_, ?_, ?_⟩
    · rw [taken_succ, covered, covers.covered]
      exact ahead.extract_append covers.ahead
    · dsimp only [after]
      omega
    · rw [taken_succ, List.length_append]
      dsimp only [after]
      omega

/-- Scans at the end change nothing, however many there are. -/
theorem after_of_atEnd {count later : Nat}
    (done : Source.atEnd (after grammar errorSymbol source count).source = true)
    (further : count ≤ later) :
    after grammar errorSymbol source later = after grammar errorSymbol source count := by
  obtain ⟨more, rfl⟩ := Nat.exists_eq_add_of_le further
  clear further
  induction more with
  | zero => rfl
  | succ more inductionHypothesis =>
    rw [← Nat.add_assoc, after, inductionHypothesis, scan, Scan.next_of_atEnd done]

/-- If the initial lexical state accepts nothing, the end is reached after no more scans than there
are bytes. As long as it is not, so many scans have passed at least so many bytes. -/
theorem exists_atEnd (well : grammar.tables.WellFormed) (proper : grammar.NoEmptyToken)
    (recoverable : ∀ error ∈ errorSymbol, error < grammar.tables.count .symbol)
    (inside : source.position ≤ source.size) :
    ∃ count ≤ source.size - source.position,
      Source.atEnd (after grammar errorSymbol source count).source = true := by
  have passed (count : Nat) :
      (∃ earlier ≤ count, Source.atEnd (after grammar errorSymbol source earlier).source = true) ∨
        source.position + count ≤ (after grammar errorSymbol source count).source.position := by
    induction count with
    | zero => exact .inr (Nat.le_refl _)
    | succ count inductionHypothesis =>
      rcases inductionHypothesis with ⟨earlier, before, done⟩ | behind
      · exact .inl ⟨earlier, Nat.le_succ_of_le before, done⟩
      · cases done : Source.atEnd (after grammar errorSymbol source count).source with
        | true => exact .inl ⟨count, Nat.le_succ count, done⟩
        | false =>
          have covers := (tiled well recoverable inside count).covers well recoverable
          have some : 1 ≤ ((after grammar errorSymbol source count).scan
              grammar errorSymbol).covered.length :=
            Scan.covered_pos well proper recoverable _ done
          rw [covers.covered, covers.ahead.length_extract] at some
          refine .inr ?_
          dsimp only [after]
          omega
  rcases passed (source.size - source.position) with found | behind
  · exact found
  · refine ⟨source.size - source.position, Nat.le_refl _, ?_⟩
    have ahead := (tiled well recoverable inside (source.size - source.position)).ahead
    rw [ByteSource.atEnd_iff, ahead.size_eq]
    omega

end Scanning

end TableDriven
