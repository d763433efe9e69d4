import TableDriven.Proofs.Parsing.Alike
import TableDriven.Proofs.Parsing.Reachable

/-!
# The cursor of a run

A run never moves its source back and never out of its bytes: a scan leaves it behind its token,
dropping a line leaves it where the next one begins, and nothing else touches it. So the source of
a run holds the same bytes throughout, and its line ends stay counted.
-/

namespace TableDriven

namespace ByteSource.Ahead

variable {source later : ByteSource}

/-- A source that has been moved forward is as proper as before. -/
theorem proper (ahead : source.Ahead later) (proper : source.Proper) : later.Proper := by
  obtain ⟨same, -, inside⟩ := ahead
  rw [same]
  exact ⟨proper.made, inside⟩

/-- What a source has still to give is the end of what it had to give before. -/
theorem exists_left (ahead : source.Ahead later) :
    ∃ passed, source.left = passed ++ later.left := by
  refine ⟨source.left.take (later.position - source.position), ?_⟩
  have behind : later.left = source.left.drop (later.position - source.position) := by
    rw [left, left, List.drop_drop, Nat.add_sub_cancel' ahead.forward, ahead.same]
  rw [behind, List.take_append_drop]

end ByteSource.Ahead

namespace Run

variable {automaton : Automaton} {run next last : Run ByteSource}

/-- A scan does not move a source back. -/
theorem scan_ahead (well : automaton.grammar.tables.WellFormed)
    (recoverable : ∀ error ∈ automaton.errorSymbol, error < automaton.grammar.tables.count .symbol)
    {source : ByteSource} (inside : source.position ≤ source.size) :
    source.Ahead (Scan.next automaton.grammar automaton.errorSymbol .zero source).source := by
  by_cases more : source.position < source.size
  · obtain ⟨-, length, short, -, -, moved⟩ := Scan.next_moves well recoverable .zero more
    rw [moved]
    exact ⟨rfl, Nat.le_add_right _ _, short⟩
  · rw [Scan.next_of_atEnd (ByteSource.atEnd_iff.mpr (Nat.le_of_not_lt more))]
    exact .refl inside

/-- No step moves the source back. -/
theorem ahead_of_step (well : automaton.grammar.tables.WellFormed)
    (recoverable : ∀ error ∈ automaton.errorSymbol, error < automaton.grammar.tables.count .symbol)
    (inside : run.source.position ≤ run.source.size)
    (stepped : run.step automaton = .running next) : run.source.Ahead next.source := by
  cases stepped_of_step stepped with
  | fetched token next empty scanned still held nested moved =>
    rw [moved]
    exact scan_ahead well recoverable inside
  | dropped => exact .refl inside
  | lineDropped => exact nextLine_ahead inside
  | pushed => exact .refl inside
  | again => exact .refl inside

/-- Nor does a run. -/
theorem ahead_of_reaches (well : automaton.grammar.tables.WellFormed)
    (recoverable : ∀ error ∈ automaton.errorSymbol, error < automaton.grammar.tables.count .symbol)
    (inside : run.source.position ≤ run.source.size) (reached : Reaches automaton run last) :
    run.source.Ahead last.source := by
  induction reached with
  | refl => exact .refl inside
  | tail _ stepped inductionHypothesis =>
    have within := inductionHypothesis.size_eq ▸ inductionHypothesis.inside
    exact inductionHypothesis.trans (ahead_of_step well recoverable within stepped)

end Run

end TableDriven
