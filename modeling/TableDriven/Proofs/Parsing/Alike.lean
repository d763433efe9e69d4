import TableDriven.Proofs.Parsing.Lexed
import TableDriven.Proofs.Source.Lines

/-!
# Sources that go on alike

Two sources may stand in different texts and at different offsets. What lies ahead is the same if
they have the same bytes left and stand on the same line. They stay alike behind any word that both
have before them, and also where one has passed a word and the other another one with as many line
ends. Where the next line begins is found alike, too.
-/

namespace TableDriven

/-- A line goes on behind bytes without a line end. -/
theorem lineLength_append {own : List UInt8} (flat : newline ∉ own) (rest : List UInt8) :
    lineLength (own ++ rest) = own.length + lineLength rest := by
  induction own with
  | nil => exact (Nat.zero_add _).symm
  | cons byte own inductionHypothesis =>
    have differs : byte ≠ newline := (List.ne_of_not_mem_cons flat).symm
    have others : newline ∉ own := List.not_mem_of_not_mem_cons flat
    simp only [List.cons_append, lineLength, if_neg differs, inductionHypothesis others,
      List.length_cons]
    omega

/-- Bytes without a line end are a line. -/
theorem lineLength_of_flat {bytes : List UInt8} (flat : newline ∉ bytes) :
    lineLength bytes = bytes.length := by
  simpa [lineLength] using lineLength_append flat []

namespace ByteSource

/-- A source that has passed a word. -/
abbrev behind (source : ByteSource) (word : List UInt8) : ByteSource :=
  { source with position := source.position + word.length }

variable {source other : ByteSource} {word own rest : List UInt8}

/-- Passing one word and then another is passing both. -/
theorem behind_append (source : ByteSource) (word own : List UInt8) :
    source.behind (word ++ own) = (source.behind word).behind own := by
  simp only [ByteSource.behind, List.length_append, Nat.add_assoc]

/-- A source stays proper behind a word that it has left. -/
theorem Proper.behind (proper : source.Proper) (left : source.left = word ++ rest) :
    (source.behind word).Proper where
  made := proper.made
  inside := by
    cases word with
    | nil => exact proper.inside
    | cons byte word => exact inside_of_left left (List.cons_ne_nil byte word)

/-- Behind a word a source stands as many lines on as the word has line ends. -/
theorem Proper.line_behind (proper : source.Proper) (left : source.left = word ++ rest) :
    (source.behind word).line = source.line + word.count newline := by
  have taken : source.bytes.toList.take (source.position + word.length) =
      source.bytes.toList.take source.position ++ word := by
    rw [List.take_add, show source.bytes.toList.drop source.position = word ++ rest from left,
      List.take_left]
  rw [line_eq (proper.behind left).made, line_eq proper.made]
  simp only [taken, List.count_append]
  omega

/-- Where a line end is left the next line begins behind it. -/
theorem nextLine_of_ended (left : source.left = own ++ newline :: rest) (flat : newline ∉ own) :
    Run.nextLine source = source.behind (own ++ [newline]) := by
  rw [nextLine_eq_afterLine, afterLine, left, lineLength_append flat, ByteSource.behind,
    List.length_append]
  rfl

/-- Where no line end is left there is no next line. -/
theorem nextLine_of_flat (flat : newline ∉ source.left) :
    Run.nextLine source = source.behind source.left := by
  rw [nextLine_eq_afterLine, afterLine, lineLength_of_flat flat]

/-- Behind a word without a line end the line is still the same. -/
theorem nextLine_behind (left : source.left = word ++ rest) (flat : newline ∉ word) :
    Run.nextLine (source.behind word) = Run.nextLine source := by
  rw [nextLine_eq_afterLine, nextLine_eq_afterLine, afterLine, afterLine, left,
    lineLength_append flat, left_advance left, ← Nat.add_assoc]

/-- Two sources that have the same bytes left and stand on the same line. -/
structure Alike (source other : ByteSource) : Prop where
  proper : source.Proper
  second : other.Proper
  left : other.left = source.left
  line : other.line = source.line

namespace Alike

/-- Being alike goes both ways. -/
theorem symm (alike : source.Alike other) : other.Alike source :=
  ⟨alike.second, alike.proper, alike.left.symm, alike.line.symm⟩

/-- Sources on the same line are alike behind words with as many line ends, if the same is left
behind them. -/
theorem behind_words {first second : List UInt8} (proper : source.Proper) (again : other.Proper)
    (line : other.line = source.line) (left : source.left = first ++ rest)
    (along : other.left = second ++ rest) (count : second.count newline = first.count newline) :
    (source.behind first).Alike (other.behind second) where
  proper := proper.behind left
  second := again.behind along
  left := (left_advance along).trans (left_advance left).symm
  line := by rw [proper.line_behind left, again.line_behind along, line, count]

/-- Sources stay alike behind the same word. -/
theorem behind (alike : source.Alike other) (left : source.left = word ++ rest) :
    (source.behind word).Alike (other.behind word) :=
  behind_words alike.proper alike.second alike.line left (alike.left.trans left) rfl

/-- The next lines of sources that are alike are alike. -/
theorem nextLine (alike : source.Alike other) :
    (Run.nextLine source).Alike (Run.nextLine other) := by
  by_cases ended : newline ∈ source.left
  · obtain ⟨own, rest, split, flat⟩ := List.eq_append_cons_of_mem ended
    rw [nextLine_of_ended split flat, nextLine_of_ended (alike.left.trans split) flat]
    have passed : source.left = (own ++ [newline]) ++ rest := by
      rw [split, List.append_assoc]
      rfl
    exact alike.behind passed
  · rw [nextLine_of_flat ended, nextLine_of_flat (alike.left ▸ ended), alike.left]
    exact alike.behind (List.append_nil _).symm

end Alike

end ByteSource

end TableDriven
