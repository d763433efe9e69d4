import TableDriven.Proofs.Lexing.Spelling
import TableDriven.Proofs.Parsing.Upcoming

/-!
# Lexing without a parser

Bytes in memory can be lexed from the first to the last without a parser. All there is to
remember between two scans is whether a block comment is open: blanks are left out, a line
comment is left out with the rest of its line, and from the opening of a block comment to the
next closing everything is. What this finds are the tokens that the source has in store. As every
scan moves the source forward, one scan for each byte and one for their end are enough.
-/

namespace TableDriven

/-- The number of bytes up to the first line end, with it, or of all bytes. -/
def lineLength : List UInt8 → Nat
  | [] => 0
  | byte :: rest => if byte = newline then 1 else lineLength rest + 1

namespace ByteSource

/-- A source behind the rest of its line. -/
def afterLine (source : ByteSource) : ByteSource :=
  { source with position := source.position + lineLength source.left }

/-- Reading byte by byte up to the next line end leads behind the rest of the line. -/
theorem nextLineFrom_eq_afterLine (steps : Nat) {source : ByteSource}
    (enough : source.left.length ≤ steps) : Run.nextLineFrom steps source = source.afterLine := by
  induction steps generalizing source with
  | zero =>
    have nothing := List.length_eq_zero_iff.mp (Nat.le_zero.mp enough)
    rw [afterLine, nothing]
    rfl
  | succ steps inductionHypothesis =>
    unfold Run.nextLineFrom afterLine
    cases left : source.left with
    | nil =>
      rw [show Source.next? source = none from next?_of_left_nil left]
      rfl
    | cons byte rest =>
      rw [show Source.next? source = _ from next?_of_left left]
      by_cases ends : byte = newline
      · simp only [lineLength, if_pos ends]
        exact if_pos ends
      · have split : source.left = [byte] ++ rest := left
        have behind : ({ source with position := source.position + 1 } : ByteSource).left = rest :=
          left_advance split
        have shorter : rest.length ≤ steps := by
          rw [left, List.length_cons] at enough
          exact Nat.le_of_succ_le_succ enough
        have later := inductionHypothesis (behind ▸ shorter)
        simp only [lineLength, if_neg ends]
        refine (if_neg ends).trans (later.trans ?_)
        simp only [afterLine, behind, Nat.add_assoc, Nat.add_comm 1]

/-- Reading on to the next line leads behind the rest of the line. -/
theorem nextLine_eq_afterLine (source : ByteSource) : Run.nextLine source = source.afterLine := by
  refine nextLineFrom_eq_afterLine _ ?_
  rw [left, List.length_drop, Array.length_toList]
  exact Nat.le_refl _

/-- The tokens that so many scans find and what they end with, inside a block comment or outside
of one; none if the scans do not get to an end. -/
def lexFrom (grammar : Grammar) (errorSymbol : Option SymbolId) :
    Nat → Bool → ByteSource → Option (List Token × Ending)
  | 0, _, _ => none
  | scans + 1, commented, source =>
    let scan := Scan.next grammar errorSymbol .zero source
    match scan.result with
    | .error _ => none
    | .ok token =>
      match commented, token.symbol.kind with
      | true, .endOfInput => some ([], .stopped (.unterminatedComment token.line))
      | true, .commentEnd => lexFrom grammar errorSymbol scans false scan.source
      | true, _ => lexFrom grammar errorSymbol scans true scan.source
      | false, .whitespace => lexFrom grammar errorSymbol scans false scan.source
      | false, .commentLine => lexFrom grammar errorSymbol scans false scan.source.afterLine
      | false, .commentStart => lexFrom grammar errorSymbol scans true scan.source
      | false, .error => some ([], .stopped (.lexical token.line token.text))
      | false, _ =>
        if source.atEnd then some ([], .complete token)
        else (lexFrom grammar errorSymbol scans false scan.source).map fun (tokens, ending) =>
          (token :: tokens, ending)

/-- The tokens of bytes and what they end with. -/
def lex (grammar : Grammar) (errorSymbol : Option SymbolId) (bytes : Array UInt8) :
    Option (List Token × Ending) :=
  lexFrom grammar errorSymbol (bytes.size + 1) false (ofBytes bytes)

variable {grammar : Grammar} {errorSymbol : Option SymbolId}

/-- Outside of comments, lexing ends with the end of the source. -/
theorem lexFrom_of_atEnd {source : ByteSource} (done : Source.atEnd source = true) (scans : Nat) :
    lexFrom grammar errorSymbol (scans + 1) false source =
      some ([], .complete (Scan.endToken grammar (Source.line source))) := by
  unfold lexFrom
  rw [Scan.next_of_atEnd done]
  exact if_pos done

/-- Otherwise the fate of the token that is scanned decides how lexing goes on. Only whether a
comment is open matters, not how many openings are unclosed. -/
theorem lexFrom_of_scanned {depth : Nat} {source : ByteSource} {token : Token}
    (left : depth = 0 → Source.atEnd source = false)
    (scanned : (Scan.next grammar errorSymbol .zero source).result = .ok token) (scans : Nat) :
    lexFrom grammar errorSymbol (scans + 1) (decide (depth ≠ 0)) source =
      match token.fate depth with
      | .dropped after => lexFrom grammar errorSymbol scans (decide (after ≠ 0))
          (Scan.next grammar errorSymbol .zero source).source
      | .lineDropped => lexFrom grammar errorSymbol scans (decide (depth ≠ 0))
          (Run.nextLine (Scan.next grammar errorSymbol .zero source).source)
      | .stops error => some ([], .stopped error)
      | .offered => (lexFrom grammar errorSymbol scans (decide (depth ≠ 0))
          (Scan.next grammar errorSymbol .zero source).source).map fun (tokens, ending) =>
            (token :: tokens, ending) := by
  simp only [lexFrom, scanned]
  by_cases outside : depth = 0
  · subst outside
    have unfinished : source.atEnd = false := left rfl
    cases kind : token.symbol.kind <;>
      simp [Token.fate, kind, unfinished, nextLine_eq_afterLine]
  · cases kind : token.symbol.kind <;> simp [Token.fate, kind, outside]

/-- The tokens that are found are those in store. -/
theorem upcoming_of_lexFrom {scans depth : Nat} {source : ByteSource} {tokens : List Token}
    {ending : Ending}
    (lexed : lexFrom grammar errorSymbol scans (decide (depth ≠ 0)) source =
      some (tokens, ending)) :
    Upcoming grammar errorSymbol none depth source tokens ending := by
  induction scans generalizing depth source tokens with
  | zero => contradiction
  | succ scans inductionHypothesis =>
    by_cases finished : depth = 0 ∧ Source.atEnd source = true
    · obtain ⟨rfl, done⟩ := finished
      obtain ⟨rfl, rfl⟩ :=
        Prod.mk.inj (Option.some.inj ((lexFrom_of_atEnd done scans).symm.trans lexed))
      exact .finished done
    · have left (outside : depth = 0) : Source.atEnd source = false :=
        Bool.eq_false_iff.mpr fun done => finished ⟨outside, done⟩
      cases scanned : (Scan.next grammar errorSymbol .zero source).result with
      | error halt => simp [lexFrom, scanned] at lexed
      | ok token =>
        rw [lexFrom_of_scanned left scanned] at lexed
        refine .fetched left scanned ?_
        cases fate : token.fate depth with
        | dropped after =>
          rw [fate] at lexed
          exact .dropped fate (inductionHypothesis lexed)
        | lineDropped =>
          rw [fate] at lexed
          exact .lineDropped fate (inductionHypothesis lexed)
        | stops error =>
          rw [fate] at lexed
          obtain ⟨rfl, rfl⟩ := Prod.mk.inj (Option.some.inj lexed)
          exact .stopped fate
        | offered =>
          rw [fate] at lexed
          obtain ⟨⟨others, last⟩, rest, same⟩ := Option.map_eq_some_iff.mp lexed
          obtain ⟨rfl, rfl⟩ := Prod.mk.inj same
          exact .offered fate (inductionHypothesis rest)

/-- A scan for each byte that is left and one more find an end, since every scan moves the source
forward. -/
theorem exists_lexFrom (well : grammar.tables.WellFormed) (proper : grammar.NoEmptyToken)
    (recoverable : ∀ error ∈ errorSymbol, error < grammar.tables.count .symbol)
    (scans depth : Nat) {source : ByteSource} (inside : source.position ≤ source.size)
    (enough : source.size - source.position < scans) :
    ∃ tokens ending,
      lexFrom grammar errorSymbol scans (decide (depth ≠ 0)) source = some (tokens, ending) := by
  induction scans generalizing depth source with
  | zero => contradiction
  | succ scans inductionHypothesis =>
    by_cases more : source.position < source.size
    · obtain ⟨token, length, some, short, scanned, moved⟩ :=
        Scan.next_advances well proper recoverable .zero more
      rw [lexFrom_of_scanned (fun _ => not_atEnd_iff.mpr more) scanned, moved]
      -- Wherever lexing goes on from, fewer bytes are left.
      have onward (depth : Nat) {later : ByteSource}
          (further : Ahead { source with position := source.position + length } later) :
          ∃ tokens ending, lexFrom grammar errorSymbol scans (decide (depth ≠ 0)) later =
            Option.some (tokens, ending) := by
        have size : later.size = source.size := further.size_eq
        have forward : source.position + length ≤ later.position := further.forward
        exact inductionHypothesis depth (size ▸ further.inside) (by omega)
      cases token.fate depth with
      | dropped after => exact onward after (.refl short)
      | lineDropped => exact onward depth (Run.nextLine_ahead short)
      | stops error => exact ⟨[], .stopped error, rfl⟩
      | offered =>
        obtain ⟨tokens, ending, rest⟩ := onward depth (.refl short)
        exact ⟨token :: tokens, ending, by rw [rest]; rfl⟩
    · have done := atEnd_iff.mpr (Nat.le_of_not_lt more)
      by_cases outside : depth = 0
      · subst outside
        exact ⟨[], _, lexFrom_of_atEnd done scans⟩
      · have scanned := congrArg Scan.result (Scan.next_of_atEnd done grammar errorSymbol .zero)
        have fate : (Scan.endToken grammar (Source.line source)).fate depth =
            .stops (.unterminatedComment (Source.line source)) := if_neg outside
        rw [lexFrom_of_scanned (fun none => absurd none outside) scanned, fate]
        exact ⟨[], _, rfl⟩

/-- Bytes in memory always have a list of tokens in store. -/
theorem exists_upcoming (well : grammar.tables.WellFormed) (proper : grammar.NoEmptyToken)
    (recoverable : ∀ error ∈ errorSymbol, error < grammar.tables.count .symbol)
    (source : ByteSource) (inside : source.position ≤ source.size) (depth : Nat) :
    ∃ tokens ending, Upcoming grammar errorSymbol none depth source tokens ending := by
  obtain ⟨tokens, ending, lexed⟩ := exists_lexFrom well proper recoverable
    (source.size - source.position + 1) depth inside (Nat.lt_succ_self _)
  exact ⟨tokens, ending, upcoming_of_lexFrom lexed⟩

/-- Bytes have tokens, and these are what a source at their start has in store. -/
theorem exists_lex (well : grammar.tables.WellFormed) (proper : grammar.NoEmptyToken)
    (recoverable : ∀ error ∈ errorSymbol, error < grammar.tables.count .symbol)
    (bytes : Array UInt8) :
    ∃ tokens ending, lex grammar errorSymbol bytes = some (tokens, ending) ∧
      Upcoming grammar errorSymbol none 0 (ofBytes bytes) tokens ending := by
  have inside : (ofBytes bytes).position ≤ (ofBytes bytes).size := Nat.zero_le _
  obtain ⟨tokens, ending, lexed⟩ :=
    exists_lexFrom well proper recoverable (bytes.size + 1) 0 inside (Nat.lt_succ_self _)
  exact ⟨tokens, ending, lexed, upcoming_of_lexFrom lexed⟩

end ByteSource

end TableDriven
