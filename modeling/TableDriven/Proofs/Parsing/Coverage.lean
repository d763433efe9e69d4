import TableDriven.Proofs.Lexing.Tiling
import TableDriven.Proofs.Parsing.Lexed
import TableDriven.Proofs.Parsing.Reachable

/-!
# A parse accounts for every byte

A run passes bytes in two ways: it scans a token, or it drops the rest of a line. Everything else
that it does leaves its source where it is. So the distance by which a parse moves its source is
what its scans have kept, together with what was dropped with line comments.
-/

namespace TableDriven

/-- The run as a step has left it, whether or not it has ended. -/
def Progress.left {σ : Type} : Progress σ → Run σ
  | .running run => run
  | .ended _ run => run

namespace Run

variable {automaton : Automaton} {run other last : Run ByteSource} {start dropped : Nat}

/-- How many bytes the next step drops with a line comment. -/
def lineBytes (run : Run ByteSource) : Nat :=
  match run.pending with
  | none => 0
  | some token =>
    match token.fate run.commentDepth with
    | .lineDropped => lineLength run.source.left
    | _ => 0

/-- How many bytes are dropped with line comments until a run ends or the limit is reached. -/
def lineBytesWithin (automaton : Automaton) : Nat → Run ByteSource → Nat
  | 0, _ => 0
  | limit + 1, run =>
    run.lineBytes +
      match run.step automaton with
      | .running next => lineBytesWithin automaton limit next
      | .ended _ _ => 0

/-- A run that began at a place has passed what its scans have kept and what was dropped with line
comments. -/
structure Accounts (start dropped : Nat) (run : Run ByteSource) : Prop where
  inside : run.source.position ≤ run.source.size
  passed : start + run.scanned.walked + dropped = run.source.position + run.scanned.returned
  returned : run.scanned.returned ≤ run.scanned.walked

/-- Nothing else about a run matters. -/
theorem Accounts.of_same (accounts : run.Accounts start dropped) (source : other.source = run.source)
    (scanned : other.scanned = run.scanned) : other.Accounts start dropped := by
  obtain ⟨inside, passed, returned⟩ := accounts
  rw [← source] at inside passed
  rw [← scanned] at passed returned
  exact ⟨inside, passed, returned⟩

/-- Whatever a scan yields, the run is left where the scan has left the source. -/
theorem fetch_source (automaton : Automaton) (run : Run ByteSource) :
    (run.fetch automaton).left.source =
        (Scan.next automaton.grammar automaton.errorSymbol run.scanned run.source).source ∧
      (run.fetch automaton).left.scanned =
        (Scan.next automaton.grammar automaton.errorSymbol run.scanned run.source).tally := by
  unfold fetch
  dsimp only
  cases (Scan.next automaton.grammar automaton.errorSymbol run.scanned run.source).result <;>
    exact ⟨rfl, rfl⟩

/-- Whatever the automaton answers, the run is left where it was. -/
theorem offer_source (automaton : Automaton) (run : Run ByteSource) (token : Token) :
    (run.offer automaton token).left.source = run.source ∧
      (run.offer automaton token).left.scanned = run.scanned := by
  unfold offer
  dsimp only
  rcases (automaton.step run.machine token).result with halt | (_ | _ | _ | _ | _) <;>
    exact ⟨rfl, rfl⟩

/-- A scan keeps what it passes. -/
theorem Accounts.fetch (well : automaton.grammar.tables.WellFormed)
    (recoverable : ∀ error ∈ automaton.errorSymbol, error < automaton.grammar.tables.count .symbol)
    (accounts : run.Accounts start dropped) :
    (run.fetch automaton).left.Accounts start dropped := by
  obtain ⟨inside, passed, returned⟩ := accounts
  obtain ⟨source, scanned⟩ := fetch_source automaton run
  have covers := Scan.next_covers well recoverable run.scanned inside
  have forward := covers.ahead.forward
  have kept := covers.kept
  rw [covers.covered, covers.ahead.length_extract] at kept
  refine ⟨?_, ?_, ?_⟩
  · rw [source, covers.ahead.size_eq]
    exact covers.ahead.inside
  · rw [source, scanned]
    omega
  · rw [scanned]
    omega

/-- Dropping a line passes the rest of it. -/
theorem Accounts.nextLine (accounts : run.Accounts start dropped) :
    { run.drop with source := Run.nextLine run.source }.Accounts start
      (dropped + lineLength run.source.left) := by
  obtain ⟨inside, passed, returned⟩ := accounts
  have ahead := nextLine_ahead inside
  refine ⟨ahead.size_eq ▸ ahead.inside, ?_, returned⟩
  dsimp only [drop]
  rw [ByteSource.nextLine_eq_afterLine, ByteSource.afterLine]
  dsimp only
  omega

/-- Every step accounts for what it passes, the last one as well. -/
theorem Accounts.step (well : automaton.grammar.tables.WellFormed)
    (recoverable : ∀ error ∈ automaton.errorSymbol, error < automaton.grammar.tables.count .symbol)
    (accounts : run.Accounts start dropped) :
    (run.step automaton).left.Accounts start (dropped + run.lineBytes) := by
  cases held : run.pending with
  | none =>
    have none : run.lineBytes = 0 := by simp only [lineBytes, held]
    rw [none, Run.step, held]
    exact accounts.fetch well recoverable
  | some token =>
    have bytes : run.lineBytes =
        match token.fate run.commentDepth with
        | .lineDropped => lineLength run.source.left
        | _ => 0 := by
      simp only [lineBytes, held]
    rw [step_of_fate automaton held, bytes]
    cases token.fate run.commentDepth with
    | dropped depth => exact accounts.of_same rfl rfl
    | lineDropped => exact accounts.nextLine
    | stops error => exact accounts
    | offered =>
      obtain ⟨source, scanned⟩ := offer_source automaton run token
      exact accounts.of_same source scanned

/-- A run that ends has accounted for every byte. Induct on the steps. -/
theorem Accounts.finish (well : automaton.grammar.tables.WellFormed)
    (recoverable : ∀ error ∈ automaton.errorSymbol, error < automaton.grammar.tables.count .symbol)
    {limit : Nat} {result : Except Halt Node} (accounts : run.Accounts start dropped)
    (ended : run.finish automaton limit = some (result, last)) :
    last.Accounts start (dropped + run.lineBytesWithin automaton limit) := by
  induction limit generalizing run dropped with
  | zero => simp [Run.finish] at ended
  | succ limit inductionHypothesis =>
    have onward := accounts.step well recoverable
    unfold Run.finish at ended
    unfold lineBytesWithin
    cases stepped : run.step automaton with
    | ended own final =>
      rw [stepped] at ended onward
      obtain ⟨-, rfl⟩ := Prod.mk.inj (Option.some.inj ended)
      exact onward
    | running next =>
      rw [stepped] at ended onward
      dsimp only
      rw [← Nat.add_assoc]
      exact inductionHypothesis onward ended

end Run

namespace Parser

/-- How many bytes are dropped with line comments in a parse. -/
def lineBytes (parser : Parser) (source : ByteSource) (trim : Bool) (limit : Nat) : Nat :=
  match parser.begin? source with
  | .error _ => 0
  | .ok run => run.lineBytesWithin (parser.automaton trim) limit

/-- A parse that ends with a tree or an error has accounted for every byte. -/
theorem accounts_of_returned {parser : Parser} (well : parser.grammar.tables.WellFormed)
    (recoverable : ∀ error ∈ parser.errorSymbol, error < parser.grammar.tables.count .symbol)
    {source : ByteSource} (inside : source.position ≤ source.size) {trim : Bool} {limit : Nat}
    (returned : (∃ tree, (parser.parse source trim limit).outcome = .done tree) ∨
      ∃ error, (parser.parse source trim limit).outcome = .failed error) :
    ∃ last : Run ByteSource,
      (parser.parse source trim limit).parser.stats.scans = parser.stats.scans.add last.scanned ∧
      (parser.parse source trim limit).source = last.source ∧
      last.Accounts source.position (parser.lineBytes source trim limit) := by
  obtain ⟨first, result, last, begun, ended, settled⟩ := finish_of_returned returned
  have accounts : first.Accounts source.position 0 := by
    obtain ⟨start, -, rfl⟩ := begin?_eq_ok.mp begun
    exact ⟨inside, rfl, Nat.le_refl 0⟩
  have onward : last.Accounts source.position _ := accounts.finish well recoverable ended
  rw [Nat.zero_add] at onward
  rw [settled, lineBytes, begun]
  exact ⟨last, rfl, rfl, onward⟩

end Parser

/-- For tables that are accepted and an error terminal that exists, or none, and a cursor anywhere
within some bytes: scanned again and again, the bytes are taken apart by tokens that follow one
another without gaps and overlaps, and the totals have kept exactly what the tokens cover. If the
initial lexical state accepts nothing, every token covers something as long as a byte is left, the
end is reached after no more tokens than there are bytes, and from then on every scan yields the
same token and changes nothing. A parse that ends with a tree or an error moves the cursor by what
its scans have kept and what it has dropped with line comments. -/
theorem every_byte_is_accounted_for {tables : Tables} {grammar : Grammar}
    (accepted : Grammar.ofTables tables = .ok grammar) {errorSymbol : Option SymbolId}
    (recoverable : ∀ error ∈ errorSymbol, error < grammar.tables.count .symbol)
    {source : ByteSource} (inside : source.position ≤ source.size) :
    (∀ count,
      ((Scanning.after grammar errorSymbol source count).scan grammar errorSymbol).Covers
        (Scanning.after grammar errorSymbol source count).tally
        (Scanning.after grammar errorSymbol source count).source ∧
      Scanning.Tiled grammar errorSymbol source count) ∧
    (grammar.NoEmptyToken →
      (∀ count, Source.atEnd (Scanning.after grammar errorSymbol source count).source = false →
        1 ≤ ((Scanning.after grammar errorSymbol source count).scan
          grammar errorSymbol).covered.length) ∧
      ∃ count ≤ source.size, ∃ last : Scanning ByteSource, Source.atEnd last.source = true ∧
        last.scan grammar errorSymbol = ⟨last.source, last.tally, [], none,
          .ok (Scan.endToken grammar (Source.line last.source))⟩ ∧
        ∀ later, count ≤ later → Scanning.after grammar errorSymbol source later = last) ∧
    ∀ parser : Parser, parser.grammar = grammar → parser.errorSymbol = errorSymbol →
      ∀ (trim : Bool) (limit : Nat),
        (∃ tree, (parser.parse source trim limit).outcome = .done tree) ∨
            (∃ error, (parser.parse source trim limit).outcome = .failed error) →
          ∃ increase : ScanTally,
            (parser.parse source trim limit).parser.stats.scans =
              parser.stats.scans.add increase ∧
            increase.returned ≤ increase.walked ∧
            source.position + (increase.walked - increase.returned) +
                parser.lineBytes source trim limit =
              (parser.parse source trim limit).source.position := by
  have well := Grammar.wellFormed_of_ofTables accepted
  refine ⟨?_, ?_, ?_⟩
  · intro count
    have tiled := Scanning.tiled well recoverable inside count
    exact ⟨tiled.covers well recoverable, tiled⟩
  · intro proper
    obtain ⟨count, few, done⟩ := Scanning.exists_atEnd well proper recoverable inside
    refine ⟨fun _ left => Scan.covered_pos well proper recoverable _ left, count,
      Nat.le_trans few (Nat.sub_le _ _), _, done, Scan.next_of_atEnd done grammar errorSymbol _, ?_⟩
    exact fun later further => Scanning.after_of_atEnd done further
  · rintro parser rfl rfl trim limit returned
    obtain ⟨last, totals, place, accounts⟩ :=
      Parser.accounts_of_returned well recoverable inside returned
    obtain ⟨-, passed, kept⟩ := accounts
    refine ⟨last.scanned, totals, kept, ?_⟩
    rw [place]
    omega

open Sums in
/-- For `1#x`, a line end and `+2` the scans of a parse walk over seven bytes and return three of
them. Two more bytes are dropped with the comment, so the parse has passed all six. Scanned without
a parser, the first two of them are those of the first two tokens, and their end is reached after
six tokens at the latest. -/
theorem every_byte_is_accounted_for_comment :
    Grammar.ofTables tables = .ok grammar ∧
      (∀ error ∈ (Parser.recoveringBy grammar errorTerminal).errorSymbol,
        error < grammar.tables.count .symbol) ∧
      (∃ tree, ((Parser.recoveringBy grammar errorTerminal).parse
        (ByteSource.ofBytes #[49, 35, 120, 10, 43, 50]) true 40).outcome = .done tree) ∧
      ((Parser.recoveringBy grammar errorTerminal).parse
        (ByteSource.ofBytes #[49, 35, 120, 10, 43, 50]) true 40).source.position = 6 ∧
      Scanning.taken grammar (Parser.recoveringBy grammar errorTerminal).errorSymbol
        (ByteSource.ofBytes #[49, 35, 120, 10, 43, 50]) 2 = [49, 35] ∧
      ∃ count ≤ 6, Source.atEnd (Scanning.after grammar
        (Parser.recoveringBy grammar errorTerminal).errorSymbol
        (ByteSource.ofBytes #[49, 35, 120, 10, 43, 50]) count).source = true := by
  have recoverable : ∀ error ∈ (Parser.recoveringBy grammar errorTerminal).errorSymbol,
      error < grammar.tables.count .symbol := by decide
  have parsed : ∃ tree, ((Parser.recoveringBy grammar errorTerminal).parse
      (ByteSource.ofBytes #[49, 35, 120, 10, 43, 50]) true 40).outcome = .done tree := ⟨_, rfl⟩
  have totals : ((Parser.recoveringBy grammar errorTerminal).parse
      (ByteSource.ofBytes #[49, 35, 120, 10, 43, 50]) true 40).parser.stats.scans =
        ⟨4, 7, 3⟩ := by
    decide +kernel
  have dropped : (Parser.recoveringBy grammar errorTerminal).lineBytes
      (ByteSource.ofBytes #[49, 35, 120, 10, 43, 50]) true 40 = 2 := by
    decide +kernel
  have inside : (ByteSource.ofBytes #[49, 35, 120, 10, 43, 50]).position ≤
      (ByteSource.ofBytes #[49, 35, 120, 10, 43, 50]).size :=
    Nat.zero_le _
  obtain ⟨tiles, ends, accounts⟩ :=
    every_byte_is_accounted_for ofTables_tables recoverable inside
  obtain ⟨-, count, few, last, done, -, stays⟩ := ends noEmptyToken_grammar
  obtain ⟨⟨tokens, walked, returned⟩, added, -, passed⟩ :=
    accounts (Parser.recoveringBy grammar errorTerminal) rfl rfl true 40 (.inl parsed)
  refine ⟨ofTables_tables, recoverable, parsed, ?_, ?_, count, few, ?_⟩
  · rw [totals] at added
    obtain ⟨-, rfl, rfl⟩ : 4 = tokens ∧ 7 = walked ∧ 3 = returned := by
      simpa [ScanTally.add, Parser.recoveringBy, Parser.ofGrammar, ScanTally.zero] using added
    rw [dropped] at passed
    exact passed.symm
  · rw [(tiles 2).2.covered]
    decide +kernel
  · rw [stays count (Nat.le_refl _)]
    exact done

end TableDriven
