import Mathlib.Data.List.TakeWhile
import TableDriven.Proofs.Calculator.Words
import TableDriven.Proofs.Parsing.Cursor

/-!
# Layout

Blanks and line comments have no influence on a calculation. Wherever a run stands between two
tokens, also inside a comment, blanks may be put in without a line end, and where it finds the mark
of a line comment, one blank may be put in place of all that is left of the line. The text is the
same up to there, and so are the tokens: the word before the place is not continued by a blank, and
if it consists of blanks itself, it is dropped together with those that are put in.
-/

namespace TableDriven.Calculator

/-- Two texts that a calculation cannot tell apart: within some limits it ends in the same way, or
neither ends within any limit. -/
def SameOutcomes (options : Options) (text other : List UInt8) : Prop :=
  ∀ outcome, outcome ≠ .unfinished →
    ((∃ limit, parse text.toArray options limit = outcome) ↔
      ∃ limit, parse other.toArray options limit = outcome)

/-- Texts with the same tokens in store are not told apart. -/
theorem sameOutcomes_of_upcoming {options : Options} {text other : List UInt8}
    (same : Upcoming grammar (errorSymbol options.recover) none 0
        (ByteSource.ofBytes text.toArray) =
      Upcoming grammar (errorSymbol options.recover) none 0 (ByteSource.ofBytes other.toArray)) :
    SameOutcomes options text other := by
  obtain ⟨tokens, ending, upcoming⟩ := exists_upcoming text.toArray options.recover
  have again := same ▸ upcoming
  -- An outcome is that of a result, which both texts have or neither has.
  have restated (bytes : Array UInt8) (outcome : Outcome CalculatorError Node)
      (ended : outcome ≠ .unfinished) :
      (∃ limit, parse bytes options limit = outcome) ↔
        ∃ result, (Outcome.ofResult result).mapError .parse = outcome ∧
          ∃ limit, (parseWith grammar bytes options limit).outcome = Outcome.ofResult result := by
    constructor
    · rintro ⟨limit, rfl⟩
      rw [parse_eq_parseWith] at ended ⊢
      have known : (parseWith grammar bytes options limit).outcome ≠ .unfinished := by
        intro none
        rw [none] at ended
        exact ended rfl
      obtain ⟨result, found⟩ := Outcome.ne_unfinished_iff.mp known
      exact ⟨result, by rw [found], limit, found⟩
    · rintro ⟨result, rfl, limit, found⟩
      exact ⟨limit, by rw [parse_eq_parseWith, found]⟩
  intro outcome ended
  rw [restated _ outcome ended, restated _ outcome ended]
  simp only [parse_iff_yields options upcoming, parse_iff_yields options again]

section

variable {recover : Bool} {source other : ByteSource} {word rest : List UInt8} {symbol : Symbol}

/-- Where a text begins with a word, the token of that word is the next one at hand. -/
theorem Begins.upcoming_eq (begins : Begins recover word rest symbol)
    (left : source.left = word ++ rest) (depth : Nat) :
    Upcoming grammar (errorSymbol recover) none depth source =
      Upcoming grammar (errorSymbol recover) (some ⟨symbol, source.line, Text.lossy word⟩) depth
        (source.behind word) := by
  obtain ⟨scanned, moved⟩ := begins.next_of_left left
  obtain ⟨byte, own, rfl⟩ := List.exists_cons_of_ne_nil begins.ne_nil
  rw [Upcoming.none_eq (fun _ => ByteSource.atEnd_of_left left) scanned, moved]

/-- Inside a comment, a text that ends leaves the comment open. -/
theorem upcoming_of_left_nil {depth : Nat} (inside : depth ≠ 0) (left : source.left = []) :
    Upcoming grammar (errorSymbol recover) none depth source =
      fun tokens ending => tokens = [] ∧ ending = .stopped (.unterminatedComment source.line) := by
  have done := ByteSource.atEnd_iff.mpr (source.left_eq_nil.mp left)
  have scan := Scan.next_of_atEnd done grammar (errorSymbol recover) .zero
  have fate : (Scan.endToken grammar source.line).fate depth =
      .stops (.unterminatedComment source.line) := if_neg inside
  rw [Upcoming.none_eq (fun outside => absurd outside inside) (congrArg Scan.result scan), scan,
    Upcoming.hand_eq, show Source.line source = source.line from rfl, fate]

/-- Sources that go on alike have the same tokens in store. -/
theorem upcoming_of_alike {hand : Option Token} {depth : Nat} {tokens : List Token}
    {ending : Ending}
    (upcoming : Upcoming grammar (errorSymbol recover) hand depth source tokens ending)
    (alike : source.Alike other) :
    Upcoming grammar (errorSymbol recover) hand depth other tokens ending := by
  induction upcoming generalizing other with
  | @finished source done =>
    have bare := source.left_eq_nil.mpr (ByteSource.atEnd_iff.mp done)
    have again := ByteSource.atEnd_iff.mpr (other.left_eq_nil.mp (alike.left.trans bare))
    rw [show Source.line source = Source.line other from alike.line.symm]
    exact .finished again
  | @fetched depth source token tokens ending left scanned rest inductionHypothesis =>
    by_cases bare : source.left = []
    · have inside : depth ≠ 0 := by
        intro outside
        have unfinished := ByteSource.not_atEnd_iff.mp (left outside)
        exact Nat.not_le_of_lt unfinished (source.left_eq_nil.mp bare)
      have stopped : Upcoming grammar (errorSymbol recover) none depth source tokens ending :=
        .fetched left scanned rest
      rw [upcoming_of_left_nil inside bare] at stopped
      rw [upcoming_of_left_nil inside (alike.left.trans bare), alike.line]
      exact stopped
    · obtain ⟨word, behind, symbol, split, begins⟩ := exists_begins recover bare
      obtain ⟨found, moved⟩ := begins.next_of_left split
      obtain rfl := Except.ok.inj (found.symm.trans scanned)
      rw [begins.upcoming_eq (alike.left.trans split), alike.line]
      refine inductionHypothesis ?_
      rw [moved]
      exact alike.behind split
  | dropped fate rest inductionHypothesis => exact .dropped fate (inductionHypothesis alike)
  | lineDropped fate rest inductionHypothesis =>
    exact .lineDropped fate (inductionHypothesis alike.nextLine)
  | stopped fate => exact .stopped fate
  | offered fate rest inductionHypothesis => exact .offered fate (inductionHypothesis alike)

/-- Sources that go on alike have the same tokens in store, and no others. -/
theorem upcoming_eq_of_alike (alike : source.Alike other) (hand : Option Token) (depth : Nat) :
    Upcoming grammar (errorSymbol recover) hand depth source =
      Upcoming grammar (errorSymbol recover) hand depth other := by
  funext tokens ending
  exact propext ⟨fun own => upcoming_of_alike own alike,
    fun own => upcoming_of_alike own alike.symm⟩

/-- Blanks are dropped wherever they are scanned. -/
theorem fate_of_whitespace {token : Token} (spaced : token.symbol.kind = .whitespace)
    (depth : Nat) : token.fate depth = .dropped depth := by
  rw [Token.fate, spaced]
  exact ite_self _

/-- The lexical state behind a blank. -/
def blankState : DfaState := ⟨2, some Symbols.whitespace, [⟨1, 2⟩]⟩

/-- Further blanks lead nowhere else than blanks. -/
theorem spells_blanks (spaced : ∀ byte ∈ word, byte ∈ blanks) :
    grammar.Spells blankState word blankState := by
  have stays : ∀ byte ∈ blanks, grammar.firstEdge byte blankState.edges = .ok (some ⟨1, 2⟩) := by
    decide +kernel
  induction word with
  | nil => exact .nil _
  | cons byte word inductionHypothesis =>
    obtain ⟨first, others⟩ := List.forall_mem_cons.mp spaced
    exact .cons (stays byte first) rfl (inductionHypothesis others)

/-- Blanks up to a byte that is none are a word. -/
theorem begins_blanks (recover : Bool) (some : word ≠ []) (spaced : ∀ byte ∈ word, byte ∈ blanks)
    (ends : grammar.firstEdge (rest.headD 0) blankState.edges = .ok none) :
    Begins recover word rest ⟨Symbols.whitespace, .whitespace, "Whitespace"⟩ := by
  have begins : ∀ byte ∈ blanks,
      grammar.firstEdge byte Lexeme.initialState.edges = .ok (.some ⟨1, 2⟩) := by
    decide +kernel
  obtain ⟨byte, word, rfl⟩ := List.exists_cons_of_ne_nil some
  obtain ⟨first, others⟩ := List.forall_mem_cons.mp spaced
  exact .spelled some (.cons (begins byte first) rfl (spells_blanks others)) rfl rfl ends

/-- Blanks up to a byte that is none are passed over. -/
theorem upcoming_past_run (left : source.left = word ++ rest)
    (spaced : ∀ byte ∈ word, byte ∈ blanks)
    (ends : grammar.firstEdge (rest.headD 0) blankState.edges = .ok none) (depth : Nat) :
    Upcoming grammar (errorSymbol recover) none depth source =
      Upcoming grammar (errorSymbol recover) none depth (source.behind word) := by
  by_cases empty : word = []
  · rw [empty]
    rfl
  · rw [(begins_blanks recover empty spaced ends).upcoming_eq left, Upcoming.hand_eq,
      fate_of_whitespace rfl]

/-- Blanks are passed over. They may be only some of those that are scanned at once: the others
are passed over from where these end. -/
theorem upcoming_past_blanks (left : source.left = word ++ rest)
    (spaced : ∀ byte ∈ word, byte ∈ blanks) (depth : Nat) :
    Upcoming grammar (errorSymbol recover) none depth source =
      Upcoming grammar (errorSymbol recover) none depth (source.behind word) := by
  have own : blankState ∈ dfaStates := by decide
  obtain ⟨more, others, last, split, spells, ends⟩ := exists_spells own rest
  obtain ⟨same, further⟩ : last.id = 2 ∧ ∀ byte ∈ more, byte ∈ blanks :=
    spells_loop own (by decide) spells
  obtain rfl : last = blankState := by
    have listed := mem_of_spells own spells
    have only : ∀ state ∈ dfaStates, state.id = 2 → state = blankState := by decide
    exact only last listed same
  subst split
  have whole : source.left = (word ++ more) ++ others := by rw [left, List.append_assoc]
  have all : ∀ byte ∈ word ++ more, byte ∈ blanks := by
    intro byte member
    exact (List.mem_append.mp member).elim (spaced byte) (further byte)
  rw [upcoming_past_run whole all ends, ByteSource.behind_append,
    ← upcoming_past_run (ByteSource.left_advance left) further ends]

end

/-- Two sources that have the same bytes left up to where one text has been revised, and stand on
the same line. -/
structure Edited (after revised piece : List UInt8) (source other : ByteSource) : Prop where
  proper : source.Proper
  second : other.Proper
  left : source.left = piece ++ after
  along : other.left = piece ++ revised
  line : other.line = source.line

/-- How blanks may be revised: the first byte of what has been put in is a blank, and all of it is
blank and has no line end if nothing was left. -/
structure Blanked (after revised : List UInt8) : Prop where
  first : revised.headD 0 ∈ blanks
  only : after = [] → ∀ byte ∈ revised, byte ∈ blanks ∧ byte ≠ newline

section

variable {options : Options} {after revised piece word : List UInt8} {source other : ByteSource}
  {run next : Run ByteSource}

/-- Edited sources stay so behind a word before the revised part. -/
theorem Edited.behind (edited : Edited after revised (word ++ piece) source other) :
    Edited after revised piece (source.behind word) (other.behind word) := by
  have left : source.left = word ++ (piece ++ after) := by
    rw [edited.left, List.append_assoc]
  have along : other.left = word ++ (piece ++ revised) := by
    rw [edited.along, List.append_assoc]
  exact ⟨edited.proper.behind left, edited.second.behind along, ByteSource.left_advance left,
    ByteSource.left_advance along,
    by rw [edited.proper.line_behind left, edited.second.line_behind along, edited.line]⟩

/-- A run that has the same tokens in store when the text ahead is revised. -/
def Kept (options : Options) (after revised : List UInt8) (run : Run ByteSource) : Prop :=
  ∃ piece, run.source.left = piece ++ after ∧
    ∀ other, Edited after revised piece run.source other →
      Upcoming grammar (errorSymbol options.recover) run.pending run.commentDepth run.source =
        Upcoming grammar (errorSymbol options.recover) run.pending run.commentDepth other

/-- Behind the end of a text blanks may be put in. -/
theorem upcoming_eq_of_nil (blanked : Blanked after revised)
    (edited : Edited after revised [] source other) (bare : after = []) (depth : Nat) :
    Upcoming grammar (errorSymbol options.recover) none depth source =
      Upcoming grammar (errorSymbol options.recover) none depth other := by
  have along : other.left = revised ++ [] := by rw [edited.along]; simp
  have left : source.left = [] ++ [] := by rw [edited.left, bare]
  have flat : revised.count newline = 0 :=
    List.count_eq_zero.mpr fun member => (blanked.only bare _ member).2 rfl
  rw [upcoming_past_blanks along (fun byte member => (blanked.only bare byte member).1) depth]
  have alike : (source.behind []).Alike (other.behind revised) :=
    .behind_words edited.proper edited.second edited.line left along flat
  exact upcoming_eq_of_alike alike none depth

/-- A word before the revised part is still what the text begins with, or consists of blanks and
ends where that part begins. -/
theorem Begins.before_revised {symbol : Symbol}
    (begins : Begins options.recover word (piece ++ after) symbol)
    (blanked : Blanked after revised) :
    Begins options.recover word (piece ++ revised) symbol ∨
      symbol.kind = .whitespace ∧ ∀ byte ∈ word, byte ∈ blanks := by
  cases piece with
  | nil =>
    have first := blanked.first
    cases revised with
    | nil => exact absurd first (by decide)
    | cons blank others => exact begins.before_blank first others
  | cons byte piece => exact .inl (begins.congr_rest rfl)

/-- Fetching a token before the revised part keeps what is in store. -/
theorem Kept.of_fetched {token : Token} (blanked : Blanked after revised)
    (empty : run.pending = none)
    (scanned :
      (Scan.next grammar (errorSymbol options.recover) .zero run.source).result = .ok token)
    (held : next.pending = some token) (nested : next.commentDepth = run.commentDepth)
    (moved :
      next.source = (Scan.next grammar (errorSymbol options.recover) .zero run.source).source)
    (kept : Kept options after revised next) : Kept options after revised run := by
  obtain ⟨piece, left, same⟩ := kept
  by_cases bare : run.source.left = []
  · -- At the end nothing is left of either piece.
    have done := ByteSource.atEnd_iff.mpr (run.source.left_eq_nil.mp bare)
    rw [Scan.next_of_atEnd done] at moved
    rw [moved, bare] at left
    obtain ⟨rfl, rfl⟩ := List.append_eq_nil_iff.mp left.symm
    refine ⟨[], bare, fun other edited => ?_⟩
    rw [empty]
    exact upcoming_eq_of_nil blanked edited rfl _
  · obtain ⟨word, rest, symbol, split, begins⟩ := exists_begins options.recover bare
    obtain ⟨found, behind⟩ := begins.next_of_left split
    obtain rfl := Except.ok.inj (found.symm.trans scanned)
    rw [behind] at moved
    obtain rfl : rest = piece ++ after := by
      rw [← left, moved, ByteSource.left_advance split]
    refine ⟨word ++ piece, by rw [split, List.append_assoc], fun other edited => ?_⟩
    have onward := same (other.behind word) (moved ▸ edited.behind)
    rw [held, nested, moved] at onward
    have along : other.left = word ++ (piece ++ revised) := by
      rw [edited.along, List.append_assoc]
    rw [empty]
    rcases begins.before_revised blanked with again | ⟨spaced, blank⟩
    · rw [begins.upcoming_eq split, again.upcoming_eq along, edited.line]
      exact onward
    · rw [Upcoming.hand_eq, Upcoming.hand_eq, fate_of_whitespace spaced] at onward
      rw [upcoming_past_blanks split blank, upcoming_past_blanks along blank]
      exact onward

/-- Dropping a line before the revised part keeps what is in store. If the line does not end
before that part, nothing is left of either text. -/
theorem Edited.nextLine (blanked : Blanked after revised)
    (edited : Edited after revised piece source other) {behind : List UInt8}
    (left : (Run.nextLine source).left = behind ++ after) :
    Edited after revised behind (Run.nextLine source) (Run.nextLine other) ∨
      (Run.nextLine source).Alike (Run.nextLine other) := by
  by_cases early : newline ∈ piece
  · obtain ⟨own, rest, rfl, flat⟩ := List.eq_append_cons_of_mem early
    have split : source.left = own ++ newline :: (rest ++ after) := by
      rw [edited.left, List.append_assoc, List.cons_append]
    have along : other.left = own ++ newline :: (rest ++ revised) := by
      rw [edited.along, List.append_assoc, List.cons_append]
    have pieces : own ++ newline :: rest = (own ++ [newline]) ++ rest := by
      rw [List.append_assoc]
      rfl
    have passed : source.left = (own ++ [newline]) ++ (rest ++ after) := by
      rw [edited.left, pieces, List.append_assoc]
    rw [ByteSource.nextLine_of_ended split flat] at left ⊢
    rw [ByteSource.nextLine_of_ended along flat]
    rw [ByteSource.left_advance passed] at left
    obtain rfl := List.append_cancel_right left
    rw [pieces] at edited
    exact .inl edited.behind
  · by_cases late : newline ∈ after
    · -- The line would end within what is left behind it.
      obtain ⟨own, rest, split, flat⟩ := List.eq_append_cons_of_mem late
      have clear : newline ∉ piece ++ own := by simp [early, flat]
      have ended : source.left = (piece ++ own) ++ newline :: rest := by
        rw [edited.left, split, List.append_assoc]
      have passed : source.left = (piece ++ own ++ [newline]) ++ rest := by
        rw [ended]
        simp
      rw [ByteSource.nextLine_of_ended ended clear, ByteSource.left_advance passed] at left
      have lengths := congrArg List.length left
      rw [split] at lengths
      simp only [List.length_append, List.length_cons] at lengths
      omega
    · have whole : source.left = source.left ++ [] := (List.append_nil _).symm
      have clear : newline ∉ source.left := by rw [edited.left]; simp [early, late]
      rw [ByteSource.nextLine_of_flat clear, ByteSource.left_advance whole] at left
      obtain ⟨rfl, rfl⟩ := List.append_eq_nil_iff.mp left.symm
      have flat : newline ∉ revised := fun member => (blanked.only rfl _ member).2 rfl
      have other_clear : newline ∉ other.left := by rw [edited.along]; simp [early, flat]
      refine .inr ?_
      rw [ByteSource.nextLine_of_flat clear, ByteSource.nextLine_of_flat other_clear]
      refine ByteSource.Alike.behind_words edited.proper edited.second edited.line whole
        (List.append_nil _).symm ?_
      rw [List.count_eq_zero.mpr clear, List.count_eq_zero.mpr other_clear]

/-- A step before the revised part keeps what is in store. -/
theorem Kept.of_step (blanked : Blanked after revised) (proper : run.source.Proper)
    (stepped : run.step (automatonOf options) = .running next)
    (kept : Kept options after revised next) : Kept options after revised run := by
  cases Run.stepped_of_step stepped with
  | fetched token next empty scanned still held nested moved =>
    exact .of_fetched blanked empty scanned held nested moved kept
  | dropped token depth held fate =>
    obtain ⟨piece, left, same⟩ := kept
    refine ⟨piece, left, fun other edited => ?_⟩
    rw [held, Upcoming.hand_eq, Upcoming.hand_eq, fate]
    exact same other edited
  | lineDropped token held fate =>
    obtain ⟨behind, left, same⟩ := kept
    obtain ⟨passed, whole⟩ := (Run.nextLine_ahead proper.inside).exists_left
    rw [show (Run.nextLine run.source).left = behind ++ after from left,
      ← List.append_assoc] at whole
    refine ⟨passed ++ behind, whole, fun other edited => ?_⟩
    rw [held, Upcoming.hand_eq, Upcoming.hand_eq, fate]
    rcases edited.nextLine blanked left with again | alike
    · exact same _ again
    · exact upcoming_eq_of_alike alike none _
  | pushed token again after signal held fate advance pushed =>
    obtain ⟨piece, left, same⟩ := kept
    refine ⟨piece, left, fun other edited => ?_⟩
    rw [held, Upcoming.offered_eq_iff fate]
    exact same other edited
  | again token again machine held fate advance =>
    obtain ⟨piece, left, same⟩ := kept
    have kept := Automaton.fate_of_step fate advance
    refine ⟨piece, left, fun other edited => ?_⟩
    rw [held, Upcoming.offered_eq_iff fate, ← Upcoming.offered_eq_iff kept]
    exact same other edited

/-- A run keeps what is in store if the run that it gets to does. -/
theorem Kept.of_reaches {first last : Run ByteSource} (blanked : Blanked after revised)
    (proper : first.source.Proper) (reached : Run.Reaches (automatonOf options) first last)
    (kept : Kept options after revised last) : Kept options after revised first := by
  induction reached with
  | refl => exact kept
  | tail reached stepped inductionHypothesis =>
    have ahead := Run.ahead_of_reaches wellFormed_tables (errorSymbol_lt options.recover)
      proper.inside reached
    exact inductionHypothesis (.of_step blanked (ahead.proper proper) stepped kept)

/-- Revising a text where a run stands makes no difference if what is in store there is kept. -/
theorem sameOutcomes_of_kept {text : List UInt8} {last : Run ByteSource}
    (reached : Run.Reaches (automatonOf options) (firstRun text.toArray) last)
    (blanked : Blanked last.source.left revised)
    (kept : Kept options last.source.left revised last) :
    SameOutcomes options text (text.take last.source.position ++ revised) := by
  have proper := ByteSource.proper_ofBytes text.toArray
  have ahead : (ByteSource.ofBytes text.toArray).Ahead last.source :=
    Run.ahead_of_reaches wellFormed_tables (errorSymbol_lt options.recover) proper.inside reached
  obtain ⟨piece, left, same⟩ := kept.of_reaches blanked proper reached
  have whole : text = piece ++ last.source.left := left
  have behind : last.source.left = text.drop last.source.position := by
    rw [ahead.same]
    rfl
  have front : piece = text.take last.source.position := by
    have again :
        piece ++ last.source.left = text.take last.source.position ++ last.source.left := by
      rw [← whole, behind, List.take_append_drop]
    exact List.append_cancel_right again
  rw [← front]
  refine sameOutcomes_of_upcoming (same (ByteSource.ofBytes (piece ++ revised).toArray) ?_)
  exact ⟨proper, ByteSource.proper_ofBytes _, whole, rfl,
    (ByteSource.line_ofBytes _).trans (ByteSource.line_ofBytes _).symm⟩

end

section

variable {options : Options} {run next : Run ByteSource} {source other : ByteSource}
  {inserted : List UInt8}

/-- What can be put in between two tokens: blanks, but at least one and no line end. -/
structure Inserted (inserted : List UInt8) : Prop where
  some : inserted ≠ []
  spaced : ∀ byte ∈ inserted, byte ∈ [32, 9, 13]

/-- What is put in is blank. -/
theorem Inserted.blank (put : Inserted inserted) : ∀ byte ∈ inserted, byte ∈ blanks := by
  have listed : ∀ byte ∈ [32, 9, 13], byte ∈ blanks := by decide +kernel
  exact fun byte member => listed byte (put.spaced byte member)

/-- What is put in does not end a line. -/
theorem Inserted.flat (put : Inserted inserted) : newline ∉ inserted := by
  intro member
  exact absurd (put.spaced newline member) (by decide)

/-- Putting blanks in is a revision. -/
theorem Inserted.blanked (put : Inserted inserted) (after : List UInt8) :
    Blanked after (inserted ++ after) where
  first := by
    obtain ⟨byte, others, rfl⟩ := List.exists_cons_of_ne_nil put.some
    exact put.blank byte List.mem_cons_self
  only := by
    rintro rfl byte member
    rw [List.append_nil] at member
    exact ⟨put.blank byte member, fun ends => put.flat (ends ▸ member)⟩

/-- Where blanks are put in, what is in store stays the same, whatever is at hand. -/
theorem Inserted.kept (put : Inserted inserted) (options : Options) (run : Run ByteSource) :
    Kept options run.source.left (inserted ++ run.source.left) run := by
  refine ⟨[], rfl, fun other edited => ?_⟩
  have along : other.left = inserted ++ run.source.left := edited.along
  have nothing : run.source.left = [] ++ run.source.left := rfl
  have alike : (run.source.behind []).Alike (other.behind inserted) :=
    .behind_words edited.proper edited.second edited.line nothing along
      (List.count_eq_zero.mpr put.flat)
  have scanned (depth : Nat) :
      Upcoming grammar (errorSymbol options.recover) none depth run.source =
        Upcoming grammar (errorSymbol options.recover) none depth other := by
    rw [upcoming_past_blanks along put.blank depth]
    exact upcoming_eq_of_alike alike none depth
  cases run.pending with
  | none => exact scanned run.commentDepth
  | some token =>
    cases fate : token.fate run.commentDepth with
    | dropped depth =>
      rw [Upcoming.hand_eq, Upcoming.hand_eq, fate]
      exact scanned depth
    | lineDropped =>
      rw [Upcoming.hand_eq, Upcoming.hand_eq, fate]
      have same := alike.nextLine
      rw [ByteSource.nextLine_behind along put.flat] at same
      exact upcoming_eq_of_alike same none run.commentDepth
    | stops error => rw [Upcoming.hand_eq, Upcoming.hand_eq, fate]
    | offered =>
      rw [Upcoming.offered_eq_iff fate]
      exact scanned run.commentDepth

/-- What is left behind the line of a line comment, with the line end, and one blank in place of the
line. -/
def withoutLine (left : List UInt8) : List UInt8 := 32 :: left.dropWhile (· != newline)

/-- The line is left out up to its end. -/
theorem withoutLine_of_ended {own rest : List UInt8} (flat : newline ∉ own) :
    withoutLine (own ++ newline :: rest) = [32, newline] ++ rest := by
  have differs : ∀ byte ∈ own, (byte != newline) = true := by
    intro byte member
    exact bne_iff_ne.mpr fun ends => flat (ends ▸ member)
  rw [withoutLine, List.dropWhile_append_of_pos differs,
    List.dropWhile_cons_of_neg (by decide)]
  rfl

/-- A line without an end is left out altogether. -/
theorem withoutLine_of_flat {left : List UInt8} (flat : newline ∉ left) :
    withoutLine left = [32] ++ [] := by
  have differs : ∀ byte ∈ left, (byte != newline) = true := by
    intro byte member
    exact bne_iff_ne.mpr fun ends => flat (ends ▸ member)
  rw [withoutLine, List.dropWhile_eq_nil_iff.mpr differs]
  rfl

/-- Where the next line begins, the same is in store as ahead of a blank in place of the line. -/
theorem upcoming_withoutLine
    (edited : Edited source.left (withoutLine source.left) [] source other) :
    Upcoming grammar (errorSymbol options.recover) none 0 (Run.nextLine source) =
      Upcoming grammar (errorSymbol options.recover) none 0 other := by
  have along : other.left = withoutLine source.left := edited.along
  by_cases ended : newline ∈ source.left
  · obtain ⟨own, rest, split, clear⟩ := List.eq_append_cons_of_mem ended
    have passed : source.left = (own ++ [newline]) ++ rest := by
      rw [split, List.append_assoc]
      rfl
    rw [split, withoutLine_of_ended clear] at along
    rw [ByteSource.nextLine_of_ended split clear, upcoming_past_blanks along (by decide +kernel)]
    refine upcoming_eq_of_alike ?_ none 0
    refine .behind_words edited.proper edited.second edited.line passed along ?_
    rw [List.count_append, List.count_eq_zero.mpr clear]
    rfl
  · have whole : source.left = source.left ++ [] := (List.append_nil _).symm
    rw [withoutLine_of_flat ended] at along
    rw [ByteSource.nextLine_of_flat ended, upcoming_past_blanks along (by decide +kernel)]
    refine upcoming_eq_of_alike ?_ none 0
    refine .behind_words edited.proper edited.second edited.line whole along ?_
    rw [List.count_eq_zero.mpr ended]
    rfl

/-- The rest of a line comment may be replaced by a blank. -/
theorem kept_withoutLine {token : Token} (empty : run.pending = none)
    (outside : run.commentDepth = 0)
    (stepped : run.step (automatonOf options) = .running next)
    (held : next.pending = some token) (marked : token.symbol.kind = .commentLine) :
    Blanked run.source.left (withoutLine run.source.left) ∧
      Kept options run.source.left (withoutLine run.source.left) run := by
  cases Run.stepped_of_step stepped with
  | fetched own next _ scanned still found nested moved =>
    obtain rfl := Option.some.inj (found.symm.trans held)
    have more : run.source.left ≠ [] := by
      intro bare
      have done := ByteSource.atEnd_iff.mpr (run.source.left_eq_nil.mp bare)
      have ended := congrArg Scan.result
        (Scan.next_of_atEnd done grammar (errorSymbol options.recover) .zero)
      rw [← Except.ok.inj (ended.symm.trans scanned)] at marked
      contradiction
    obtain ⟨word, rest, symbol, left, begins⟩ := exists_begins options.recover more
    obtain ⟨same, -⟩ := begins.next_of_left left
    obtain rfl := Except.ok.inj (same.symm.trans scanned)
    refine ⟨⟨List.mem_cons_self, fun bare => absurd bare more⟩, [], rfl, fun other edited => ?_⟩
    have flat : newline ∉ word := by
      rw [begins.eq_of_commentLine marked]
      decide
    have fate : (⟨symbol, run.source.line, Text.lossy word⟩ : Token).fate 0 = .lineDropped := by
      rw [Token.fate, if_pos rfl, show symbol.kind = .commentLine from marked]
    rw [empty, outside, begins.upcoming_eq left, Upcoming.hand_eq, fate]
    simp only
    rw [ByteSource.nextLine_behind left flat]
    exact upcoming_withoutLine edited
  | dropped token depth present => rw [present] at empty; contradiction
  | lineDropped token present => rw [present] at empty; contradiction
  | pushed token again after signal present => rw [present] at empty; contradiction
  | again token again after present => rw [present] at empty; contradiction

end

/-- The layout of a text makes no difference to a calculation. Wherever its run stands when a token
is fetched or has just been fetched, blanks may be put in; and where it meets the mark of a line
comment, a blank may take the place of the rest of the line. The calculation ends in the same way,
with the same tree or the same error and the same lines. -/
theorem layout_makes_no_difference {text : List UInt8} {options : Options}
    {first run : Run ByteSource}
    (begun : (parserFor grammar options.recover).begin? (ByteSource.ofBytes text.toArray) =
      .ok first)
    (reached : Run.Reaches ((parserFor grammar options.recover).automaton options.trim)
      first run) :
    (∀ inserted, inserted ≠ [] → (∀ byte ∈ inserted, byte ∈ [32, 9, 13]) →
      SameOutcomes options text
        (text.take run.source.position ++ (inserted ++ text.drop run.source.position))) ∧
    ∀ next token, run.pending = none → run.commentDepth = 0 →
      run.step ((parserFor grammar options.recover).automaton options.trim) = .running next →
      next.pending = some token → token.symbol.kind = .commentLine →
      SameOutcomes options text
        (text.take run.source.position ++ withoutLine (text.drop run.source.position)) := by
  rw [begin?_parserFor] at begun
  obtain rfl : firstRun text.toArray = first := Except.ok.inj begun
  rw [automaton_parserFor] at reached ⊢
  have proper := ByteSource.proper_ofBytes text.toArray
  have ahead : (ByteSource.ofBytes text.toArray).Ahead run.source :=
    Run.ahead_of_reaches wellFormed_tables (errorSymbol_lt options.recover) proper.inside reached
  have left : run.source.left = text.drop run.source.position := by
    rw [ahead.same]
    rfl
  rw [← left]
  refine ⟨fun inserted some spaced => ?_, fun next token empty outside stepped held marked => ?_⟩
  · have put : Inserted inserted := ⟨some, spaced⟩
    exact sameOutcomes_of_kept reached (put.blanked _) (put.kept options run)
  · obtain ⟨blanked, kept⟩ := kept_withoutLine empty outside stepped held marked
    exact sameOutcomes_of_kept reached blanked kept

/-- Blanks behind a number, and a blank in place of a comment behind it, make no difference. -/
theorem layout_of_commented_number :
    SameOutcomes ⟨true, false⟩ [49, 47, 47, 120, 10] [49, 32, 9, 47, 47, 120, 10] ∧
      SameOutcomes ⟨true, false⟩ [49, 47, 47, 120, 10] [49, 32, 10] := by
  have begun : (parserFor grammar false).begin? (ByteSource.ofBytes #[49, 47, 47, 120, 10]) =
      .ok (firstRun #[49, 47, 47, 120, 10]) := rfl
  -- The number has been fetched and pushed.
  obtain ⟨inserting, replacing⟩ := @layout_makes_no_difference [49, 47, 47, 120, 10]
    ⟨true, false⟩ _ _ begun (.head rfl (.head rfl .refl))
  exact ⟨inserting [32, 9] (by decide) (by decide +kernel), replacing _ _ rfl rfl rfl rfl rfl⟩

end TableDriven.Calculator
