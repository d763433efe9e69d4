import TableDriven.Proofs.Calculator.Outcomes
import TableDriven.Proofs.Lexing.Spelling
import TableDriven.Proofs.Source.Lines
import TableDriven.Proofs.Text.Ascii

/-!
# Texts of lexemes

Numbers, operators and parentheses with one blank between them have the tokens in store that
they look like, all of them on the first line: no lexeme goes on with a blank, and no blank with
a lexeme.
-/

namespace TableDriven.Calculator

/-- How an operator is written. -/
def Operator.sign : Operator → String
  | .add => "+"
  | .subtract => "-"
  | .multiply => "*"
  | .divide => "/"

/-- A piece of the text of an expression. -/
inductive Lexeme where
  | number (value : Nat)
  | sign (operator : Operator)
  | openParen
  | closeParen

namespace Lexeme

/-- How a lexeme is written. -/
def text : Lexeme → String
  | number value => toString value
  | sign operator => operator.sign
  | openParen => "("
  | closeParen => ")"

/-- The symbol of a lexeme. -/
def symbol : Lexeme → Symbol
  | number _ => ⟨Symbols.number, .terminal, "Num"⟩
  | sign .add => ⟨Symbols.plus, .terminal, "+"⟩
  | sign .subtract => ⟨Symbols.minus, .terminal, "-"⟩
  | sign .multiply => ⟨Symbols.times, .terminal, "*"⟩
  | sign .divide => ⟨Symbols.divide, .terminal, "/"⟩
  | openParen => ⟨Symbols.openParen, .terminal, "("⟩
  | closeParen => ⟨Symbols.closeParen, .terminal, ")"⟩

/-- The token of a lexeme on the first line. -/
def token (lexeme : Lexeme) : Token := ⟨lexeme.symbol, 1, lexeme.text⟩

/-- Lexemes with one blank between them. -/
def join (lexemes : List Lexeme) : String := " ".intercalate (lexemes.map text)

/-- The characters of a lexeme. -/
def characters : Lexeme → List Char
  | number value => Nat.toDigits 10 value
  | sign .add => ['+']
  | sign .subtract => ['-']
  | sign .multiply => ['*']
  | sign .divide => ['/']
  | openParen => ['(']
  | closeParen => [')']

/-- A lexeme is written with its characters. -/
theorem toList_text (lexeme : Lexeme) : lexeme.text.toList = lexeme.characters := by
  cases lexeme with
  | number value => rw [text, Nat.toString_eq_ofList_toDigits, String.toList_ofList, characters]
  | sign operator => cases operator <;> rfl
  | openParen => rfl
  | closeParen => rfl

/-- No lexeme is empty. -/
theorem characters_ne_nil (lexeme : Lexeme) : lexeme.characters ≠ [] := by
  cases lexeme with
  | number value => exact Nat.toDigits_ne_nil
  | sign operator => cases operator <;> exact List.cons_ne_nil _ _
  | openParen => exact List.cons_ne_nil _ _
  | closeParen => exact List.cons_ne_nil _ _

/-- The codes of the decimal digits. -/
def digitCodes : List Nat := List.range' 48 10

/-- The codes of the characters of lexemes. -/
def codes : List Nat := [40, 41, 42, 43, 45, 47] ++ digitCodes

/-- The characters of a number are digits. -/
theorem digits_of_number {value : Nat} :
    ∀ character ∈ (number value).characters, character.toNat ∈ digitCodes := by
  intro character member
  have decimal : character.isDigit = true :=
    Nat.isDigit_of_mem_toDigits (by decide) (by decide) member
  obtain ⟨low, high⟩ : '0' ≤ character ∧ character ≤ '9' := by
    simpa [Char.isDigit, Char.le_def] using decimal
  have above : 48 ≤ character.toNat := low
  have below : character.toNat ≤ 57 := high
  exact List.mem_range'_1.mpr ⟨above, by omega⟩

/-- The characters of lexemes have these codes. -/
theorem mem_codes (lexeme : Lexeme) :
    ∀ character ∈ lexeme.characters, character.toNat ∈ codes := by
  have single {own : Char} (listed : own.toNat ∈ codes) :
      ∀ character ∈ [own], character.toNat ∈ codes := by
    intro character member
    rwa [List.mem_singleton.mp member]
  cases lexeme with
  | number value =>
    intro character member
    exact List.mem_append_right _ (digits_of_number character member)
  | sign operator =>
    cases operator with
    | add => exact single (by decide)
    | subtract => exact single (by decide)
    | multiply => exact single (by decide)
    | divide => exact single (by decide)
  | openParen => exact single (by decide)
  | closeParen => exact single (by decide)

/-- Lexemes are written in ASCII. -/
theorem ascii (lexeme : Lexeme) : ∀ character ∈ lexeme.text.toList, Text.IsAscii character := by
  have all : ∀ code ∈ codes, code ≤ 127 := by decide
  rw [toList_text]
  intro character member
  exact all _ (lexeme.mem_codes character member)

/-- The bytes of a lexeme are the codes of its characters. -/
theorem bytes_text (lexeme : Lexeme) :
    Text.bytes lexeme.text =
      lexeme.characters.map fun character => UInt8.ofNat character.toNat := by
  rw [Text.bytes_of_ascii lexeme.ascii, toList_text]

/-- The symbols of lexemes are those of the calculator. -/
theorem named (lexeme : Lexeme) : grammar.symbol lexeme.symbol.id = .ok lexeme.symbol := by
  cases lexeme with
  | number value => rfl
  | sign operator => cases operator <;> rfl
  | openParen => rfl
  | closeParen => rfl

/-- Lexemes are offered to the automaton. -/
theorem fate (lexeme : Lexeme) : lexeme.token.fate 0 = .offered := by
  cases lexeme with
  | number value => rfl
  | sign operator => cases operator <;> rfl
  | openParen => rfl
  | closeParen => rfl

/-- Further digits lead nowhere else than digits. -/
theorem spells_digits {own : List Char}
    (decimal : ∀ character ∈ own, character.toNat ∈ digitCodes) :
    grammar.Spells ⟨1, some Symbols.number, [⟨0, 1⟩]⟩
      (own.map fun character => UInt8.ofNat character.toNat)
      ⟨1, some Symbols.number, [⟨0, 1⟩]⟩ := by
  have stays : ∀ code ∈ digitCodes,
      grammar.firstEdge (UInt8.ofNat code) [⟨0, 1⟩] = .ok (some ⟨0, 1⟩) := by
    decide
  induction own with
  | nil => exact .nil _
  | cons digit own inductionHypothesis =>
    refine .cons (stays _ (decimal digit List.mem_cons_self)) rfl ?_
    exact inductionHypothesis fun other member => decimal other (List.mem_cons_of_mem _ member)

/-- The initial lexical state. -/
def initialState : DfaState :=
  ⟨0, none, [⟨0, 1⟩, ⟨1, 2⟩, ⟨2, 3⟩, ⟨3, 4⟩, ⟨4, 5⟩, ⟨5, 6⟩, ⟨6, 7⟩, ⟨7, 8⟩]⟩

/-- A lexeme is spelled, and ends before a blank and at the end of the text. -/
theorem exists_spells (lexeme : Lexeme) :
    ∃ last, grammar.Spells initialState (Text.bytes lexeme.text) last ∧
      last.accept = some lexeme.symbol.id ∧ grammar.firstEdge 32 last.edges = .ok none ∧
      grammar.firstEdge 0 last.edges = .ok none := by
  rw [bytes_text]
  cases lexeme with
  | number value =>
    have begins : ∀ code ∈ digitCodes,
        grammar.firstEdge (UInt8.ofNat code) initialState.edges = .ok (some ⟨0, 1⟩) := by
      decide
    refine ⟨⟨1, some Symbols.number, [⟨0, 1⟩]⟩, ?_, rfl, rfl, rfl⟩
    have decimal := @digits_of_number value
    have some := characters_ne_nil (number value)
    generalize (number value).characters = own at decimal some
    cases own with
    | nil => exact absurd rfl some
    | cons digit others =>
      refine .cons (begins _ (decimal digit List.mem_cons_self)) rfl (spells_digits ?_)
      exact fun other member => decimal other (List.mem_cons_of_mem _ member)
  | sign operator =>
    cases operator with
    | add => exact ⟨⟨3, some Symbols.plus, []⟩, .cons rfl rfl (.nil _), rfl, rfl, rfl⟩
    | subtract => exact ⟨⟨4, some Symbols.minus, []⟩, .cons rfl rfl (.nil _), rfl, rfl, rfl⟩
    | multiply =>
      exact ⟨⟨5, some Symbols.times, [⟨5, 9⟩]⟩, .cons rfl rfl (.nil _), rfl, rfl, rfl⟩
    | divide =>
      exact ⟨⟨6, some Symbols.divide, [⟨4, 10⟩, ⟨5, 11⟩]⟩, .cons rfl rfl (.nil _), rfl, rfl, rfl⟩
  | openParen => exact ⟨⟨7, some Symbols.openParen, []⟩, .cons rfl rfl (.nil _), rfl, rfl, rfl⟩
  | closeParen => exact ⟨⟨8, some Symbols.closeParen, []⟩, .cons rfl rfl (.nil _), rfl, rfl, rfl⟩

/-- Behind a lexeme come a blank and the others. -/
theorem bytes_join (lexeme next : Lexeme) (others : List Lexeme) :
    Text.bytes (join (lexeme :: next :: others)) =
      Text.bytes lexeme.text ++ 32 :: Text.bytes (join (next :: others)) := by
  rw [join, List.map_cons, List.map_cons, String.intercalate_cons_cons, Text.bytes_append,
    Text.bytes_append, List.append_assoc]
  rfl

/-- The bytes of lexemes begin with a byte that does not go on with a blank. -/
theorem exists_bytes_join (lexeme : Lexeme) (lexemes : List Lexeme) :
    ∃ byte rest, Text.bytes (join (lexeme :: lexemes)) = byte :: rest ∧
      grammar.firstEdge byte [⟨1, 2⟩] = .ok none := by
  have visible : ∀ code ∈ codes, grammar.firstEdge (UInt8.ofNat code) [⟨1, 2⟩] = .ok none := by
    decide
  have own : ∃ byte rest, Text.bytes lexeme.text = byte :: rest ∧
      grammar.firstEdge byte [⟨1, 2⟩] = .ok none := by
    rw [bytes_text]
    have listed := lexeme.mem_codes
    have some := lexeme.characters_ne_nil
    generalize lexeme.characters = written at listed some
    cases written with
    | nil => exact absurd rfl some
    | cons character others =>
      exact ⟨_, _, rfl, visible _ (listed character List.mem_cons_self)⟩
  obtain ⟨byte, rest, first, unrelated⟩ := own
  cases lexemes with
  | nil => exact ⟨byte, rest, first, unrelated⟩
  | cons next others =>
    rw [bytes_join, first]
    exact ⟨byte, _, rfl, unrelated⟩

section

variable {source : ByteSource} {rest : List UInt8}

/-- The token of a lexeme is scanned if a blank or the end of the text is behind it. -/
theorem next_of_left (lexeme : Lexeme) (line : Source.line source = 1)
    (left : source.left = Text.bytes lexeme.text ++ rest)
    (ends : rest.headD 0 = 32 ∨ rest.headD 0 = 0) :
    (Scan.next grammar none .zero source).result = .ok lexeme.token ∧
      (Scan.next grammar none .zero source).source =
        { source with position := source.position + (Text.bytes lexeme.text).length } := by
  obtain ⟨last, spells, accepts, blank, nothing⟩ := lexeme.exists_spells
  have edgeless : grammar.firstEdge (rest.headD 0) last.edges = .ok none := by
    rcases ends with same | same
    · rw [same]
      exact blank
    · rw [same]
      exact nothing
  obtain ⟨byte, others, written, -⟩ := exists_bytes_join lexeme []
  have some : Text.bytes lexeme.text ≠ [] := by
    rw [show lexeme.text = join [lexeme] from rfl, written]
    exact List.cons_ne_nil byte others
  have scan := Scan.next_of_spells rfl spells accepts lexeme.named some left edgeless none .zero
  rw [line, Text.lossy_bytes lexeme.ascii] at scan
  exact scan

/-- A blank is scanned as such if no other one is behind it. -/
theorem next_of_blank (left : source.left = 32 :: rest)
    (unrelated : grammar.firstEdge (rest.headD 0) [⟨1, 2⟩] = .ok none) :
    ∃ token, (Scan.next grammar none .zero source).result = .ok token ∧
      token.fate 0 = .dropped 0 ∧
      (Scan.next grammar none .zero source).source =
        { source with position := source.position + 1 } := by
  have spells : grammar.Spells initialState [32] ⟨2, some Symbols.whitespace, [⟨1, 2⟩]⟩ :=
    .cons rfl rfl (.nil _)
  have named : grammar.symbol Symbols.whitespace =
      .ok ⟨Symbols.whitespace, .whitespace, "Whitespace"⟩ := rfl
  obtain ⟨scanned, moved⟩ := Scan.next_of_spells rfl spells rfl named (List.cons_ne_nil _ _)
    left unrelated none .zero
  exact ⟨_, scanned, rfl, moved⟩

/-- Lexemes with blanks between them have their tokens in store. Induct on the lexemes: each is
scanned up to the blank behind it, and the blank up to the next. -/
theorem upcoming_of_left (lexemes : List Lexeme)
    (made : source.newlines = newlineOffsets source.bytes)
    (flat : newline ∉ source.bytes.toList) (left : source.left = Text.bytes (join lexemes)) :
    ∃ last, Upcoming grammar none none 0 source (lexemes.map token) (.complete last) := by
  induction lexemes generalizing source with
  | nil =>
    have done := ByteSource.atEnd_iff.mpr (source.left_eq_nil.mp left)
    exact ⟨_, .finished done⟩
  | cons lexeme lexemes inductionHypothesis =>
    obtain ⟨byte, others, begins, -⟩ := exists_bytes_join lexeme lexemes
    have unfinished := ByteSource.atEnd_of_left (left.trans begins)
    have line : Source.line source = 1 := by
      have lines := ByteSource.line_eq made
      rwa [List.count_eq_zero.mpr fun member => flat (List.mem_of_mem_take member)] at lines
    cases lexemes with
    | nil =>
      have own : source.left = Text.bytes lexeme.text ++ [] := by
        rw [List.append_nil]
        exact left
      obtain ⟨scanned, moved⟩ := next_of_left lexeme line own (.inr rfl)
      obtain ⟨last, behind⟩ := @inductionHypothesis
        { source with position := source.position + (Text.bytes lexeme.text).length } made flat
        (ByteSource.left_advance own)
      rw [← moved] at behind
      exact ⟨last, .fetched (fun _ => unfinished) scanned (.offered lexeme.fate behind)⟩
    | cons next lexemes =>
      rw [bytes_join] at left
      obtain ⟨scanned, moved⟩ := next_of_left lexeme line left (.inl rfl)
      have after := ByteSource.left_advance left
      obtain ⟨first, rest, follows, unrelated⟩ := exists_bytes_join next lexemes
      have visible : grammar.firstEdge ((Text.bytes (join (next :: lexemes))).headD 0) [⟨1, 2⟩] =
          .ok none := by
        rw [follows]
        exact unrelated
      -- The blank is a token of its own, which is dropped.
      obtain ⟨blank, between, dropped, onward⟩ := next_of_blank after visible
      obtain ⟨last, behind⟩ := @inductionHypothesis
        { source with position := source.position + (Text.bytes lexeme.text).length + 1 } made flat
        (@ByteSource.left_advance _ [32] _ after)
      rw [← onward] at behind
      have skipped := Upcoming.fetched (fun _ => ByteSource.atEnd_of_left after) between
        (.dropped dropped behind)
      rw [← moved] at skipped
      exact ⟨last, .fetched (fun _ => unfinished) scanned (.offered lexeme.fate skipped)⟩

/-- No lexeme has a line end. -/
theorem newline_notMem_bytes (lexeme : Lexeme) : newline ∉ Text.bytes lexeme.text := by
  have single : ∀ code ∈ codes, UInt8.ofNat code ≠ newline := by decide
  rw [bytes_text]
  intro member
  obtain ⟨character, written, same⟩ := List.mem_map.mp member
  exact single _ (lexeme.mem_codes character written) same

/-- Lexemes with blanks between them have no line end. -/
theorem newline_notMem_join (lexemes : List Lexeme) : newline ∉ Text.bytes (join lexemes) := by
  induction lexemes with
  | nil => decide
  | cons lexeme lexemes inductionHypothesis =>
    cases lexemes with
    | nil => exact lexeme.newline_notMem_bytes
    | cons next lexemes =>
      rw [bytes_join]
      intro member
      rcases List.mem_append.mp member with own | behind
      · exact lexeme.newline_notMem_bytes own
      · rcases List.mem_cons.mp behind with blank | later
        · exact absurd blank (by decide)
        · exact inductionHypothesis later

/-- The text of lexemes has their tokens in store. -/
theorem upcoming_join (lexemes : List Lexeme) :
    ∃ last, Upcoming grammar none none 0 (ByteSource.ofBytes (join lexemes).toUTF8.data)
      (lexemes.map token) (.complete last) :=
  upcoming_of_left lexemes rfl (newline_notMem_join lexemes) rfl

end

end Lexeme

end TableDriven.Calculator
