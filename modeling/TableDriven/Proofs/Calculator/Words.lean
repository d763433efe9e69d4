import TableDriven.Proofs.Calculator.Lexemes
import TableDriven.Proofs.Lexing.Unrecognized
import TableDriven.Proofs.Parsing.Alike

/-!
# How a text begins

A text that is not empty begins with a word and goes on with the rest. The word is spelled by the
lexical automaton and cannot be continued with the first byte of the rest, or it is one byte that
no token begins with. What the next token is and how far it reaches depends on nothing else, so of
the rest only the first byte matters. Most words consist of one byte, of digits or of blanks; the
others are the marks around comments.
-/

namespace TableDriven

/-- The next token is a byte that no token begins with. -/
theorem Scan.next_of_unknown {grammar : Grammar} {initial : DfaState}
    {errorSymbol : Option SymbolId} {symbol : Symbol} {source : ByteSource} {byte : UInt8}
    {rest : List UInt8} (begins : grammar.dfaState grammar.tables.dfaInitial = .ok initial)
    (proper : initial.accept = none) (left : source.left = byte :: rest)
    (unknown : grammar.firstEdge byte initial.edges = .ok none)
    (classified : classify grammar errorSymbol 1 none = .ok (symbol, 1)) (tally : ScanTally) :
    (next grammar errorSymbol tally source).result =
        .ok ⟨symbol, Source.line source, Text.lossy [byte]⟩ ∧
      (next grammar errorSymbol tally source).source = source.behind [byte] := by
  have split : source.left = [byte] ++ rest := left
  have inside := ByteSource.inside_of_left split (List.cons_ne_nil byte [])
  have unfinished := ne_true_of_eq_false (ByteSource.atEnd_of_left left)
  have given := Walk.nextByte_of_next? (ByteSource.next?_of_left left) false
  have walked : Walk.ofSource grammar source = ⟨source.behind [byte], [], _⟩ :=
    (.start initial begins : Walk.Stage grammar source _ _ _ _ _).ofSource_of_stops
      (.stuck given unknown)
  have ahead : source.Ahead (source.behind [byte]) := ⟨rfl, Nat.le_succ _, inside⟩
  have read := reread_eq_ok ahead inside
  rw [ByteSource.extract_of_left split] at read
  have starts : Source.cursor source = source.position := rfl
  have one : Source.cursor (source.behind [byte]) - source.position = 1 :=
    Nat.add_sub_cancel_left ..
  unfold next
  rw [if_neg unfinished]
  simp only [walked, Walk.recognized, proper, starts, one, classified]
  rw [show reread (source.behind [byte]) source.position 1 = _ from read]
  exact ⟨rfl, rfl⟩

namespace Calculator

/-- Blanks, tabs, returns and line ends. -/
def blanks : List UInt8 := [32, 9, 13, 10]

/-- The bytes on the edges into a lexical state. -/
def bytesInto : DfaStateId → List UInt8
  | 1 => [48, 49, 50, 51, 52, 53, 54, 55, 56, 57]
  | 2 => blanks
  | 3 => [43]
  | 4 => [45]
  | 5 => [42]
  | 6 => [47]
  | 7 => [40]
  | 8 => [41]
  | 9 => [47]
  | 10 => [42]
  | 11 => [47]
  | _ => []

/-- Every edge is followed on a byte that leads into its target. -/
theorem mem_bytesInto {state : DfaState} {byte : UInt8} {edge : Edge} (member : state ∈ dfaStates)
    (first : grammar.firstEdge byte state.edges = .ok (some edge)) :
    byte ∈ bytesInto edge.target := by
  have all : ∀ code : Fin 256, ∀ state ∈ dfaStates, ∀ edge ∈ state.edges,
      grammar.firstEdge (.ofFin code) state.edges = .ok (some edge) →
      UInt8.ofFin code ∈ bytesInto edge.target := by
    decide +kernel
  exact all byte.toFin state member edge (Grammar.firstEdge_mem first) first

/-- A lexical state that is looked up is in the table under its number. -/
theorem mem_of_dfaState {id : DfaStateId} {state : DfaState}
    (looked : grammar.dfaState id = .ok state) : state ∈ dfaStates ∧ state.id = id := by
  have found := (Grammar.entry_eq_ok _ _ _ _).mp looked
  exact ⟨List.mem_toArray.mp (Array.mem_of_getElem? found),
    wellFormed_tables.dfaStatesPlaced id state found⟩

/-- The initial lexical state is in the table. -/
theorem initialState_mem : Lexeme.initialState ∈ dfaStates := List.mem_cons_self

/-- The bytes that go on from a state other than those in which a mark begins lead back into that
state. -/
theorem spells_loop {state last : DfaState} {word : List UInt8} (member : state ∈ dfaStates)
    (plain : state.id ∉ [0, 5, 6]) (spells : grammar.Spells state word last) :
    last.id = state.id ∧ ∀ byte ∈ word, byte ∈ bytesInto state.id := by
  have loops : ∀ state ∈ dfaStates, state.id ∉ [0, 5, 6] → ∀ edge ∈ state.edges,
      edge.target = state.id := by decide
  induction spells with
  | nil state => exact ⟨rfl, by simp⟩
  | @cons state next last byte word edge first looked others inductionHypothesis =>
    have back := loops state member plain edge (Grammar.firstEdge_mem first)
    have own := mem_bytesInto member first
    obtain ⟨listed, same⟩ := mem_of_dfaState looked
    rw [back] at same own
    obtain ⟨again, along⟩ := inductionHypothesis listed (same ▸ plain)
    rw [same] at again along
    exact ⟨again, List.forall_mem_cons.mpr ⟨own, along⟩⟩

/-- Nothing goes on from a state without edges. -/
theorem spells_edgeless {state last : DfaState} {word : List UInt8} (edgeless : state.edges = [])
    (spells : grammar.Spells state word last) : word = [] ∧ last = state := by
  cases spells with
  | nil => exact ⟨rfl, rfl⟩
  | cons first =>
    rw [edgeless] at first
    simp [Grammar.firstEdge] at first

/-- The words with a star or a slash, and the states that spelling them leads to. -/
def marks : List (List UInt8 × DfaStateId) :=
  [([42], 5), ([47], 6), ([42, 47], 9), ([47, 42], 10), ([47, 47], 11)]

/-- The lexical states in which a word ends that is no such mark. -/
def plainStates : List DfaStateId := [1, 2, 3, 4, 7, 8]

/-- A word is a mark with a star or a slash, or all its bytes lead into the state that spelling it
leads to. -/
theorem spells_initial {last : DfaState} {word : List UInt8} (some : word ≠ [])
    (spells : grammar.Spells Lexeme.initialState word last) :
    (word, last.id) ∈ marks ∨
      last.id ∈ plainStates ∧ ∀ byte ∈ word, byte ∈ bytesInto last.id := by
  cases spells with
  | nil => exact absurd rfl some
  | @cons _ next _ byte word edge first looked others =>
    have own := mem_bytesInto initialState_mem first
    obtain ⟨listed, same⟩ := mem_of_dfaState looked
    have inward : ∀ edge ∈ Lexeme.initialState.edges, edge.target ∈ [5, 6] ++ plainStates := by
      decide
    have outer := inward edge (Grammar.firstEdge_mem first)
    rw [← same] at own outer
    by_cases mark : next.id ∈ [5, 6]
    · have single : ∀ state ∈ [5, 6], ∀ byte ∈ bytesInto state, ([byte], state) ∈ marks := by
        decide +kernel
      have double : ∀ state ∈ dfaStates, state.id ∈ [5, 6] → ∀ byte ∈ bytesInto state.id,
          ∀ edge ∈ state.edges, ∀ second ∈ bytesInto edge.target,
          ([byte, second], edge.target) ∈ marks ∧
            ∀ state ∈ dfaStates, state.id = edge.target → state.edges = [] := by decide +kernel
      cases others with
      | nil => exact .inl (single _ mark byte own)
      | @cons _ final _ second word edge again led others =>
        obtain ⟨placed, target⟩ := mem_of_dfaState led
        obtain ⟨marked, edgeless⟩ := double next listed mark byte own edge
          (Grammar.firstEdge_mem again) second (mem_bytesInto listed again)
        obtain ⟨rfl, rfl⟩ := spells_edgeless (edgeless final placed target) others
        exact .inl (target ▸ marked)
    · have plain := (List.mem_append.mp outer).resolve_left mark
      have elsewhere : ∀ state ∈ plainStates, state ∉ [0, 5, 6] := by decide
      obtain ⟨back, along⟩ := spells_loop listed (elsewhere next.id plain) others
      rw [back]
      exact .inr ⟨plain, List.forall_mem_cons.mpr ⟨own, along⟩⟩

/-- Spelling leads to states of the table. -/
theorem mem_of_spells {state last : DfaState} {word : List UInt8} (member : state ∈ dfaStates)
    (spells : grammar.Spells state word last) : last ∈ dfaStates := by
  induction spells with
  | nil => exact member
  | cons first looked others inductionHypothesis =>
    exact inductionHypothesis (mem_of_dfaState looked).1

/-- From every state some word can be spelled that the rest cannot continue. Induct on the bytes:
the first one is spelled or begins the rest. -/
theorem exists_spells {state : DfaState} (member : state ∈ dfaStates) (bytes : List UInt8) :
    ∃ word rest last, bytes = word ++ rest ∧ grammar.Spells state word last ∧
      grammar.firstEdge (rest.headD 0) last.edges = .ok none := by
  induction bytes generalizing state with
  | nil =>
    have unended : ∀ state ∈ dfaStates, grammar.firstEdge 0 state.edges = .ok none := by decide
    exact ⟨[], [], state, rfl, .nil state, unended state member⟩
  | cons byte bytes inductionHypothesis =>
    have leads := (wellFormed_tables.dfaStates state (List.mem_toArray.mpr member)).edges
    obtain ⟨found, first, among⟩ := Grammar.firstEdge_eq_ok byte fun edge listed =>
      (leads edge listed).1
    cases found with
    | none => exact ⟨[], byte :: bytes, state, rfl, .nil state, first⟩
    | some edge =>
      obtain ⟨next, looked, listed⟩ := Grammar.dfaState_of_lt (leads edge (among edge rfl)).2
      obtain ⟨word, rest, last, split, spells, edgeless⟩ :=
        inductionHypothesis (List.mem_toArray.mp listed)
      exact ⟨byte :: word, rest, last, congrArg _ split, .cons first looked spells, edgeless⟩

/-- The symbol of a byte that no token begins with. -/
def faultSymbol (recover : Bool) : Symbol :=
  if recover then ⟨Symbols.error, .terminal, errorTerminal⟩ else grammar.lexicalError

/-- The word that a text begins with, the rest behind it, and the symbol of the word. -/
inductive Begins (recover : Bool) : List UInt8 → List UInt8 → Symbol → Prop where
  | spelled {word rest : List UInt8} {last : DfaState} {id : SymbolId} {symbol : Symbol}
      (some : word ≠ []) (spells : grammar.Spells Lexeme.initialState word last)
      (accepts : last.accept = .some id) (named : grammar.symbol id = .ok symbol)
      (edgeless : grammar.firstEdge (rest.headD 0) last.edges = .ok none) :
      Begins recover word rest symbol
  | faulty {byte : UInt8} {rest : List UInt8}
      (unknown : grammar.firstEdge byte Lexeme.initialState.edges = .ok none) :
      Begins recover [byte] rest (faultSymbol recover)

/-- Every text that is not empty begins with a word. -/
theorem exists_begins (recover : Bool) {bytes : List UInt8} (some : bytes ≠ []) :
    ∃ word rest symbol, bytes = word ++ rest ∧ Begins recover word rest symbol := by
  obtain ⟨word, rest, last, split, spells, edgeless⟩ := exists_spells initialState_mem bytes
  by_cases empty : word = []
  · obtain ⟨byte, bytes, rfl⟩ := List.exists_cons_of_ne_nil some
    obtain rfl : byte :: bytes = rest := by rw [split, empty, List.nil_append]
    subst empty
    cases spells
    exact ⟨[byte], bytes, faultSymbol recover, rfl, .faulty edgeless⟩
  · have accepting : ∀ state ∈ dfaStates, state.id ≠ 0 → state.accept.isSome := by decide
    have listed := mem_of_spells initialState_mem spells
    have outer : last.id ≠ 0 := by
      have inward : (∀ entry ∈ marks, entry.2 ≠ 0) ∧ 0 ∉ plainStates := by decide
      intro zero
      rcases spells_initial empty spells with marked | ⟨plain, -⟩
      · exact inward.1 _ marked zero
      · exact inward.2 (zero ▸ plain)
    obtain ⟨id, accepts⟩ := Option.isSome_iff_exists.mp (accepting last listed outer)
    obtain ⟨symbol, named⟩ := Grammar.symbol_of_lt
      ((wellFormed_tables.dfaStates last (List.mem_toArray.mpr listed)).accept id accepts)
    exact ⟨word, rest, symbol, split, .spelled empty spells accepts named edgeless⟩

namespace Begins

variable {recover : Bool} {word rest others : List UInt8} {symbol : Symbol} {source : ByteSource}

/-- A text does not begin with the empty word. -/
theorem ne_nil (begins : Begins recover word rest symbol) : word ≠ [] := by
  cases begins with
  | spelled some => exact some
  | faulty => exact List.cons_ne_nil _ _

/-- The next token is the word that the bytes left begin with. -/
theorem next_of_left (begins : Begins recover word rest symbol)
    (left : source.left = word ++ rest) :
    (Scan.next grammar (errorSymbol recover) .zero source).result =
        .ok ⟨symbol, source.line, Text.lossy word⟩ ∧
      (Scan.next grammar (errorSymbol recover) .zero source).source = source.behind word := by
  cases begins with
  | spelled some spells accepts named edgeless =>
    exact Scan.next_of_spells rfl spells accepts named some left edgeless _ .zero
  | faulty unknown =>
    have classified : Scan.classify grammar (errorSymbol recover) 1 none =
        .ok (faultSymbol recover, 1) := by
      cases recover <;> rfl
    exact Scan.next_of_unknown rfl rfl left unknown classified .zero

/-- Of the rest only the first byte matters. -/
theorem congr_rest (begins : Begins recover word rest symbol)
    (same : others.headD 0 = rest.headD 0) : Begins recover word others symbol := by
  cases begins with
  | spelled some spells accepts named edgeless =>
    exact .spelled some spells accepts named (same ▸ edgeless)
  | faulty unknown => exact .faulty unknown

/-- What the symbol of a word tells about the state in which it is accepted. -/
theorem kind_facts {last : DfaState} {id : SymbolId} (listed : last ∈ dfaStates)
    (accepts : last.accept = some id) (named : grammar.symbol id = .ok symbol) :
    symbol.kind ≠ .endOfInput ∧ (symbol.kind = .commentEnd → last.id = 9) ∧
      (symbol.kind = .commentLine → last.id = 11) ∧ (last.id = 2 → symbol.kind = .whitespace) := by
  have facts : ∀ state ∈ dfaStates, ∀ id ∈ state.accept, ∀ symbol ∈ symbols[id]?,
      symbol.kind ≠ .endOfInput ∧ (symbol.kind = .commentEnd → state.id = 9) ∧
        (symbol.kind = .commentLine → state.id = 11) ∧
        (state.id = 2 → symbol.kind = .whitespace) := by
    decide
  refine facts last listed id accepts symbol ?_
  have found := (Grammar.entry_eq_ok _ _ _ _).mp named
  rwa [show grammar.tables.symbols = symbols.toArray from rfl, List.getElem?_toArray] at found

/-- No word marks the end of the text. -/
theorem kind_ne_endOfInput (begins : Begins recover word rest symbol) :
    symbol.kind ≠ .endOfInput := by
  cases begins with
  | spelled some spells accepts named =>
    exact (kind_facts (mem_of_spells initialState_mem spells) accepts named).1
  | faulty => cases recover <;> decide

/-- A word that is spelled up to a state of marks only is the mark of that state. -/
theorem eq_of_mark {last : DfaState} {id : DfaStateId} {mark : List UInt8} (some : word ≠ [])
    (spells : grammar.Spells Lexeme.initialState word last) (same : last.id = id)
    (marked : id ∉ plainStates)
    (only : ∀ entry ∈ marks, entry.2 = id → entry.1 = mark) : word = mark := by
  subst same
  rcases spells_initial some spells with listed | ⟨plain, -⟩
  · exact only _ listed rfl
  · exact absurd plain marked

/-- What closes a comment is a star and a slash. -/
theorem eq_of_commentEnd (begins : Begins recover word rest symbol)
    (closing : symbol.kind = .commentEnd) : word = [42, 47] := by
  cases begins with
  | spelled some spells accepts named =>
    have facts := kind_facts (mem_of_spells initialState_mem spells) accepts named
    exact eq_of_mark some spells (facts.2.1 closing) (by decide) (by decide)
  | faulty => cases recover <;> contradiction

/-- The mark of a line comment is two slashes. -/
theorem eq_of_commentLine (begins : Begins recover word rest symbol)
    (marked : symbol.kind = .commentLine) : word = [47, 47] := by
  cases begins with
  | spelled some spells accepts named =>
    have facts := kind_facts (mem_of_spells initialState_mem spells) accepts named
    exact eq_of_mark some spells (facts.2.2.1 marked) (by decide) (by decide)
  | faulty => cases recover <;> contradiction

/-- Ahead of a blank a word is still the next token, unless it consists of blanks. -/
theorem before_blank (begins : Begins recover word rest symbol) {blank : UInt8}
    (member : blank ∈ blanks) (others : List UInt8) :
    Begins recover word (blank :: others) symbol ∨
      symbol.kind = .whitespace ∧ ∀ byte ∈ word, byte ∈ blanks := by
  cases begins with
  | @spelled _ _ last id _ some spells accepts named =>
    have listed := mem_of_spells initialState_mem spells
    have ends : ∀ state ∈ dfaStates, state.id ∉ [0, 2] → ∀ blank ∈ blanks,
        grammar.firstEdge blank state.edges = .ok none := by decide +kernel
    have inward : (∀ entry ∈ marks, entry.2 ∉ [0, 2]) ∧ 0 ∉ plainStates := by decide
    rcases spells_initial some spells with marked | ⟨plain, along⟩
    · have outer := inward.1 _ marked
      exact .inl (.spelled some spells accepts named (ends last listed outer blank member))
    · by_cases spaced : last.id = 2
      · rw [spaced] at along
        exact .inr ⟨(kind_facts listed accepts named).2.2.2 spaced, along⟩
      · have outer : last.id ∉ [0, 2] := by
          intro inner
          rcases List.mem_cons.mp inner with zero | two
          · exact inward.2 (zero ▸ plain)
          · exact spaced (List.mem_singleton.mp two)
        exact .inl (.spelled some spells accepts named (ends last listed outer blank member))
  | faulty unknown => exact .inl (.faulty unknown)

end Begins

end Calculator

end TableDriven
