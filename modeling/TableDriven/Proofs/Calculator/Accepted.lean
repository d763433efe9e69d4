import TableDriven.Calculator.Calculation
import TableDriven.Proofs.Calculator.Items
import TableDriven.Proofs.Parsing.Lexed

/-!
# The calculator accepts exactly its grammar

A text is made of expressions and of what is dropped. The tokens that it has in
store are those of an expression exactly if a calculation that does not recover
finds a tree, and without trimming that tree is the only derivation tree of the
tokens.
-/

namespace TableDriven.Calculator

/-- No token of the calculator is empty. -/
theorem noEmptyToken_grammar : grammar.NoEmptyToken := by
  intro initial looked
  obtain rfl := Except.ok.inj looked
  rfl

/-- The calculator accepts on the end of the text, which is neither pushed nor found
in the text. -/
theorem endMarked_grammar : grammar.EndMarked where
  unscanned := by
    have listed : ∀ state ∈ dfaStates, state.accept ≠ some Symbols.endOfInput := by decide
    rintro ⟨state, member, accepts⟩
    exact listed state (List.mem_toArray.mp member) accepts
  faultless := by decide
  accepts := by
    have only : ∀ state ∈ lalrStates, ∀ entry ∈ state.actions, entry.action = .accept →
        entry.symbol = Symbols.endOfInput := by
      decide
    intro state symbol listed
    obtain ⟨found, member, -, entry⟩ := Grammar.entry_of_actionOn wellFormed_tables listed
    exact only found (List.mem_toArray.mp member) _ entry rfl
  kept := by
    have none : ∀ state ∈ lalrStates, ∀ entry ∈ state.actions,
        entry.symbol = Symbols.endOfInput → entry.action.target? = none := by
      decide
    intro state target moved
    obtain ⟨found, member, -, entry, listed, same, leads⟩ :=
      Grammar.entry_of_transition wellFormed_tables moved
    have nowhere := none found (List.mem_toArray.mp member) entry listed same
    rw [nowhere] at leads
    contradiction

/-- The calculator's tables are exact. -/
theorem exact_grammar : grammar.Exact certificate :=
  ⟨wellFormed_tables, consistent_grammar, endMarked_grammar, holds_certificate⟩

/-- A calculation has a tree if its parse has. -/
theorem parse_eq_done {input : Array UInt8} {options : Options} {limit : Nat} {tree : Node} :
    parse input options limit = .done tree ↔
      (parseWith grammar input options limit).outcome = .done tree := by
  have loaded : grammar? = .ok grammar := ofTables_tables
  unfold parse
  rw [loaded]
  dsimp only
  cases (parseWith grammar input options limit).outcome <;> simp [Outcome.mapError]

/-- Every text has one list of tokens in store. A calculation that neither trims nor
recovers finds a tree in it exactly if the tokens come to an end with the text, no
error among them and no comment unclosed, and an expression can be rewritten into
their symbols. The tree is then a derivation tree of the tokens and the only one, and
the text has been read to its end. -/
theorem accepts_exactly_expressions (input : Array UInt8) :
    ∃ tokens ending,
      Upcoming grammar none none 0 (ByteSource.ofBytes input) tokens ending ∧
      (∀ others last, Upcoming grammar none none 0 (ByteSource.ofBytes input) others last →
        others = tokens ∧ last = ending) ∧
      ((∃ tree limit, parse input ⟨false, false⟩ limit = .done tree) ↔
        (∃ last, ending = .complete last) ∧
          grammar.Derives [Symbols.expr] (tokens.map fun token => token.symbol.id)) ∧
      ∀ tree limit, parse input ⟨false, false⟩ limit = .done tree →
        (∀ other, Derivation grammar [Symbols.expr] tokens [other] ↔ other = tree) ∧
          (parseWith grammar input ⟨false, false⟩ limit).source.atEnd = true := by
  have inside : (ByteSource.ofBytes input).position ≤ (ByteSource.ofBytes input).size :=
    Nat.zero_le _
  obtain ⟨tokens, ending, upcoming⟩ : ∃ tokens ending,
      Upcoming grammar none none 0 (ByteSource.ofBytes input) tokens ending :=
    ByteSource.exists_upcoming wellFormed_tables noEmptyToken_grammar (by simp) _ inside 0
  have accepted (tree : Node) :
      (∃ limit, (parseWith grammar input ⟨false, false⟩ limit).outcome = .done tree) ↔
        (∃ last, ending = .complete last) ∧ Derivation grammar [Symbols.expr] tokens [tree] :=
    Parser.parse_eq_done_iff (Parser.ofGrammar grammar) exact_grammar rfl upcoming tree
  refine ⟨tokens, ending, upcoming, fun others last => upcoming.unique, ?_, ?_⟩
  · constructor
    · rintro ⟨tree, limit, parsed⟩
      obtain ⟨complete, derived⟩ := (accepted tree).mp ⟨limit, parse_eq_done.mp parsed⟩
      exact ⟨complete, derived.derives⟩
    · rintro ⟨complete, derives⟩
      obtain ⟨forest, derived⟩ := Derivation.exists_of_derives wellFormed_tables derives
      obtain ⟨tree, rfl⟩ := List.length_eq_one_iff.mp derived.length_eq
      obtain ⟨limit, parsed⟩ := (accepted tree).mpr ⟨complete, derived⟩
      exact ⟨tree, limit, parse_eq_done.mpr parsed⟩
  · intro tree limit parsed
    have found := parse_eq_done.mp parsed
    constructor
    · exact Parser.derivation_iff_of_parse (Parser.ofGrammar grammar) exact_grammar rfl upcoming
        found
    · exact Parser.atEnd_of_parse (Parser.ofGrammar grammar) wellFormed_tables endMarked_grammar
        rfl found

/-- The text of a single number is accepted, and its tree is the only derivation tree
of its token. -/
theorem accepts_number :
    ∃ tokens ending tree,
      Upcoming grammar none none 0 (ByteSource.ofBytes #[49]) tokens ending ∧
      parse #[49] ⟨false, false⟩ 40 = .done tree ∧
      grammar.Derives [Symbols.expr] (tokens.map fun token => token.symbol.id) ∧
      (∀ other, Derivation grammar [Symbols.expr] tokens [other] ↔ other = tree) ∧
      (parseWith grammar #[49] ⟨false, false⟩ 40).source.atEnd = true := by
  obtain ⟨tokens, ending, upcoming, -, accepted, only⟩ := accepts_exactly_expressions #[49]
  have parsed : ∃ tree, parse #[49] ⟨false, false⟩ 40 = .done tree := ⟨_, rfl⟩
  obtain ⟨tree, parsed⟩ := parsed
  obtain ⟨unique, done⟩ := only tree 40 parsed
  exact ⟨tokens, ending, tree, upcoming, parsed, (accepted.mp ⟨tree, 40, parsed⟩).2, unique, done⟩

end TableDriven.Calculator
