import TableDriven.Proofs.Calculator.Outcomes
import TableDriven.Proofs.Parsing.Departure

/-!
# Recovery hides no error

A calculation that recovers may end with a tree although the text is no expression. Such a
tree has a leaf of the error terminal, and has no value. If the text is an expression the
tree is the one that is found without recovery. So a text has the same value with recovery
as without, or has none either way.
-/

namespace TableDriven

/-- A computation that goes on is done if both parts of it are. -/
theorem Outcome.andThen_eq_done {ε α β : Type} {outcome : Outcome ε α} {next : α → Except ε β}
    {result : β} :
    outcome.andThen next = .done result ↔
      ∃ value, outcome = .done value ∧ next value = .ok result := by
  unfold andThen
  cases outcome with
  | done value => cases taken : next value <;> simp [taken]
  | failed error => simp
  | broken defect => simp
  | unfinished => simp

namespace Calculator

/-- Every rule of the calculator has a body. -/
theorem bodied (id : RuleId) : grammar.isBodiless id = false := by
  unfold Grammar.isBodiless
  cases looked : grammar.rule id with
  | error defect => rfl
  | ok rule =>
    exact List.isEmpty_eq_false_iff.mpr (body_ne_nil rule (mem_of_rule looked).1)

/-- Every byte that a token of the calculator begins with is a token by itself. -/
theorem faultsSingly_grammar : grammar.FaultsSingly :=
  Grammar.faultsSingly_of_accepting wellFormed_tables rfl (by decide) (by decide)

/-- The error terminal as it is scanned. -/
theorem errorTerminal_grammar :
    grammar.errorTerminal Symbols.error = .ok ⟨Symbols.error, .terminal, errorTerminal⟩ := rfl

/-- Nothing is accepted on the error terminal. -/
theorem not_accept_error (state : LalrStateId) :
    grammar.actionOn state Symbols.error ≠ .ok (some .accept) := by
  intro listed
  have marked := endMarked_grammar.accepts state Symbols.error listed
  contradiction

/-- What a text has in store with recovery stands beside what it has without. -/
theorem beside {input : Array UInt8} {tokens others : List Token} {ending later : Ending}
    (strict : Upcoming grammar (errorSymbol false) none 0 (ByteSource.ofBytes input) tokens ending)
    (recovering : Upcoming grammar (errorSymbol true) none 0 (ByteSource.ofBytes input) others
      later) :
    Beside ⟨Symbols.error, .terminal, errorTerminal⟩ tokens ending others later :=
  strict.beside (Grammar.lexicalError_kind ofTables_tables) faultsSingly_grammar
    errorTerminal_grammar (.same none) recovering

variable {input : Array UInt8} {trim : Bool} {tree : Node}

/-- A calculation that fails finds no tree, whatever limit it is given. -/
theorem not_found_of_failed {options : Options} {fault : ParseError} {limit enough : Nat}
    (failed : parse input options limit = .failed (.parse fault)) :
    parse input options enough ≠ .done tree := by
  intro parsed
  have first : (parseWith grammar input options limit).outcome =
      Outcome.ofResult (.error (.error fault)) := parse_eq_failed.mp failed
  have second : (parseWith grammar input options enough).outcome = Outcome.ofResult (.ok tree) :=
    parse_eq_done.mp parsed
  have same := Parser.result_unique first second
  contradiction

/-- The error terminal is no token of a calculation that does not recover. -/
theorem offers_ordinary {tokens : List Token} {ending : Ending}
    (upcoming : Upcoming grammar (errorSymbol false) none 0 (ByteSource.ofBytes input) tokens
      ending) :
    (automatonOf ⟨trim, false⟩).Offers
      (fun _ node => ∀ label ∈ node.tokenLabels grammar, label.id ≠ Symbols.error) ending
      tokens where
  stored token member label inside := by
    have labels := upcoming.labels wellFormed_tables (errorSymbol_lt false) (by simp) token member
    rw [Token.leaf, Node.tokenLabels_leaf] at inside
    obtain rfl := List.mem_singleton.mp inside
    intro same
    have recovers := (labels_facts labels).2.1 same
    contradiction
  last token complete label inside := by
    subst complete
    rw [Token.leaf, Node.tokenLabels_leaf] at inside
    obtain rfl := List.mem_singleton.mp inside
    have unlisted : grammar.endSymbol.id ≠ Symbols.error := by decide
    rwa [upcoming.last_symbol]
  error error symbol line recovers := by contradiction

/-- A tree that is found without recovery has no error. -/
theorem not_hasError_of_strict {limit : Nat}
    (parsed : parse input ⟨trim, false⟩ limit = .done tree) : ¬ HasError tree := by
  have ordinary : ∀ label ∈ tree.tokenLabels grammar, label.id ≠ Symbols.error :=
    fits_of_parse (grammar.composes_labels _) offers_ordinary parsed
  rintro ⟨label, member, same⟩
  rw [← Node.tokenLabels_eq_leafLabels bodied] at member
  exact ordinary label member same

/-- What is found without recovery is found with it. -/
theorem recovering_of_strict {limit : Nat}
    (parsed : parse input ⟨trim, false⟩ limit = .done tree) :
    ∃ enough, parse input ⟨trim, true⟩ enough = .done tree := by
  obtain ⟨tokens, ending, upcoming⟩ := exists_upcoming input false
  obtain ⟨others, later, recovering⟩ := exists_upcoming input true
  have yields := (found_iff_yields ⟨trim, false⟩ upcoming tree).mp ⟨limit, parsed⟩
  rw [found_iff_yields ⟨trim, true⟩ recovering tree]
  exact yields.with_recovery rfl (beside upcoming recovering) (some Symbols.error)

/-- What is found with recovery is found without it, or without it a fault of the text is
reported and the tree has an error. -/
theorem strict_of_recovering {limit : Nat}
    (parsed : parse input ⟨trim, true⟩ limit = .done tree) :
    (∃ enough, parse input ⟨trim, false⟩ enough = .done tree) ∨
      (∃ fault : ParseError, fault.ReportsFault ∧
        ∃ enough, parse input ⟨trim, false⟩ enough = .failed (.parse fault)) ∧
      HasError tree := by
  obtain ⟨tokens, ending, upcoming⟩ := exists_upcoming input false
  obtain ⟨others, later, recovering⟩ := exists_upcoming input true
  have yields : { automatonOf ⟨trim, false⟩ with errorSymbol := some Symbols.error }.Yields later
      initialMachine others (.ok tree) :=
    (found_iff_yields ⟨trim, true⟩ recovering tree).mp ⟨limit, parsed⟩
  rcases yields.without_recovery rfl wellFormed_tables errorTerminal_grammar not_accept_error
      path_initialMachine (beside upcoming recovering) with
    strict | ⟨⟨fault, reports, strict⟩, label, member, same⟩
  · exact .inl ((found_iff_yields ⟨trim, false⟩ upcoming tree).mpr strict)
  · obtain ⟨enough, failed⟩ :=
      (parse_iff_yields ⟨trim, false⟩ upcoming (.error (.error fault))).mpr strict
    refine .inr ⟨⟨fault, reports, enough, ?_⟩, label, ?_, same⟩
    · rw [parse_eq_parseWith, failed]
      rfl
    · rwa [← Node.tokenLabels_eq_leafLabels bodied]

/-- A tree with an error that a calculation finds has no value. -/
theorem evaluate_of_hasError {options : Options} {limit : Nat}
    (parsed : parse input options limit = .done tree) (faulty : HasError tree) :
    ∃ error, evaluate tree = .error error := by
  rw [evaluate_eq_valueOf]
  exact (operand_of_parse parsed).value_of_hasError faulty

/-- Recovery hides no error, with or without trimming. A tree that is found with recovery
is the tree that is found without it, and has no error. Or there is none without it, where
a fault of the text is reported: then the tree found with recovery has an error and no
value. So a text has the same value with recovery as without it, if it has one. -/
theorem recovery_hides_no_error (input : Array UInt8) (trim : Bool) :
    (∀ tree limit, parse input ⟨trim, true⟩ limit = .done tree →
      (∀ other enough, parse input ⟨trim, false⟩ enough = .done other →
        tree = other ∧ ¬ HasError tree) ∧
      ((∀ other enough, parse input ⟨trim, false⟩ enough ≠ .done other) →
        (∃ fault : ParseError, fault.ReportsFault ∧
          ∃ enough, parse input ⟨trim, false⟩ enough = .failed (.parse fault)) ∧
        HasError tree ∧ ∃ error, evaluate tree = .error error)) ∧
    ∀ value, (∃ limit, (parse input ⟨trim, true⟩ limit).andThen evaluate = .done value) ↔
      ∃ limit, (parse input ⟨trim, false⟩ limit).andThen evaluate = .done value := by
  refine ⟨fun tree limit parsed => ⟨fun other enough strict => ?_, fun none => ?_⟩,
    fun value => ⟨?_, ?_⟩⟩
  · obtain ⟨within, again⟩ := recovering_of_strict strict
    obtain rfl := tree_unique parsed again
    exact ⟨rfl, not_hasError_of_strict strict⟩
  · rcases strict_of_recovering parsed with ⟨enough, strict⟩ | ⟨reported, faulty⟩
    · exact absurd strict (none tree enough)
    · exact ⟨reported, faulty, evaluate_of_hasError parsed faulty⟩
  · rintro ⟨limit, valued⟩
    obtain ⟨tree, parsed, evaluated⟩ := Outcome.andThen_eq_done.mp valued
    rcases strict_of_recovering parsed with ⟨enough, strict⟩ | ⟨-, faulty⟩
    · exact ⟨enough, Outcome.andThen_eq_done.mpr ⟨tree, strict, evaluated⟩⟩
    · obtain ⟨error, missing⟩ := evaluate_of_hasError parsed faulty
      rw [missing] at evaluated
      contradiction
  · rintro ⟨limit, valued⟩
    obtain ⟨tree, parsed, evaluated⟩ := Outcome.andThen_eq_done.mp valued
    obtain ⟨enough, recovered⟩ := recovering_of_strict parsed
    exact ⟨enough, Outcome.andThen_eq_done.mpr ⟨tree, recovered, evaluated⟩⟩

/-- A doubled operator has a tree with recovery. Without it the second is reported, so the
tree has an error and no value. -/
theorem recovery_reveals_doubled_operator :
    ∃ tree, parse #[49, 43, 43, 50] ⟨false, true⟩ 40 = .done tree ∧ HasError tree ∧
      ∃ error, evaluate tree = .error error := by
  have found : ∃ tree, parse #[49, 43, 43, 50] ⟨false, true⟩ 40 = .done tree := ⟨_, rfl⟩
  obtain ⟨tree, parsed⟩ := found
  have reported : ∃ fault,
      parse #[49, 43, 43, 50] ⟨false, false⟩ 40 = .failed (.parse fault) := ⟨_, rfl⟩
  obtain ⟨fault, failed⟩ := reported
  obtain ⟨-, other⟩ := (recovery_hides_no_error #[49, 43, 43, 50] false).1 tree 40 parsed
  exact ⟨tree, parsed, (other fun tree enough => not_found_of_failed failed).2⟩

end Calculator

end TableDriven
