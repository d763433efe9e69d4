import TableDriven.Proofs.Calculator.Nesting

/-!
# When a calculation comes to an end

Without recovery every calculation comes to an end. With recovery every token but the end of
the text is shifted, as it is or as the error terminal, so a calculation gets to where the
text ends inside a comment or where its end is offered to the automaton. From there it ends
with a tree if all parentheses on the stack are closed, and otherwise it goes on for ever.
-/

namespace TableDriven.Calculator

/-- The end of the text is offered to the automaton. -/
def OffersEnd (run : Run ByteSource) : Prop :=
  ∃ token, run.pending = some token ∧ token.fate run.commentDepth = .offered ∧
    token.symbol.id = Symbols.endOfInput

/-- Without recovery every calculation comes to an end. -/
theorem strict_ends (input : Array UInt8) (trim : Bool) :
    ∃ limit, parse input ⟨trim, false⟩ limit ≠ .unfinished := by
  obtain ⟨tokens, ending, upcoming⟩ := exists_upcoming input false
  have ends : ∀ last, ending = .complete last → last.symbol.id = grammar.endSymbol.id := by
    rintro last rfl
    exact upcoming.last_symbol
  have yielded : ∃ result,
      (automatonOf ⟨trim, false⟩).Yields ending initialMachine tokens result :=
    Automaton.exists_yields settling_grammar rfl ends tokens path_initialMachine
  obtain ⟨result, yields⟩ := yielded
  obtain ⟨limit, ended⟩ := (parse_iff_yields ⟨trim, false⟩ upcoming result).mpr yields
  refine ⟨limit, ?_⟩
  rw [parse_eq_parseWith, ended]
  rcases result with (error | defect) | tree
  · nofun
  · nofun
  · nofun

section

variable {input : Array UInt8} {trim : Bool} {run first : Run ByteSource}

/-- The stack of a calculation is a path. -/
theorem path_of_reaches
    (reached : Run.Reaches (automatonOf ⟨trim, true⟩) (firstRun input) run) :
    StackPath grammar run.machine.state run.machine.stack := by
  rw [← automaton_parserFor] at reached
  exact StackPath.of_reaches (begin?_parserFor true (ByteSource.ofBytes input)) reached

/-- A token that is offered and is not the end of the text is shifted after finitely many
steps. -/
theorem takes_of_offered {token : Token}
    (reached : Run.Reaches (automatonOf ⟨trim, true⟩) (firstRun input) run)
    (held : run.pending = some token) (fate : token.fate run.commentDepth = .offered)
    (unended : token.symbol.id ≠ Symbols.endOfInput) :
    ∃ own after, Automaton.Stands grammar Symbols.error token own ∧
      (automatonOf ⟨trim, true⟩).Takes run.machine token after own ∧
      Run.Reaches (automatonOf ⟨trim, true⟩) run { run.drop with machine := after } := by
  have terminal := not_head_of_reaches rfl reached token held
  obtain ⟨own, after, stands, takes⟩ := (recovers_automatonOf trim).exists_takes settling_grammar
    (path_of_reaches reached) unended fun state target listed => terminal (head_of_goto listed)
  exact ⟨own, after, stands, takes, Run.reaches_of_takes takes held fate rfl⟩

/-- A calculation that recovers gets to where the text ends inside a comment or its end is
offered. -/
theorem unterminated_or_offersEnd (input : Array UInt8) (trim : Bool) :
    (∃ line limit, parse input ⟨trim, true⟩ limit = .failed (.parse (.unterminatedComment line))) ∨
      ∃ run, Run.Reaches (automatonOf ⟨trim, true⟩) (firstRun input) run ∧ OffersEnd run := by
  obtain ⟨tokens, ending, upcoming⟩ := exists_upcoming input true
  have ordinary : ∀ token ∈ tokens, token.symbol.id ≠ grammar.endSymbol.id ∧
      ∀ state target,
        grammar.actionOn state token.symbol.id ≠ .ok (some (.goto target)) := by
    intro token member
    have labels := upcoming.labels wellFormed_tables (errorSymbol_lt true) (by simp) token member
    refine ⟨endMarked_grammar.unmarked wellFormed_tables (by decide) labels, ?_⟩
    intro state target listed
    exact (labels_facts labels).1 (head_of_goto listed)
  have stored : Run.InStore (automatonOf ⟨trim, true⟩) (firstRun input) tokens ending := upcoming
  have path : StackPath grammar (firstRun input).machine.state (firstRun input).machine.stack :=
    path_initialMachine
  obtain ⟨ready, reached, stands⟩ := Run.reaches_last (recovers_automatonOf trim) settling_grammar
    path stored ordinary
  cases stands with
  | finishing last held fate rest =>
    exact .inr ⟨ready, reached, last, held, fate, upcoming.last_symbol⟩
  | stopping token error held fate =>
    have stopped := Run.step_of_fate (automatonOf ⟨trim, true⟩) held
    rw [fate] at stopped
    obtain ⟨limit, ended⟩ := (parse_iff_endsWith input ⟨trim, true⟩ (.error (.error error))).mpr
      ⟨ready, ready, reached, stopped⟩
    rcases upcoming.stopped_cases wellFormed_tables (errorSymbol_lt true) (by simp)
      with ⟨line, rfl⟩ | ⟨line, text, symbol, rfl, faulty, labels⟩
    · refine .inl ⟨line, limit, ?_⟩
      rw [parse_eq_parseWith, ended]
      rfl
    · have strict : true = false := (labels_facts labels).2.2 faulty
      exact absurd strict (by decide)

/-- Where the end of the text is offered, nothing but the end is in store. -/
theorem inStore_of_offersEnd
    (reached : Run.Reaches (automatonOf ⟨trim, true⟩) (firstRun input) run)
    (offers : OffersEnd run) :
    ∃ token last, token.symbol.id = Symbols.endOfInput ∧ last.symbol.id = Symbols.endOfInput ∧
      Run.InStore (automatonOf ⟨trim, true⟩) run [token] (.complete last) := by
  obtain ⟨token, held, fate, ends⟩ := offers
  have ordinary : errorSymbol true ≠ some grammar.endSymbol.id := by decide
  have done : Source.atEnd run.source = true :=
    Run.atEnd_of_reaches wellFormed_tables endMarked_grammar (errorSymbol_lt true) ordinary rfl
      reached token held ends
  refine ⟨token, Scan.endToken grammar (Source.line run.source), ends, rfl, ?_⟩
  refine .offering held fate ?_
  unfold Run.InStore
  rw [show run.drop.commentDepth = 0 from Token.depth_of_offered fate]
  exact .finished done

/-- If all parentheses are closed when the end of the text is offered, the calculation ends with
a tree. -/
theorem endsWith_tree_of_closed
    (reached : Run.Reaches (automatonOf ⟨trim, true⟩) (firstRun input) run)
    (offers : OffersEnd run) (closed : nesting run.machine.stack.labels = 0) :
    ∃ tree, Run.EndsWith (automatonOf ⟨trim, true⟩) run (.ok tree) := by
  obtain ⟨token, last, own, ends, stored⟩ := inStore_of_offersEnd reached offers
  obtain ⟨tree, yields⟩ := yields_of_closed own ends (path_of_reaches reached) closed
  exact ⟨tree, (Run.endsWith_iff_yields stored).mpr yields⟩

/-- If the calculation ends from where the end of the text is offered, all parentheses are
closed there and it ends with a tree. -/
theorem closed_of_finish
    (reached : Run.Reaches (automatonOf ⟨trim, true⟩) (firstRun input) run)
    (offers : OffersEnd run) {limit : Nat} {result : Except Halt Node} {final : Run ByteSource}
    (ended : run.finish (automatonOf ⟨trim, true⟩) limit = some (result, final)) :
    nesting run.machine.stack.labels = 0 ∧ ∃ tree, result = .ok tree := by
  obtain ⟨before, further, stopped⟩ := Run.reaches_of_finish ended
  have ends : Run.EndsWith (automatonOf ⟨trim, true⟩) run result :=
    ⟨before, final, further, stopped⟩
  have closed : nesting run.machine.stack.labels = 0 := by
    obtain ⟨token, last, own, endless, stored⟩ := inStore_of_offersEnd reached offers
    have yields := (Run.endsWith_iff_yields stored).mp ends
    have path := path_of_reaches reached
    have nonneg := nesting_nonneg path.labelled
    by_contra unclosed
    refine not_yields_of_unclosed endless yields path ?_ (by omega)
    intro other member
    obtain rfl := List.mem_singleton.mp member
    exact .inl own
  obtain ⟨tree, accepted⟩ := endsWith_tree_of_closed reached offers closed
  exact ⟨closed, tree, accepted.unique ends⟩

end

/-- Every calculation without recovery comes to an end. In one with recovery, every token but
the end of the text that is offered to the automaton is shifted after finitely many steps, as
it is or as the error terminal. So the text ends inside a comment, or there is a first time
that its end is offered. From there the calculation ends, and then with a tree, exactly if as
many parentheses are closed as are open on the stack; otherwise more are open, and no number
of steps ends it. -/
theorem parse_ends_unless_unclosed (input : Array UInt8) (trim : Bool) :
    (∃ limit, parse input ⟨trim, false⟩ limit ≠ .unfinished) ∧
    (parserFor grammar true).begin? (ByteSource.ofBytes input) = .ok (firstRun input) ∧
    (∀ run token, Run.Reaches (automatonOf ⟨trim, true⟩) (firstRun input) run →
      run.pending = some token → token.fate run.commentDepth = .offered →
      token.symbol.id ≠ Symbols.endOfInput →
      ∃ own after, Automaton.Stands grammar Symbols.error token own ∧
        (automatonOf ⟨trim, true⟩).Takes run.machine token after own ∧
        Run.Reaches (automatonOf ⟨trim, true⟩) run { run.drop with machine := after }) ∧
    ((∃ line limit,
        parse input ⟨trim, true⟩ limit = .failed (.parse (.unterminatedComment line))) ∨
      ∃ run, Run.ReachesFirst (automatonOf ⟨trim, true⟩) OffersEnd (firstRun input) run) ∧
    ∀ run, Run.ReachesFirst (automatonOf ⟨trim, true⟩) OffersEnd (firstRun input) run →
      ((∃ limit result last, run.finish (automatonOf ⟨trim, true⟩) limit = some (result, last)) ↔
        run.machine.stack.labels.count Symbols.closeParen =
          run.machine.stack.labels.count Symbols.openParen) ∧
      (∀ limit result last, run.finish (automatonOf ⟨trim, true⟩) limit = some (result, last) →
        ∃ tree, result = .ok tree) ∧
      (run.machine.stack.labels.count Symbols.closeParen ≠
          run.machine.stack.labels.count Symbols.openParen →
        run.machine.stack.labels.count Symbols.closeParen <
            run.machine.stack.labels.count Symbols.openParen ∧
          ∀ limit, run.finish (automatonOf ⟨trim, true⟩) limit = none) := by
  refine ⟨strict_ends input trim, begin?_parserFor true _, ?_, ?_, ?_⟩
  · intro run token reached held fate unended
    exact takes_of_offered reached held fate unended
  · rcases unterminated_or_offersEnd input trim with unterminated | ⟨run, reached, offers⟩
    · exact .inl unterminated
    · exact .inr (Run.exists_reachesFirst reached offers)
  · rintro run ⟨reached, offers, -⟩
    have nonneg := nesting_nonneg (path_of_reaches reached).labelled
    refine ⟨⟨?_, ?_⟩, ?_, ?_⟩
    · rintro ⟨limit, result, last, ended⟩
      have closed := (closed_of_finish reached offers ended).1
      unfold nesting at closed
      omega
    · intro same
      have closed : nesting run.machine.stack.labels = 0 := by
        unfold nesting
        omega
      obtain ⟨tree, before, last, further, stopped⟩ :=
        endsWith_tree_of_closed reached offers closed
      obtain ⟨limit, ended⟩ := Run.finish_of_reaches further stopped
      exact ⟨limit, _, last, ended⟩
    · intro limit result last ended
      exact (closed_of_finish reached offers ended).2
    · intro different
      refine ⟨by unfold nesting at nonneg; omega, fun limit => ?_⟩
      cases ended : run.finish (automatonOf ⟨trim, true⟩) limit with
      | none => rfl
      | some pair =>
        have closed := (closed_of_finish reached offers ended).1
        unfold nesting at closed
        omega

end TableDriven.Calculator
