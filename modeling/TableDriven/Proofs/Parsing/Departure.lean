import TableDriven.Proofs.Lexing.Unrecognized
import TableDriven.Proofs.Parsing.Conservation
import TableDriven.Proofs.Parsing.Recovery
import TableDriven.Proofs.Parsing.TreeInvariant

/-!
# Where a parse that recovers departs

Beside each other, a parse that reports the first error and one that recovers do the same
until the one reports an error: text that is no token, for which the other has the error
terminal, or a token without an action, which the other turns into it. From then on the
error terminal is at hand or on the stack. Recovery may take it off again, but only while
another one is at hand, and that is not given up before it is pushed. So if the parse that
recovers ends with a tree, the tree has a leaf of the error terminal.

This is about tables that never accept on the error terminal, and about bytes in memory of
which every fault covers one byte, so that both parses scan on from the same place.
-/

namespace TableDriven

/-- The tokens that a source has in store with an error terminal, beside those without:
the same, or the same up to text that is no token, which is followed by the error terminal
and by what is in store behind that text. -/
inductive Beside (symbol : Symbol) (tokens : List Token) (ending : Ending) :
    List Token → Ending → Prop where
  | same : Beside symbol tokens ending tokens ending
  | faulty (line : Nat) (text : String) (row : Nat) (own : String) (more : List Token)
      (later : Ending) (stops : ending = .stopped (.lexical line text)) :
      Beside symbol tokens ending (tokens ++ ⟨symbol, row, own⟩ :: more) later

namespace Beside

variable {symbol : Symbol} {token : Token} {tokens others : List Token} {ending later : Ending}

/-- Tokens stay beside each other behind one more. -/
theorem cons (beside : Beside symbol tokens ending others later) (token : Token) :
    Beside symbol (token :: tokens) ending (token :: others) later := by
  cases beside with
  | same => exact .same
  | faulty line text row own more later stops => exact .faulty line text row own more later stops

/-- What stands beside a token and others is that token, and others beside those. -/
theorem of_cons (beside : Beside symbol (token :: tokens) ending others later) :
    ∃ rest, others = token :: rest ∧ Beside symbol tokens ending rest later := by
  cases beside with
  | same => exact ⟨tokens, rfl, .same⟩
  | faulty line text row own more later stops =>
    exact ⟨_, rfl, .faulty line text row own more later stops⟩

/-- A token with an error terminal stands beside itself, or is the error terminal beside
the end. -/
theorem to_cons (beside : Beside symbol tokens ending (token :: others) later) :
    (∃ rest, tokens = token :: rest ∧ Beside symbol rest ending others later) ∨
      tokens = [] ∧ token.symbol = symbol ∧
        ∃ line text, ending = .stopped (.lexical line text) := by
  generalize stored : token :: others = all at beside
  cases beside with
  | same => exact .inl ⟨others, stored.symm, .same⟩
  | faulty line text row own more later stops =>
    cases tokens with
    | nil =>
      obtain ⟨rfl, -⟩ := List.cons.inj stored
      exact .inr ⟨rfl, rfl, line, text, stops⟩
    | cons first rest =>
      obtain ⟨rfl, rfl⟩ := List.cons.inj stored
      exact .inl ⟨rest, rfl, .faulty line text row own more later stops⟩

/-- Nothing with an error terminal stands beside nothing that ends alike. -/
theorem to_nil (beside : Beside symbol tokens ending [] later) : tokens = [] ∧ ending = later := by
  generalize stored : ([] : List Token) = all at beside
  cases beside with
  | same => exact ⟨rfl, rfl⟩
  | faulty => simp at stored

end Beside

/-- The token at hand with an error terminal, beside the one without: the same, or the error
terminal for text that is no token. -/
inductive HeldBeside (grammar : Grammar) (symbol : Symbol) :
    Option Token → Option Token → Prop where
  | same (hand : Option Token) : HeldBeside grammar symbol hand hand
  | faulty (token : Token) (unlisted : token.symbol = grammar.lexicalError) :
      HeldBeside grammar symbol (some token) (some { token with symbol })

/-- What bytes in memory have in store with an error terminal stands beside what they have
without, if faults are single. Induct on the tokens without one. -/
theorem Upcoming.beside {grammar : Grammar} (marked : grammar.lexicalError.kind = .error)
    (single : grammar.FaultsSingly) {error : SymbolId} {symbol : Symbol}
    (named : grammar.errorTerminal error = .ok symbol) {hand own : Option Token} {depth : Nat}
    {source : ByteSource} {tokens others : List Token} {ending later : Ending}
    (strict : Upcoming grammar none hand depth source tokens ending)
    (held : HeldBeside grammar symbol hand own)
    (recovering : Upcoming grammar (some error) own depth source others later) :
    Beside symbol tokens ending others later := by
  obtain ⟨found, -, terminal⟩ := Grammar.errorTerminal_eq_ok.mp named
  have kind : symbol.kind = .terminal := by rw [← terminal]
  induction strict generalizing own others later with
  | finished done =>
    cases held
    cases recovering with
    | finished => exact .same
    | fetched left => simp [left rfl] at done
  | @fetched depth source token tokens ending left scanned rest inductionHypothesis =>
    cases held
    cases recovering with
    | finished done => simp [left rfl] at done
    | fetched _ again remaining =>
      rcases Scan.next_single single named scanned with same | ⟨unlisted, recovered, moved⟩
      · rw [same] at again remaining
        obtain rfl := Except.ok.inj (scanned.symm.trans again)
        exact inductionHypothesis (.same _) remaining
      · obtain rfl := Except.ok.inj (recovered.symm.trans again)
        rw [moved] at remaining
        exact inductionHypothesis (.faulty token unlisted) remaining
  | @dropped depth after source token tokens ending fate rest inductionHypothesis =>
    cases held with
    | same =>
      have remaining := recovering.of_hand
      rw [fate] at remaining
      exact inductionHypothesis (.same none) remaining
    | faulty token unlisted =>
      rw [Token.fate_of_error (unlisted ▸ marked)] at fate
      have remaining := recovering.of_hand
      rw [Token.fate_of_terminal kind] at remaining
      by_cases outside : depth = 0
      · rw [if_pos outside] at fate
        contradiction
      · rw [if_neg outside] at fate remaining
        obtain rfl := Fate.dropped.inj fate
        exact inductionHypothesis (.same none) remaining
  | @lineDropped depth source token tokens ending fate rest inductionHypothesis =>
    cases held with
    | same =>
      have remaining := recovering.of_hand
      rw [fate] at remaining
      exact inductionHypothesis (.same none) remaining
    | faulty token unlisted =>
      rw [Token.fate_of_error (unlisted ▸ marked)] at fate
      split at fate <;> contradiction
  | @stopped depth source token own fate =>
    cases held with
    | same =>
      have remaining := recovering.of_hand
      rw [fate] at remaining
      obtain ⟨rfl, rfl⟩ := remaining
      exact .same
    | faulty token unlisted =>
      have remaining := recovering.of_hand
      rw [Token.fate_of_error (unlisted ▸ marked)] at fate
      rw [Token.fate_of_terminal kind] at remaining
      -- Outside comments the one ends here and the other is offered the error terminal.
      by_cases outside : depth = 0
      · rw [if_pos outside] at fate remaining
        obtain rfl := Fate.stops.inj fate
        obtain ⟨more, rfl, -⟩ := remaining
        exact .faulty _ _ _ _ more later rfl
      · rw [if_neg outside] at fate
        contradiction
  | @offered depth source token tokens ending fate rest inductionHypothesis =>
    cases held with
    | same =>
      have remaining := recovering.of_hand
      rw [fate] at remaining
      obtain ⟨more, rfl, remaining⟩ := remaining
      exact (inductionHypothesis (.same none) remaining).cons token
    | faulty token unlisted =>
      rw [Token.fate_of_error (unlisted ▸ marked)] at fate
      split at fate <;> contradiction

/-- What holds of the labels of all leaves that stand for tokens is closed under the rules. -/
theorem Grammar.composes_labels (grammar : Grammar) (holds : Label → Prop) :
    grammar.Composes fun _ node => ∀ label ∈ node.tokenLabels grammar, holds label where
  branch id rule head line children looked named bodied forest := by
    have some : grammar.isBodiless id = false := by
      rw [isBodiless_of_rule looked, List.isEmpty_eq_false_iff]
      exact bodied
    have each : ∀ child ∈ children, ∀ label ∈ child.tokenLabels grammar, holds label := by
      generalize rule.body = body at forest
      induction forest with
      | nil => simp
      | cons first rest inductionHypothesis =>
        intro child member
        rcases List.mem_cons.mp member with rfl | later
        · exact first
        · exact inductionHypothesis child later
    intro label member
    rw [Node.tokenLabels_branch some] at member
    obtain ⟨child, among, inside⟩ := List.mem_flatMap.mp member
    exact each child among label inside
  unit _ _ _ _ _ _ _ _ _ holds := holds
  empty id rule head line name text looked named bodiless := by
    have none : grammar.isBodiless id = true := by
      rw [isBodiless_of_rule looked, bodiless, List.isEmpty_nil]
    rw [Node.tokenLabels_bodiless none]
    simp

/-- An error with which a parse that does not recover reports a fault of the text. -/
def ParseError.ReportsFault (error : ParseError) : Prop :=
  (∃ line text, error = .lexical line text) ∨
    ∃ line found expected, error = .unexpected line found expected

namespace Automaton

variable {automaton : Automaton} {machine after : Machine} {token next : Token} {signal : Signal}
  {error : SymbolId}

/-- A step of a parse that recovers is a step of the one that does not, or that one rejects
the token and the error terminal is at hand next. -/
theorem Effect.strict_or_recovers (well : automaton.grammar.tables.WellFormed)
    (strict : automaton.errorSymbol = none)
    (effect : { automaton with errorSymbol := some error }.Effect machine token after next
      signal) :
    automaton.Effect machine token after next signal ∨
      automaton.Effect machine token machine token .reject ∧ next.symbol.id = error ∧
        signal = .reduce := by
  cases effect with
  | shift target listed => exact .inl (.shift target listed)
  | goto target listed => exact .inl (.goto target listed)
  | reduce id after listed reduced =>
    obtain ⟨rule, head, trimmed, node, below, target, planned, taken, moved⟩ := reduced
    refine .inl (.reduce id _ listed ?_)
    exact .intro rule head trimmed node below target planned taken moved
  | substitute own symbol unlisted recovers ordinary named =>
    obtain rfl : error = own := Option.some.inj recovers
    exact .inr ⟨.reject unlisted strict, Grammar.errorTerminal_id well named, rfl⟩
  | unwind own state stack unlisted recovers substituted unwound =>
    obtain rfl : error = own := Option.some.inj recovers
    exact .inr ⟨.reject unlisted strict, substituted, rfl⟩
  | accept listed => exact .inl (.accept listed)
  | reject unlisted recovers => contradiction

/-- The error terminal is a leaf on the stack. -/
def OnStack (grammar : Grammar) (error : SymbolId) (machine : Machine) : Prop :=
  ∃ label ∈ machine.stack.tokenLabels grammar, label.id = error

/-- A token that is to be offered again leaves the error terminal on the stack or is the error
terminal: only recovery takes leaves off, and it does so while the error terminal is at
hand. -/
theorem Effect.error_of_again (recovers : automaton.errorSymbol = some error)
    (well : automaton.grammar.tables.WellFormed)
    (effect : automaton.Effect machine token after next .reduce)
    (faulty : OnStack automaton.grammar error machine ∨ token.symbol.id = error) :
    OnStack automaton.grammar error after ∨ next.symbol.id = error := by
  cases effect with
  | reduce id after listed reduced =>
    obtain ⟨lost, split, kept⟩ := (Effect.reduce id after listed reduced).tokenLabels_of_again
    have untouched : automaton.dropped machine token = 0 := by
      unfold dropped
      rw [listed]
    rw [kept untouched, List.append_nil] at split
    unfold OnStack at faulty ⊢
    rwa [split] at faulty
  | substitute own symbol unlisted given ordinary named =>
    obtain rfl : error = own := Option.some.inj (recovers.symm.trans given)
    exact .inr (Grammar.errorTerminal_id well named)
  | unwind own state stack unlisted given substituted unwound =>
    obtain rfl : error = own := Option.some.inj (recovers.symm.trans given)
    exact .inr substituted

/-- Once the error terminal is at hand or on the stack, a tree that the automaton yields has
a leaf of it. Induct on what the automaton does. -/
theorem Yields.has_error {ending : Ending} {tokens : List Token} {tree : Node}
    (recovers : automaton.errorSymbol = some error)
    (well : automaton.grammar.tables.WellFormed)
    (unaccepted : ∀ state, automaton.grammar.actionOn state error ≠ .ok (some .accept))
    (yields : automaton.Yields ending machine tokens (.ok tree))
    (path : StackPath automaton.grammar machine.state machine.stack)
    (faulty : OnStack automaton.grammar error machine ∨
      ∃ token ∈ tokens.head?, token.symbol.id = error) :
    ∃ label ∈ tree.tokenLabels automaton.grammar, label.id = error := by
  generalize found : (Except.ok tree : Except Halt Node) = result at yields
  induction yields with
  | pushed stepped pushed rest inductionHypothesis =>
    have effect := effect_of_step_eq stepped
    obtain ⟨-, labels⟩ := effect.tokenLabels_of_pushed pushed
    refine inductionHypothesis (path.effect effect) (.inl ?_) found
    unfold OnStack at faulty ⊢
    rw [labels]
    rcases faulty with ⟨label, member, same⟩ | ⟨token, first, same⟩
    · exact ⟨label, List.mem_append_left _ member, same⟩
    · obtain rfl := Option.some.inj first
      exact ⟨_, List.mem_append_right _ List.mem_cons_self, same⟩
  | again stepped rest inductionHypothesis =>
    have effect := effect_of_step_eq stepped
    refine inductionHypothesis (path.effect effect) ?_ found
    have held := effect.error_of_again recovers well (by simpa using faulty)
    simpa using held
  | accepted stepped =>
    cases effect_of_step_eq stepped with
    | accept listed =>
      rw [← path.tokenLabels_root (Machine.root_of_mapError found.symm)]
      rcases faulty with onStack | ⟨token, first, same⟩
      · exact onStack
      · obtain rfl := Option.some.inj first
        rw [same] at listed
        exact absurd listed (unaccepted _)
  | rejected => contradiction
  | halted => contradiction
  | refilled complete rest inductionHypothesis =>
    rcases faulty with onStack | ⟨token, first, same⟩
    · exact inductionHypothesis path (.inl onStack) found
    · contradiction
  | stopped => contradiction

/-- What a parse without recovery yields, if it is a tree, one with recovery yields too, from
the tokens that stand beside. Induct on what the automaton does. -/
theorem Yields.with_recovery {symbol : Symbol} {ending later : Ending} {tokens others : List Token}
    {tree : Node} (strict : automaton.errorSymbol = none)
    (yields : automaton.Yields ending machine tokens (.ok tree))
    (beside : Beside symbol tokens ending others later) (errorSymbol : Option SymbolId) :
    { automaton with errorSymbol }.Yields later machine others (.ok tree) := by
  generalize found : (Except.ok tree : Except Halt Node) = result at yields
  induction yields generalizing others with
  | pushed stepped pushed rest inductionHypothesis =>
    obtain ⟨more, rfl, remaining⟩ := beside.of_cons
    have answered := step_of_strict errorSymbol strict (by rcases pushed with rfl | rfl <;> simp)
      stepped
    exact .pushed answered pushed (inductionHypothesis remaining found)
  | again stepped rest inductionHypothesis =>
    obtain ⟨more, rfl, remaining⟩ := beside.of_cons
    have answered := step_of_strict errorSymbol strict (by simp) stepped
    exact .again answered (inductionHypothesis (remaining.cons _) found)
  | accepted stepped =>
    obtain ⟨more, rfl, -⟩ := beside.of_cons
    exact .accepted (step_of_strict errorSymbol strict (by simp) stepped)
  | rejected => contradiction
  | halted => contradiction
  | refilled complete rest inductionHypothesis =>
    cases beside with
    | same => exact .refilled complete (inductionHypothesis .same found)
    | faulty line text row own more later stops =>
      rw [complete] at stops
      contradiction
  | stopped => contradiction

/-- A rejected token is reported as a fault of the text. -/
theorem Yields.of_reject (well : automaton.grammar.tables.WellFormed)
    (path : StackPath automaton.grammar machine.state machine.stack)
    (rejects : automaton.Effect machine token machine token .reject) (ending : Ending)
    (tokens : List Token) :
    ∃ fault, fault.ReportsFault ∧
      automaton.Yields ending machine (token :: tokens) (.error (.error fault)) := by
  obtain ⟨expected, reported⟩ := rejection_eq well (path.state_lt well) token
  have yields : automaton.Yields ending machine (token :: tokens)
      (.error (automaton.rejection machine.state token)) := .rejected (step_eq_of_effect rejects)
  rw [reported] at yields
  exact ⟨_, .inr ⟨token.line, token.symbol.name, expected, rfl⟩, yields⟩

/-- Where a parse that recovers yields a tree, the one that does not yields the same tree, or
it reports a fault of the text and the tree has a leaf of the error terminal. Induct on what
the one that recovers does: they part where the error terminal comes to hand. -/
theorem Yields.without_recovery {symbol : Symbol} {ending later : Ending}
    {tokens others : List Token} {tree : Node} (strict : automaton.errorSymbol = none)
    (well : automaton.grammar.tables.WellFormed)
    (named : automaton.grammar.errorTerminal error = .ok symbol)
    (unaccepted : ∀ state, automaton.grammar.actionOn state error ≠ .ok (some .accept))
    (yields : { automaton with errorSymbol := some error }.Yields later machine others (.ok tree))
    (path : StackPath automaton.grammar machine.state machine.stack)
    (beside : Beside symbol tokens ending others later) :
    automaton.Yields ending machine tokens (.ok tree) ∨
      (∃ fault, fault.ReportsFault ∧
        automaton.Yields ending machine tokens (.error (.error fault))) ∧
      ∃ label ∈ tree.tokenLabels automaton.grammar, label.id = error := by
  have recovers : { automaton with errorSymbol := some error }.errorSymbol = some error := rfl
  -- Wherever the two part, the error terminal is at hand in the one that recovers.
  have departs (token : Token) (others : List Token) (machine : Machine)
      (path : StackPath automaton.grammar machine.state machine.stack)
      (yields : { automaton with errorSymbol := some error }.Yields later machine
        (token :: others) (.ok tree)) (first : token.symbol.id = error) :
      ∃ label ∈ tree.tokenLabels automaton.grammar, label.id = error := by
    have leaf := Yields.has_error recovers well unaccepted yields path (.inr ⟨token, rfl, first⟩)
    exact leaf
  generalize found : (Except.ok tree : Except Halt Node) = result at yields
  induction yields generalizing tokens with
  | @pushed machine after token next signal others result stepped pushed rest
      inductionHypothesis =>
    rcases beside.to_cons with ⟨more, rfl, remaining⟩ | ⟨rfl, rfl, line, text, stops⟩
    · have effect := effect_of_step_eq stepped
      have onward := StackPath.effect effect path
      rcases effect.strict_or_recovers well strict with answered | ⟨-, -, rfl⟩
      · have alike := step_eq_of_effect answered
        rcases inductionHypothesis onward remaining found with
          yields | ⟨⟨fault, reports, yields⟩, leaf⟩
        · exact .inl (.pushed alike pushed yields)
        · exact .inr ⟨⟨fault, reports, .pushed alike pushed yields⟩, leaf⟩
      · simp at pushed
    · subst found
      exact .inr ⟨⟨_, .inl ⟨line, text, rfl⟩, .stopped stops⟩,
        departs token others machine path (.pushed stepped pushed rest)
          (Grammar.errorTerminal_id well named)⟩
  | @again machine after token next others result stepped rest inductionHypothesis =>
    rcases beside.to_cons with ⟨more, rfl, remaining⟩ | ⟨rfl, rfl, line, text, stops⟩
    · have effect := effect_of_step_eq stepped
      have onward := StackPath.effect effect path
      rcases effect.strict_or_recovers well strict with answered | ⟨rejects, first, -⟩
      · have alike := step_eq_of_effect answered
        rcases inductionHypothesis onward (remaining.cons next) found with
          yields | ⟨⟨fault, reports, yields⟩, leaf⟩
        · exact .inl (.again alike yields)
        · exact .inr ⟨⟨fault, reports, .again alike yields⟩, leaf⟩
      · subst found
        exact .inr ⟨of_reject well path rejects ending more,
          departs next others after onward rest first⟩
    · subst found
      exact .inr ⟨⟨_, .inl ⟨line, text, rfl⟩, .stopped stops⟩,
        departs token others machine path (.again stepped rest)
          (Grammar.errorTerminal_id well named)⟩
  | @accepted machine after token next others stepped =>
    rcases beside.to_cons with ⟨more, rfl, -⟩ | ⟨rfl, rfl, line, text, stops⟩
    · rcases (effect_of_step_eq stepped).strict_or_recovers well strict with
        answered | ⟨-, -, impossible⟩
      · exact .inl (.accepted (step_eq_of_effect answered))
      · contradiction
    · refine .inr ⟨⟨_, .inl ⟨line, text, rfl⟩, .stopped stops⟩, ?_⟩
      refine departs token others machine path ?_ (Grammar.errorTerminal_id well named)
      rw [found]
      exact .accepted stepped
  | rejected => contradiction
  | halted => contradiction
  | refilled complete rest inductionHypothesis =>
    obtain ⟨rfl, rfl⟩ := beside.to_nil
    rcases inductionHypothesis path .same found with yields | ⟨⟨fault, reports, yields⟩, leaf⟩
    · exact .inl (.refilled complete yields)
    · exact .inr ⟨⟨fault, reports, .refilled complete yields⟩, leaf⟩
  | stopped => contradiction

end Automaton

end TableDriven
