import TableDriven.Proofs.Calculator.Outcomes
import TableDriven.Proofs.Parsing.Resumption

/-!
# Parentheses that are not closed

A rule of the calculator closes as many parentheses as it opens, so reductions keep the
number of unclosed parentheses on the stack. Recovery does not lower it: the state behind an
opening parenthesis has an action on the error terminal, so an opening parenthesis is never
taken off, and a closing one that is taken off leaves one more unclosed.

When the end of the text is offered, no parenthesis is closed any more. If one is unclosed
the end is never accepted, and as it is offered again and again, the parse never ends. If
none is unclosed, an operand may be missing; the error terminal takes its place, and then
the end is accepted.
-/

namespace TableDriven.Calculator

/-- How many more parentheses some symbols open than they close. -/
def nesting (labels : List SymbolId) : Int :=
  labels.count Symbols.openParen - labels.count Symbols.closeParen

/-- Unclosed parentheses add up. -/
theorem nesting_append (before after : List SymbolId) :
    nesting (before ++ after) = nesting before + nesting after := by
  simp only [nesting, List.count_append]
  omega

/-- Symbols of which none opens a parenthesis leave none unclosed. -/
theorem nesting_nonpos {labels : List SymbolId} (closed : Symbols.openParen ∉ labels) :
    nesting labels ≤ 0 := by
  have none := List.count_eq_zero_of_not_mem closed
  unfold nesting
  omega

/-- A rule closes as many parentheses as it opens. -/
theorem nesting_body : ∀ rule ∈ rules, nesting rule.body = nesting [rule.head] := by decide

/-- How many parentheses are unclosed at least on every path to a state. -/
def leastNesting (state : LalrStateId) : Int := if state = 5 ∨ state = 12 then 1 else 0

/-- On a path to a state so many parentheses are unclosed at least. -/
theorem leastNesting_le {labels : List SymbolId} {state : LalrStateId}
    (path : grammar.Path labels state) : leastNesting state ≤ nesting labels := by
  induction path with
  | start => decide
  | extend labels state label target path moved inductionHypothesis =>
    have kept : ∀ state ∈ lalrStates, ∀ entry ∈ state.actions, ∀ target ∈ entry.action.target?,
        leastNesting target ≤ leastNesting state.id + nesting [entry.symbol] := by
      decide
    obtain ⟨found, placed, rfl, entry, listed, rfl, leads⟩ :=
      Grammar.entry_of_transition wellFormed_tables moved
    have step := kept found (List.mem_toArray.mp placed) entry listed target leads
    rw [nesting_append]
    omega

/-- On no path more parentheses are closed than opened. -/
theorem nesting_nonneg {labels : List SymbolId} {state : LalrStateId}
    (path : grammar.Path labels state) : 0 ≤ nesting labels := by
  have least := leastNesting_le path
  have nonneg : 0 ≤ leastNesting state := by
    unfold leastNesting
    split <;> decide
  omega

/-- Symbols by which every head weighs less than its body. -/
def weight (symbol : SymbolId) : Nat :=
  if symbol = Symbols.number ∨ symbol = Symbols.error then 4
  else if symbol = Symbols.factor ∨ symbol = Symbols.openParen then 3
  else if symbol = Symbols.term then 2
  else if symbol = Symbols.expr ∨ symbol = Symbols.minus then 1
  else 0

/-- No parse goes on for ever over one token. -/
theorem settling_grammar : grammar.Settling weight where
  wellFormed := wellFormed_tables
  consistent := consistent_grammar
  sturdy := sturdy_grammar
  endMarked := endMarked_grammar
  lightens := by
    have lighter : ∀ rule ∈ rules, weight rule.head < (rule.body.map weight).sum := by decide
    intro rule member
    exact lighter rule (List.mem_toArray.mp member)

/-- The action of a state on the error terminal is always the same shift. -/
theorem shift_of_error {state : LalrStateId} {action : Action}
    (listed : grammar.actionOn state Symbols.error = .ok (some action)) : action = .shift 7 := by
  have only : ∀ state ∈ lalrStates, ∀ entry ∈ state.actions, entry.symbol = Symbols.error →
      entry.action = .shift 7 := by
    decide
  obtain ⟨found, placed, -, entry⟩ := Grammar.entry_of_actionOn wellFormed_tables listed
  exact only found (List.mem_toArray.mp placed) _ entry rfl

/-- The calculator recovers by the error terminal. -/
theorem recovers_automatonOf (trim : Bool) :
    (automatonOf ⟨trim, true⟩).Recovers Symbols.error where
  given := rfl
  resumes := resumes_automatonOf ⟨trim, true⟩
  shifted _ _ listed := ⟨7, shift_of_error listed⟩

/-- The state behind an opening parenthesis has an action on the error terminal. -/
theorem listed_of_openParen {origin target : LalrStateId}
    (moved : grammar.Transition origin Symbols.openParen target) :
    grammar.actionOn target Symbols.error ≠ .ok none := by
  have behind : ∀ state ∈ lalrStates, ∀ entry ∈ state.actions,
      entry.symbol = Symbols.openParen → ∀ target ∈ entry.action.target?, target = 5 := by
    decide
  obtain ⟨found, placed, -, entry, listed, same, leads⟩ :=
    Grammar.entry_of_transition wellFormed_tables moved
  rw [behind found (List.mem_toArray.mp placed) entry listed same target leads]
  decide

section

variable {options : Options} {machine after : Machine} {token next : Token}

/-- A reduction keeps the number of unclosed parentheses. -/
theorem nesting_of_reduces (path : StackPath grammar machine.state machine.stack)
    (reduces : (automatonOf options).Reduces token machine after) :
    nesting after.stack.labels = nesting machine.stack.labels := by
  obtain ⟨id, listed, reduced⟩ := reduces
  obtain ⟨rule, prior, looked, before, later⟩ :=
    reduced.labels wellFormed_tables consistent_grammar path listed
  rw [before, later, nesting_append, nesting_append, nesting_body rule (mem_of_rule looked).1]

/-- Recovery closes no parenthesis. -/
theorem nesting_of_unwind {state resumed : LalrStateId} {stack rest : Stack}
    (path : StackPath grammar state stack)
    (unlisted : grammar.actionOn state Symbols.error = .ok none)
    (unwound : Automaton.unwind grammar Symbols.error state stack = (resumed, rest, .ok true)) :
    nesting stack.labels ≤ nesting rest.labels := by
  obtain ⟨gone, split, passed⟩ := Automaton.unwind_passes path unlisted unwound
  have closed : Symbols.openParen ∉ gone := by
    intro member
    obtain ⟨origin, target, moved, none⟩ := passed Symbols.openParen member
    exact listed_of_openParen moved none
  have lost := nesting_nonpos closed
  rw [split, nesting_append]
  omega

/-- No parenthesis is closed while a token is offered again and again. -/
theorem nesting_of_again (path : StackPath grammar machine.state machine.stack)
    (effect : (automatonOf options).Effect machine token after next .reduce) :
    nesting machine.stack.labels ≤ nesting after.stack.labels := by
  cases effect with
  | reduce id _ listed reduced =>
    exact Int.le_of_eq (nesting_of_reduces path ⟨id, listed, reduced⟩).symm
  | substitute => exact Int.le_refl _
  | unwind error state stack unlisted recovers substituted unwound =>
    obtain rfl : error = Symbols.error := by
      cases recover : options.recover <;> simp_all [automatonOf, errorSymbol]
    rw [substituted] at unlisted
    exact nesting_of_unwind path unlisted unwound

/-- When the end of the text is accepted, an expression alone is on the stack. -/
theorem labels_of_accept {symbol : SymbolId}
    (path : StackPath grammar machine.state machine.stack)
    (listed : grammar.actionOn machine.state symbol = .ok (some .accept)) :
    machine.stack.labels = [Symbols.expr] := by
  obtain ⟨tree, root⟩ := path.root_of_accept sturdy_grammar listed
  obtain ⟨entry, lowest, stacked, -, -, moved⟩ := path.stack_of_root root
  have start := consistent_grammar.accepts _ _ _ moved listed
  rw [stacked]
  exact congrArg (fun symbol => [symbol]) start

/-- When the end of the text is accepted, no parenthesis is unclosed. -/
theorem nesting_of_accept {symbol : SymbolId}
    (path : StackPath grammar machine.state machine.stack)
    (listed : grammar.actionOn machine.state symbol = .ok (some .accept)) :
    nesting machine.stack.labels = 0 := by
  rw [labels_of_accept path listed]
  rfl

/-- While a parenthesis is unclosed, nothing is yielded from the end of the text, however
often it is offered. Induct on what would be yielded: the end is never pushed, and what
takes its place closes no parenthesis. -/
theorem not_yields_of_unclosed {trim : Bool} {last : Token} {tokens : List Token}
    {result : Except Halt Node} (ends : last.symbol.id = Symbols.endOfInput)
    (yields : (automatonOf ⟨trim, true⟩).Yields (.complete last) machine tokens result)
    (path : StackPath grammar machine.state machine.stack)
    (known : ∀ token ∈ tokens,
      token.symbol.id = Symbols.endOfInput ∨ token.symbol.id = Symbols.error)
    (unclosed : 0 < nesting machine.stack.labels) : False := by
  induction yields with
  | @pushed machine after token next signal tokens result stepped pushed rest
      inductionHypothesis =>
    have effect := Automaton.effect_of_step_eq stepped
    refine inductionHypothesis (path.effect effect) ?_ ?_
    · intro other member
      exact known other (List.mem_cons_of_mem token member)
    · have flat : nesting [token.symbol.id] = 0 := by
        rcases known token List.mem_cons_self with same | same
        · rw [same]
          rfl
        · rw [same]
          rfl
      rw [effect.labels_of_pushed pushed path.ne_nil, nesting_append]
      omega
  | @again machine after token next tokens result stepped rest inductionHypothesis =>
    have effect := Automaton.effect_of_step_eq stepped
    refine inductionHypothesis (path.effect effect) ?_ ?_
    · intro other member
      rcases List.mem_cons.mp member with rfl | later
      · rcases same_or_error_of_again effect with rfl | error
        · exact known _ List.mem_cons_self
        · exact .inr error
      · exact known other (List.mem_cons_of_mem token later)
    · have more := nesting_of_again path effect
      omega
  | accepted stepped =>
    cases Automaton.effect_of_step_eq stepped with
    | accept listed =>
      have closed := nesting_of_accept path listed
      omega
  | rejected stepped =>
    cases Automaton.effect_of_step_eq stepped with
    | reject unlisted strict => contradiction
  | @halted machine after token next tokens halt stepped =>
    obtain ⟨other, again, signal, effect⟩ := Automaton.exists_effect wellFormed_tables
      consistent_grammar sturdy_grammar (resumes_automatonOf ⟨trim, true⟩) path token
    rw [Automaton.step_eq_of_effect effect] at stepped
    simp at stepped
  | refilled complete rest inductionHypothesis =>
    obtain rfl := Ending.complete.inj complete
    exact inductionHypothesis path (by simp [ends]) unclosed
  | stopped ends => contradiction

/-- What accepts the end of the text yields a tree. -/
theorem yields_of_accept {ending : Ending} {tokens : List Token}
    (path : StackPath grammar machine.state machine.stack)
    (listed : grammar.actionOn machine.state token.symbol.id = .ok (some .accept)) :
    ∃ tree, (automatonOf options).Yields ending machine (token :: tokens) (.ok tree) := by
  obtain ⟨tree, root⟩ := path.root_of_accept sturdy_grammar listed
  have yields : (automatonOf options).Yields ending machine (token :: tokens)
      (machine.root.mapError Halt.defect) :=
    .accepted (Automaton.step_eq_of_effect (.accept listed))
  rw [root] at yields
  exact ⟨tree, yields⟩

/-- The end of the text has an action in a state, unless the state stands behind an expression
in parentheses. -/
def Completes (state : LalrStateId) : Prop :=
  state = 12 ∨ ∃ action, grammar.actionOn state Symbols.endOfInput = .ok (some action)

/-- Reductions lead to such states. -/
theorem completes_of_head {origin target : LalrStateId} {symbol : SymbolId}
    (head : IsHead symbol) (moved : grammar.Transition origin symbol target) :
    Completes target := by
  have behind : ∀ state ∈ lalrStates, ∀ entry ∈ state.actions, IsHead entry.symbol →
      ∀ target ∈ entry.action.target?,
        target = 12 ∨ (grammar.actionOn? target Symbols.endOfInput).isSome := by
    decide
  obtain ⟨found, placed, -, entry, listed, rfl, leads⟩ :=
    Grammar.entry_of_transition wellFormed_tables moved
  rcases behind found (List.mem_toArray.mp placed) entry listed head target leads with
    enclosed | some
  · exact .inl enclosed
  · obtain ⟨action, found⟩ := Option.isSome_iff_exists.mp some
    exact .inr ⟨action, Grammar.actionOn?_eq_some.mp found⟩

/-- Reductions keep to such states. -/
theorem completes_of_reducesTo
    (reduces : (automatonOf options).ReducesTo token machine after)
    (completes : Completes machine.state) : Completes after.state := by
  induction reduces with
  | refl => exact completes
  | tail _ last inductionHypothesis =>
    obtain ⟨id, -, rule, head, trimmed, node, below, target, planned, taken, moved⟩ := last
    obtain ⟨looked, named, -⟩ := Automaton.plan_eq_ok.mp planned
    have own := Grammar.symbol_id wellFormed_tables named
    refine completes_of_head ?_ moved
    rw [own]
    exact (shaped_of_mem rule (mem_of_rule looked).1).1

/-- After finitely many reductions, which keep the number of unclosed parentheses, a token is
pushed, accepted, or has no action. -/
theorem exists_settled (options : Options) (token : Token)
    (path : StackPath grammar machine.state machine.stack) :
    ∃ after, (automatonOf options).ReducesTo token machine after ∧
      StackPath grammar after.state after.stack ∧
      nesting after.stack.labels = nesting machine.stack.labels ∧
      (automatonOf options).Settled after token := by
  have settles : ∃ after, (automatonOf options).ReducesTo token machine after ∧
      StackPath grammar after.state after.stack ∧ (automatonOf options).Settled after token :=
    Automaton.exists_settled settling_grammar token path
  obtain ⟨after, reduces, onward, settled⟩ := settles
  refine ⟨after, reduces, onward, ?_, settled⟩
  clear onward settled
  induction reduces with
  | refl => rfl
  | tail before last inductionHypothesis =>
    rw [nesting_of_reduces (Automaton.ReducesTo.path before path) last, inductionHypothesis]

/-- If no parenthesis is unclosed, a tree is yielded from the end of the text where it has an
action. -/
theorem yields_of_completes {ending : Ending} (ends : token.symbol.id = Symbols.endOfInput)
    (path : StackPath grammar machine.state machine.stack)
    (closed : nesting machine.stack.labels = 0) (completes : Completes machine.state) :
    ∃ tree, (automatonOf options).Yields ending machine [token] (.ok tree) := by
  obtain ⟨between, reduces, onward, still, settled⟩ := exists_settled options token path
  cases settled with
  | pushed target moved =>
    rw [ends] at moved
    exact absurd moved (endMarked_grammar.kept _ target)
  | accepted listed =>
    obtain ⟨tree, yields⟩ := yields_of_accept onward listed
    exact ⟨tree, reduces.yields yields⟩
  | unlisted unlisted =>
    rw [ends] at unlisted
    rcases completes_of_reducesTo reduces completes with enclosed | ⟨action, listed⟩
    · have more := leastNesting_le onward.labelled
      rw [enclosed, still, closed] at more
      contradiction
    · have same := Except.ok.inj (listed.symm.trans unlisted)
      contradiction

/-- Where the end of the text has no action and no parenthesis is unclosed, an operand is
missing. -/
theorem missing_operand {state : LalrStateId} (inside : state < grammar.tables.count .lalrState)
    (unlisted : grammar.actionOn state Symbols.endOfInput = .ok none)
    (outside : leastNesting state ≤ 0) :
    grammar.actionOn state Symbols.error = .ok (some (.shift 7)) := by
  have missing : ∀ state ∈ List.range 19, grammar.actionOn state Symbols.endOfInput = .ok none →
      leastNesting state ≤ 0 →
      grammar.actionOn state Symbols.error = .ok (some (.shift 7)) := by
    decide
  exact missing state (List.mem_range.mpr inside) unlisted outside

/-- Where an operand is missing, the token at hand becomes the error terminal and this is
shifted. -/
theorem exists_operand {trim : Bool} (path : StackPath grammar machine.state machine.stack)
    (unlisted : grammar.actionOn machine.state token.symbol.id = .ok none)
    (ordinary : token.symbol.id ≠ Symbols.error)
    (missing : grammar.actionOn machine.state Symbols.error = .ok (some (.shift 7))) :
    ∃ between own after, (automatonOf ⟨trim, true⟩).Effect machine token between own .reduce ∧
      (automatonOf ⟨trim, true⟩).Effect between own after own .shift ∧ after.state = 7 ∧
      nesting after.stack.labels = nesting machine.stack.labels := by
  let own : Token := ⟨⟨Symbols.error, .terminal, errorTerminal⟩, token.line, "error"⟩
  let counted : Machine := { machine with
    tally := { machine.tally with recoveries := machine.tally.recoveries + 1 } }
  have substituted : (automatonOf ⟨trim, true⟩).Effect machine token counted own .reduce :=
    .substitute Symbols.error own.symbol unlisted rfl ordinary rfl
  have shifted : (automatonOf ⟨trim, true⟩).Effect counted own _ own .shift := .shift 7 missing
  refine ⟨counted, own, _, substituted, shifted, rfl, ?_⟩
  have labels := shifted.labels_of_pushed (.inl rfl) path.ne_nil
  have flat : nesting [own.symbol.id] = 0 := rfl
  rw [labels, nesting_append, flat, Int.add_zero]

/-- If no parenthesis is unclosed, a tree is yielded from the end of the text: if an operand is
missing, the error terminal takes its place and the end is offered once more. -/
theorem yields_of_closed {trim : Bool} {last : Token}
    (own : token.symbol.id = Symbols.endOfInput) (ends : last.symbol.id = Symbols.endOfInput)
    (path : StackPath grammar machine.state machine.stack)
    (closed : nesting machine.stack.labels = 0) :
    ∃ tree, (automatonOf ⟨trim, true⟩).Yields (.complete last) machine [token] (.ok tree) := by
  obtain ⟨between, reduces, onward, still, settled⟩ := exists_settled ⟨trim, true⟩ token path
  cases settled with
  | pushed target moved =>
    rw [own] at moved
    exact absurd moved (endMarked_grammar.kept _ target)
  | accepted listed =>
    obtain ⟨tree, yields⟩ := yields_of_accept onward listed
    exact ⟨tree, reduces.yields yields⟩
  | unlisted unlisted =>
    have outside := leastNesting_le onward.labelled
    have missing : grammar.actionOn between.state Symbols.error = .ok (some (.shift 7)) := by
      rw [own] at unlisted
      exact missing_operand (onward.state_lt wellFormed_tables) unlisted (by omega)
    obtain ⟨replaced, error, after, substituted, shifted, behind, same⟩ :=
      exists_operand onward unlisted (by rw [own]; decide) missing
    have further : StackPath grammar after.state after.stack :=
      (onward.effect substituted).effect shifted
    have completes : Completes after.state := by
      rw [behind]
      exact .inr ⟨.reduce Rules.error, rfl⟩
    have rest : ∃ tree, (automatonOf ⟨trim, true⟩).Yields (.complete last) after [last] (.ok tree) :=
      yields_of_completes ends further (by omega) completes
    obtain ⟨tree, yields⟩ := rest
    refine ⟨tree, reduces.yields (.again (Automaton.step_eq_of_effect substituted) ?_)⟩
    exact .pushed (Automaton.step_eq_of_effect shifted) (.inl rfl) (.refilled rfl yields)

end

end TableDriven.Calculator
