import TableDriven.Proofs.Parsing.StackPath
import TableDriven.Proofs.Parsing.Yields
import TableDriven.Proofs.Tree.Leaves

/-!
# Tokens are kept in order

Every token that is pushed becomes a leaf on the stack. A reduction moves the leaves
of its handle below one branch, or leaves them where they are, and does not change
their order; the marker of an empty body is no token. Only recovery loses leaves, and
it loses them from the top. So the leaves of an accepted tree are tokens that were
pushed, in the order in which they were, and all of them if recovery took nothing off.
The tables have no part in this.
-/

namespace TableDriven

/-- The labels of the leaves on a stack that stand for tokens, from the lowest entry up. -/
def Stack.tokenLabels (grammar : Grammar) (stack : Stack) : List Label :=
  stack.reverse.flatMap fun entry => entry.node.toList.flatMap (Node.tokenLabels grammar)

namespace Stack

variable {grammar : Grammar}

/-- What lies below comes first. -/
theorem tokenLabels_append (above rest : Stack) :
    tokenLabels grammar (above ++ rest) =
      tokenLabels grammar rest ++ tokenLabels grammar above := by
  rw [tokenLabels, List.reverse_append, List.flatMap_append]
  rfl

/-- The leaves of a pushed tree come last. -/
theorem tokenLabels_push (stack : Stack) (state : LalrStateId) (token : Token) (node : Node) :
    tokenLabels grammar (stack.push state token (some node)) =
      tokenLabels grammar stack ++ node.tokenLabels grammar := by
  rw [push, ← List.singleton_append, tokenLabels_append]
  simp [tokenLabels]

/-- The leaves of a handle are those of its trees. -/
theorem tokenLabels_handle {handle : List Entry} {children : List Node}
    (carried : handle.map Entry.node = children.map some) :
    tokenLabels grammar handle.reverse = children.flatMap (Node.tokenLabels grammar) := by
  have entries : (handle.map Entry.node).flatMap
      (fun node => node.toList.flatMap (Node.tokenLabels grammar)) =
      children.flatMap (Node.tokenLabels grammar) := by
    rw [carried, List.flatMap_map]
    simp
  rw [tokenLabels, List.reverse_reverse, ← entries, List.flatMap_map]

end Stack

/-- Whether a rule has an empty body shows when it is looked up. -/
theorem Grammar.isBodiless_of_rule {grammar : Grammar} {id : RuleId} {rule : Rule}
    (looked : grammar.rule id = .ok rule) : grammar.isBodiless id = rule.body.isEmpty := by
  rw [isBodiless, looked]

namespace Automaton

variable {automaton : Automaton} {machine after below : Machine} {token next : Token}
  {signal : Signal} {id : RuleId}

/-- The tree that is put together from others has their leaves, whether or not its
branch is left out. -/
theorem tokenLabels_assemble {grammar : Grammar} (bodied : grammar.isBodiless id = false)
    (head : Symbol) (lookahead : Token) (trimmed : Bool) (children : List Node) :
    (assemble id head lookahead trimmed children).1.tokenLabels grammar =
      children.flatMap (Node.tokenLabels grammar) := by
  unfold assemble
  split
  · simp
  · exact Node.tokenLabels_branch bodied head.name _ children

/-- Taking a body off and pushing its tree keeps the leaves on the stack. -/
theorem BodyTaken.tokenLabels {grammar : Grammar} {rule : Rule} {head : Symbol}
    {lookahead : Token} {trimmed : Bool} {node : Node} (looked : grammar.rule id = .ok rule)
    (taken : BodyTaken machine id rule head lookahead trimmed node below) :
    below.stack.tokenLabels grammar ++ node.tokenLabels grammar =
      machine.stack.tokenLabels grammar := by
  have verdict := Grammar.isBodiless_of_rule looked
  cases taken with
  | empty bodiless =>
    rw [bodiless] at verdict
    rw [emptyBranch, Node.tokenLabels_bodiless verdict, List.append_nil]
  | handle first others rest children stacked fits left carried =>
    have bodied : grammar.isBodiless id = false := by
      rw [verdict, List.isEmpty_eq_false_iff, ← List.length_pos_iff, ← fits]
      exact Nat.succ_pos _
    rw [stacked, Stack.tokenLabels_append, Stack.tokenLabels_handle carried,
      tokenLabels_assemble bodied]

/-- The number of entries that recovery takes off when a token is offered. -/
def dropped (automaton : Automaton) (machine : Machine) (token : Token) : Nat :=
  match automaton.grammar.actionOn machine.state token.symbol.id with
  | .ok none => machine.stack.length - (automaton.recover machine token).machine.stack.length
  | _ => 0

/-- Nothing is taken off without recovery. -/
theorem dropped_of_strict (strict : automaton.errorSymbol = none) (machine : Machine)
    (token : Token) : automaton.dropped machine token = 0 := by
  unfold dropped
  split
  · simp [recover, strict]
  · rfl

/-- A pushed token is the last leaf on the stack. -/
theorem Effect.tokenLabels_of_pushed (effect : automaton.Effect machine token after next signal)
    (pushed : signal = .shift ∨ signal = .goto) :
    next = token ∧ after.stack.tokenLabels automaton.grammar =
      machine.stack.tokenLabels automaton.grammar ++ [token.leaf.label] := by
  have leaf : token.leaf.tokenLabels automaton.grammar = [token.leaf.label] :=
    Node.tokenLabels_leaf token.symbol.id token.symbol.name token.line token.text
  cases effect with
  | shift target listed => exact ⟨rfl, leaf ▸ Stack.tokenLabels_push _ _ token token.leaf⟩
  | goto target listed => exact ⟨rfl, leaf ▸ Stack.tokenLabels_push _ _ token token.leaf⟩
  | reduce => simp at pushed
  | substitute => simp at pushed
  | unwind => simp at pushed
  | accept => simp at pushed
  | reject => simp at pushed

/-- A token that is to be offered again leaves the leaves on the stack as they are, but
for those of the entries that recovery takes off the top. -/
theorem Effect.tokenLabels_of_again
    (effect : automaton.Effect machine token after next .reduce) :
    ∃ lost, machine.stack.tokenLabels automaton.grammar =
        after.stack.tokenLabels automaton.grammar ++ lost ∧
      (automaton.dropped machine token = 0 → lost = []) := by
  cases effect with
  | reduce id after listed reduced =>
    obtain ⟨rule, head, trimmed, node, below, target, planned, taken, moved⟩ := reduced
    have kept := taken.tokenLabels (plan_eq_ok.mp planned).1
    refine ⟨[], ?_, fun _ => rfl⟩
    rw [List.append_nil, ← kept]
    exact (Stack.tokenLabels_push below.stack below.state _ node).symm
  | substitute => exact ⟨[], (List.append_nil _).symm, fun _ => rfl⟩
  | unwind error state stack unlisted recovers substituted unwound =>
    rcases unwind_split unwound with ⟨-, rfl⟩ | ⟨above, entry, split, -, -⟩
    · exact ⟨[], (List.append_nil _).symm, fun _ => rfl⟩
    · rw [List.append_cons] at split
      refine ⟨(above ++ [entry] : Stack).tokenLabels automaton.grammar, ?_, ?_⟩
      · rw [split, Stack.tokenLabels_append]
      · intro none
        have popped : automaton.dropped machine token = machine.stack.length - stack.length := by
          unfold dropped
          rw [unlisted]
          simp [recover, recovers, substituted, unwound]
        have longer : machine.stack.length = (above ++ [entry]).length + stack.length := by
          rw [split, List.length_append]
        have some : 0 < (above ++ [entry]).length := by simp
        omega

end Automaton

/-- The leaves of an accepted tree are the leaves on the stack. -/
theorem StackPath.tokenLabels_root {grammar : Grammar} {machine : Machine} {tree : Node}
    (path : StackPath grammar machine.state machine.stack) (root : machine.root = .ok tree) :
    machine.stack.tokenLabels grammar = tree.tokenLabels grammar := by
  obtain ⟨entry, lowest, two, carried, bare, -⟩ := path.stack_of_root root
  rw [two]
  simp [Stack.tokenLabels, carried, bare]

/-- A token is offered outside comments if its kind is. -/
theorem Token.fate_eq_offered {token : Token} {depth : Nat} :
    token.fate depth = .offered ↔ depth = 0 ∧ token.symbol.kind.isOffered := by
  unfold fate
  by_cases outside : depth = 0
  · cases kind : token.symbol.kind <;> simp [outside, SymbolKind.isOffered]
  · cases kind : token.symbol.kind <;> simp [outside]

namespace Run

variable {σ : Type} [Source σ] {automaton : Automaton} {run next last : Run σ}

/-- The number of entries that recovery takes off in the next step. -/
def dropped (automaton : Automaton) (run : Run σ) : Nat :=
  match run.pending with
  | none => 0
  | some token =>
    if run.commentDepth = 0 ∧ token.symbol.kind.isOffered then
      automaton.dropped run.machine token
    else 0

/-- The number of entries that recovery takes off until a run ends or the limit is
reached. -/
def droppedWithin (automaton : Automaton) : Nat → Run σ → Nat
  | 0, _ => 0
  | limit + 1, run =>
    run.dropped automaton +
      match run.step automaton with
      | .running next => droppedWithin automaton limit next
      | .ended _ _ => 0

omit [Source σ] in
/-- An answer is that of an answered step of the automaton on the token at hand. -/
theorem effect_of_answer {after : Token} {signal : Signal}
    (answered : run.answer? automaton = some (after, signal)) :
    ∃ token, run.pending = some token ∧ token.fate run.commentDepth = .offered ∧
      automaton.Effect run.machine token (automaton.step run.machine token).machine after
        signal := by
  unfold answer? at answered
  cases held : run.pending with
  | none => simp [held] at answered
  | some token =>
    simp only [held] at answered
    split at answered
    · rename_i offered
      refine ⟨token, rfl, Token.fate_eq_offered.mpr offered, ?_⟩
      rcases stepped : automaton.step run.machine token with ⟨machine, again, halt | own⟩
      · simp [stepped] at answered
      · obtain ⟨rfl, rfl⟩ : again = after ∧ own = signal := by simpa [stepped] using answered
        exact Automaton.effect_of_step_eq stepped
    · contradiction

omit [Source σ] in
/-- A token that is offered gets the answer of the automaton. -/
theorem answer_of_offered {token after : Token} {machine : Machine} {signal : Signal}
    (held : run.pending = some token) (fate : token.fate run.commentDepth = .offered)
    (advance : automaton.step run.machine token = ⟨machine, after, .ok signal⟩) :
    run.answer? automaton = some (after, signal) := by
  simp [answer?, held, Token.fate_eq_offered.mp fate, advance]

omit [Source σ] in
/-- A token that is not offered gets none. -/
theorem answer_of_not_offered {token : Token} (held : run.pending = some token)
    (fate : token.fate run.commentDepth ≠ .offered) : run.answer? automaton = none := by
  simp [answer?, held, ← Token.fate_eq_offered, fate]

/-- A step that does not end a run leaves its machine alone and gets no answer, or it
gets the answer of the automaton to the token at hand. -/
theorem answer_of_step (stepped : run.step automaton = .running next) :
    (next.machine = run.machine ∧ run.answer? automaton = none) ∨
      ∃ token after signal, run.answer? automaton = some (after, signal) ∧
        run.dropped automaton = automaton.dropped run.machine token ∧
        automaton.Effect run.machine token next.machine after signal ∧
        (signal = .shift ∨ signal = .goto ∨ signal = .reduce) := by
  have answers {token after : Token} {machine : Machine} {signal : Signal}
      (held : run.pending = some token) (fate : token.fate run.commentDepth = .offered)
      (advance : automaton.step run.machine token = ⟨machine, after, .ok signal⟩) :
      run.answer? automaton = some (after, signal) ∧
        run.dropped automaton = automaton.dropped run.machine token ∧
        automaton.Effect run.machine token machine after signal := by
    have offered := Token.fate_eq_offered.mp fate
    exact ⟨answer_of_offered held fate advance, by simp [dropped, held, offered],
      Automaton.effect_of_step_eq advance⟩
  cases stepped_of_step stepped with
  | fetched token next empty scanned still => exact .inl ⟨still, by simp [answer?, empty]⟩
  | dropped token depth held fate =>
    exact .inl ⟨rfl, answer_of_not_offered held (by simp [fate])⟩
  | lineDropped token held fate =>
    exact .inl ⟨rfl, answer_of_not_offered held (by simp [fate])⟩
  | pushed token again after signal held fate advance pushed =>
    obtain ⟨answered, counted, effect⟩ := answers held fate advance
    refine .inr ⟨token, again, signal, answered, counted, effect, ?_⟩
    rcases pushed with rfl | rfl
    · exact .inl rfl
    · exact .inr (.inl rfl)
  | again token again after held fate advance =>
    obtain ⟨answered, counted, effect⟩ := answers held fate advance
    exact .inr ⟨token, again, .reduce, answered, counted, effect, .inr (.inr rfl)⟩

end Run

/-- The tokens among some answers that were pushed. -/
def pushedTokens (answers : List (Token × Signal)) : List Token :=
  (answers.filter fun answer => answer.2 = .shift ∨ answer.2 = .goto).map Prod.fst

/-- Answers that follow one another push their tokens one after the other. -/
theorem pushedTokens_append (before after : List (Token × Signal)) :
    pushedTokens (before ++ after) = pushedTokens before ++ pushedTokens after := by
  rw [pushedTokens, List.filter_append, List.map_append]
  rfl

namespace Run

variable {σ : Type} [Source σ] {automaton : Automaton}

/-- The leaves of the tree that a run ends with are among those on the stack and the
tokens that are yet to be pushed, in this order; if recovery takes no entry off, they
are all of these. Induct on the steps: a pushed token moves from the one to the other. -/
theorem tokenLabels_of_finish {limit : Nat} {run last : Run σ} {tree : Node}
    (path : StackPath automaton.grammar run.machine.state run.machine.stack)
    (ended : run.finish automaton limit = some (.ok tree, last)) :
    (tree.tokenLabels automaton.grammar).Sublist
        (run.machine.stack.tokenLabels automaton.grammar ++
          (pushedTokens (run.answers automaton limit)).map fun token => token.leaf.label) ∧
      (run.droppedWithin automaton limit = 0 →
        tree.tokenLabels automaton.grammar =
          run.machine.stack.tokenLabels automaton.grammar ++
            (pushedTokens (run.answers automaton limit)).map fun token => token.leaf.label) := by
  induction limit generalizing run with
  | zero => simp [finish] at ended
  | succ limit inductionHypothesis =>
    unfold finish at ended
    unfold answers droppedWithin
    rw [pushedTokens_append, List.map_append]
    cases stepped : run.step automaton with
    | ended result final =>
      obtain ⟨rfl, rfl⟩ : result = .ok tree ∧ final = last := by simpa [stepped] using ended
      obtain ⟨token, held, listed, root, -⟩ := accepted_of_step stepped
      have nothing : pushedTokens (run.answer? automaton).toList = [] := by
        rcases answered : run.answer? automaton with _ | ⟨after, signal⟩
        · rfl
        · obtain ⟨own, same, -, effect⟩ := effect_of_answer answered
          obtain rfl := Option.some.inj (held.symm.trans same)
          generalize (automaton.step run.machine token).machine = machine at effect
          cases effect <;> simp_all [pushedTokens]
      rw [nothing, path.tokenLabels_root root]
      simp [pushedTokens]
    | running next =>
      rw [stepped] at ended
      dsimp only at ended ⊢
      rcases answer_of_step stepped with
        ⟨still, silent⟩ | ⟨token, after, signal, answered, counted, effect, kind⟩
      · rw [← still] at path ⊢
        obtain ⟨among, all⟩ := inductionHypothesis path ended
        rw [silent]
        exact ⟨among, fun none => all (Nat.eq_zero_of_add_eq_zero_left none)⟩
      · obtain ⟨among, all⟩ := inductionHypothesis (path.effect effect) ended
        rw [answered, counted]
        by_cases pushed : signal = .shift ∨ signal = .goto
        · obtain ⟨rfl, appended⟩ := effect.tokenLabels_of_pushed pushed
          have first : pushedTokens (some (after, signal)).toList = [after] := by
            simp [pushedTokens, pushed]
          rw [appended, List.append_assoc] at among all
          rw [first]
          exact ⟨among, fun none => all (Nat.eq_zero_of_add_eq_zero_left none)⟩
        · obtain rfl : signal = .reduce := by
            rw [← or_assoc] at kind
            exact kind.resolve_left pushed
          obtain ⟨lost, split, kept⟩ := effect.tokenLabels_of_again
          have first : pushedTokens (some (after, Signal.reduce)).toList = [] := by
            simp [pushedTokens]
          rw [first, List.map_nil, List.nil_append, split]
          constructor
          · exact among.trans ((List.sublist_append_left _ lost).append_right _)
          · intro none
            rw [kept (Nat.eq_zero_of_add_eq_zero_right none), List.append_nil]
            exact all (Nat.eq_zero_of_add_eq_zero_left none)

/-- A run that does not recover never loses an entry to recovery. -/
theorem droppedWithin_of_strict (strict : automaton.errorSymbol = none) (limit : Nat)
    (run : Run σ) : run.droppedWithin automaton limit = 0 := by
  induction limit generalizing run with
  | zero => rfl
  | succ limit inductionHypothesis =>
    have now : run.dropped automaton = 0 := by
      unfold dropped
      split
      · rfl
      · rw [Automaton.dropped_of_strict strict, ite_self]
    unfold droppedWithin
    rw [now]
    split
    · rw [inductionHypothesis]
    · rfl

end Run

namespace Parser

variable {σ : Type} [Source σ]

/-- The tokens that are pushed in a parse, one after the other, as they stood when they
were pushed. -/
def pushed (parser : Parser) (source : σ) (trim : Bool) (limit : Nat) : List Token :=
  pushedTokens (parser.answers source trim limit)

/-- The number of entries that recovery takes off in a parse. -/
def dropped (parser : Parser) (source : σ) (trim : Bool) (limit : Nat) : Nat :=
  match parser.begin? source with
  | .error _ => 0
  | .ok run => run.droppedWithin (parser.automaton trim) limit

end Parser

/-- Whatever the tables, whatever a parser has been used for, and whether it trims or
recovers: the leaves of a tree that a parse ends with are tokens that were pushed, in
the order in which they were pushed. They are all of them if the parser does not
recover, or if recovery took no entry off. -/
theorem leaves_are_pushed_tokens {σ : Type} [Source σ] (parser : Parser) (source : σ)
    (trim : Bool) (limit : Nat) (tree : Node)
    (parsed : (parser.parse source trim limit).outcome = .done tree) :
    (tree.tokenLabels parser.grammar).Sublist
        ((parser.pushed source trim limit).map fun token => token.leaf.label) ∧
      (parser.errorSymbol = none ∨ parser.dropped source trim limit = 0 →
        tree.tokenLabels parser.grammar =
          (parser.pushed source trim limit).map fun token => token.leaf.label) := by
  unfold Parser.parse at parsed
  cases begun : parser.begin? source with
  | error defect => simp [begun] at parsed
  | ok first =>
    simp only [begun] at parsed
    cases ended : first.finish (parser.automaton trim) limit with
    | none => simp [ended] at parsed
    | some pair =>
      obtain ⟨result, last⟩ := pair
      rw [ended] at parsed
      obtain rfl : result = .ok tree := Outcome.ofResult_inj parsed
      have reached : Run.Reaches (parser.automaton trim) first first := .refl
      have path := StackPath.of_reaches begun reached
      obtain ⟨among, all⟩ := Run.tokenLabels_of_finish path ended
      have bare : first.machine.stack.tokenLabels parser.grammar = [] := by
        obtain ⟨start, -, rfl⟩ := Parser.begin?_eq_ok.mp begun
        rfl
      have pushed : parser.pushed source trim limit =
          pushedTokens (first.answers (parser.automaton trim) limit) := by
        simp only [Parser.pushed, Parser.answers, begun]
      have dropped : parser.dropped source trim limit =
          first.droppedWithin (parser.automaton trim) limit := by
        simp only [Parser.dropped, begun]
      dsimp only [Parser.automaton] at among all
      rw [bare, List.nil_append] at among all
      rw [pushed, dropped]
      refine ⟨among, ?_⟩
      rintro (strict | none)
      · exact all (Run.droppedWithin_of_strict strict limit first)
      · exact all none

open Sums in
/-- Recovering from `1++2` puts an error in the place of the second plus sign, and then
another in that of the number, for which the first is taken off. So one of four pushed
tokens is not among the leaves. Without recovery `1+2` has a leaf for each token. -/
theorem leaves_are_pushed_tokens_recovered :
    (∃ tree, ((Parser.recoveringBy grammar errorTerminal).parse
        (ByteSource.ofBytes #[49, 43, 43, 50]) false 40).outcome = .done tree ∧
      (Parser.recoveringBy grammar errorTerminal).dropped
        (ByteSource.ofBytes #[49, 43, 43, 50]) false 40 = 1 ∧
      (tree.tokenLabels grammar).Sublist
        [⟨Symbols.number, "Num", 1, some "1"⟩, ⟨Symbols.plus, "+", 1, some "+"⟩,
          ⟨Symbols.error, "error", 1, some "error"⟩, ⟨Symbols.error, "error", 1, some "error"⟩]) ∧
    ∃ tree, ((Parser.ofGrammar grammar).parse
        (ByteSource.ofBytes #[49, 43, 50]) true 40).outcome = .done tree ∧
      tree.tokenLabels grammar =
        [⟨Symbols.number, "Num", 1, some "1"⟩, ⟨Symbols.plus, "+", 1, some "+"⟩,
          ⟨Symbols.number, "Num", 1, some "2"⟩] := by
  constructor
  · have parsed : ∃ tree, ((Parser.recoveringBy grammar errorTerminal).parse
        (ByteSource.ofBytes #[49, 43, 43, 50]) false 40).outcome = .done tree := ⟨_, rfl⟩
    have pushed : ((Parser.recoveringBy grammar errorTerminal).pushed
        (ByteSource.ofBytes #[49, 43, 43, 50]) false 40).map (fun token => token.leaf.label) =
          [⟨Symbols.number, "Num", 1, some "1"⟩, ⟨Symbols.plus, "+", 1, some "+"⟩,
            ⟨Symbols.error, "error", 1, some "error"⟩,
            ⟨Symbols.error, "error", 1, some "error"⟩] := by
      decide +kernel
    obtain ⟨tree, parsed⟩ := parsed
    obtain ⟨among, -⟩ := leaves_are_pushed_tokens (Parser.recoveringBy grammar errorTerminal)
      (ByteSource.ofBytes #[49, 43, 43, 50]) false 40 tree parsed
    rw [pushed] at among
    exact ⟨tree, parsed, by decide +kernel, among⟩
  · have parsed : ∃ tree, ((Parser.ofGrammar grammar).parse
        (ByteSource.ofBytes #[49, 43, 50]) true 40).outcome = .done tree := ⟨_, rfl⟩
    have pushed : ((Parser.ofGrammar grammar).pushed
        (ByteSource.ofBytes #[49, 43, 50]) true 40).map (fun token => token.leaf.label) =
          [⟨Symbols.number, "Num", 1, some "1"⟩, ⟨Symbols.plus, "+", 1, some "+"⟩,
            ⟨Symbols.number, "Num", 1, some "2"⟩] := by
      decide +kernel
    obtain ⟨tree, parsed⟩ := parsed
    obtain ⟨-, all⟩ := leaves_are_pushed_tokens (Parser.ofGrammar grammar)
      (ByteSource.ofBytes #[49, 43, 50]) true 40 tree parsed
    rw [pushed] at all
    exact ⟨tree, parsed, all (.inl rfl)⟩

end TableDriven
