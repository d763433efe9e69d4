import TableDriven.Proofs.Lexing.LongestMatch
import TableDriven.Proofs.Parsing.Conservation
import TableDriven.Proofs.Parsing.Cursor
import TableDriven.Proofs.Parsing.LeafLines
import TableDriven.Proofs.Parsing.Safety

/-!
# Where tokens start

A ledger is kept beside a run that tells where the last token that was fetched starts, and which
tokens stand on the stack and where each of these starts. The run takes no notice of it. Its lines
are right: every token has one line more than there are line ends before the place where it starts,
also if recovery has turned it into the error terminal. So the leaves of an accepted tree have
right lines, and so has an error, which is always about the last token that was fetched.
-/

namespace TableDriven

/-- The line of an offset: one more than the line ends before it. -/
def ByteSource.lineAt (source : ByteSource) (offset : Nat) : Nat :=
  1 + (source.bytes.toList.take offset).count newline

/-- What is noted about the tokens of a run: where the last one that was fetched starts, and those
that stand on the stack, from the lowest up, each behind the offset where it starts. -/
structure Ledger where
  start : Nat
  standing : List (Nat × Token)

/-- Note a step. A token that is fetched starts where the source stands. A token that is pushed
starts where the last one was fetched; it is the last on the stack, from which tokens are lost only
at the top. -/
def Ledger.note (ledger : Ledger) (automaton : Automaton) (run next : Run ByteSource) : Ledger :=
  match run.pending with
  | none => { ledger with start := run.source.position }
  | some _ =>
    let pushed := (pushedTokens (run.answer? automaton).toList).map fun token =>
      (ledger.start, token)
    let left := (next.machine.stack.tokenLabels automaton.grammar).length
    { ledger with standing := (ledger.standing ++ pushed).take left }

/-- The ledger before the last step of a run, or when the limit is reached. -/
def Run.ledger (automaton : Automaton) : Nat → Run ByteSource → Ledger → Ledger
  | 0, _, ledger => ledger
  | limit + 1, run, ledger =>
    match run.step automaton with
    | .running next => next.ledger automaton limit (ledger.note automaton run next)
    | .ended _ _ => ledger

/-- The ledger of a parse. -/
def Parser.ledger (parser : Parser) (source : ByteSource) (trim : Bool) (limit : Nat) : Ledger :=
  match parser.begin? source with
  | .error _ => ⟨0, []⟩
  | .ok run => run.ledger (parser.automaton trim) limit ⟨0, []⟩

variable {automaton : Automaton} {origin : ByteSource} {run next last : Run ByteSource}
  {ledger : Ledger}

/-- Lines ascend with the offsets. -/
theorem ByteSource.lineAt_mono (source : ByteSource) {offset later : Nat}
    (onward : offset ≤ later) : source.lineAt offset ≤ source.lineAt later := by
  have front := List.take_sublist_take_left (l := source.bytes.toList) onward
  exact Nat.add_le_add_left (front.count_le newline) 1

/-- A source that has been moved forward stands on the line of its position. -/
theorem ByteSource.Ahead.line_eq {source later : ByteSource} (ahead : source.Ahead later)
    (proper : source.Proper) : later.line = source.lineAt later.position := by
  have own := ahead.proper proper
  rw [ByteSource.line_eq own.made, lineAt, Nat.add_comm, ahead.same]

/-- A token stands on the line where its scan began. -/
theorem Scan.next_line {grammar : Grammar} {errorSymbol : Option SymbolId}
    (well : grammar.tables.WellFormed)
    (recoverable : ∀ error ∈ errorSymbol, error < grammar.tables.count .symbol)
    {source : ByteSource} {token : Token}
    (scanned : (Scan.next grammar errorSymbol .zero source).result = .ok token) :
    token.line = source.line := by
  by_cases more : source.position < source.size
  · obtain ⟨symbol, length, -, -, found, -⟩ := next_longest well recoverable .zero more
    rw [← Except.ok.inj (found.symm.trans scanned)]
    rfl
  · rw [next_of_atEnd (ByteSource.atEnd_iff.mpr (Nat.le_of_not_lt more))] at scanned
    rw [← Except.ok.inj scanned]
    rfl

/-- What is right about a ledger. The token at hand starts behind no line ends but those that its
line tells of; the tokens that stand on the stack are its leaves, with right lines; and the lines
of all leaves ascend up to the line of the token at hand or of the source. -/
structure Ledger.Right (automaton : Automaton) (origin : ByteSource) (run : Run ByteSource)
    (ledger : Ledger) : Prop where
  ahead : origin.Ahead run.source
  started : ∀ token ∈ run.pending,
    ledger.start ≤ run.source.position ∧ token.line = origin.lineAt ledger.start
  leaves : ledger.standing.map (fun entry => entry.2.leaf.label) =
    run.machine.stack.tokenLabels automaton.grammar
  placed : ∀ entry ∈ ledger.standing, entry.2.line = origin.lineAt entry.1
  lined : LinedTo ((run.pending.map Token.line).getD run.source.line) run.machine.stack.trees

namespace Ledger.Right

/-- What a step leaves on the stack is the front part of what stood there before and, if the token
at hand is pushed, that token. -/
theorem exists_lost (right : ledger.Right automaton origin run) {token : Token}
    (held : run.pending = some token) (stepped : run.step automaton = .running next) :
    ∃ pushed, (pushed = [] ∨ pushed = [token]) ∧
      pushedTokens (run.answer? automaton).toList = pushed ∧
      ∃ lost, ledger.standing.map (fun entry => entry.2.leaf.label) ++
          pushed.map (fun token => token.leaf.label) =
        next.machine.stack.tokenLabels automaton.grammar ++ lost := by
  rw [right.leaves]
  cases Run.stepped_of_step stepped with
  | fetched own next empty => exact absurd (empty.symm.trans held) nofun
  | dropped own depth present fate =>
    refine ⟨[], .inl rfl, ?_, [], rfl⟩
    rw [Run.answer_of_not_offered present (by simp [fate])]
    rfl
  | lineDropped own present fate =>
    refine ⟨[], .inl rfl, ?_, [], rfl⟩
    rw [Run.answer_of_not_offered present (by simp [fate])]
    rfl
  | pushed own again after signal present fate advance pushed =>
    obtain rfl := Option.some.inj (present.symm.trans held)
    have effect := Automaton.effect_of_step_eq advance
    obtain ⟨rfl, appended⟩ := effect.tokenLabels_of_pushed pushed
    refine ⟨[again], .inr rfl, ?_, [], ?_⟩
    · rw [Run.answer_of_offered present fate advance]
      simp [pushedTokens, pushed]
    · rw [List.append_nil]
      exact appended.symm
  | again own again after present fate advance =>
    have effect := Automaton.effect_of_step_eq advance
    obtain ⟨lost, split, -⟩ := effect.tokenLabels_of_again
    refine ⟨[], .inl rfl, ?_, lost, ?_⟩
    · rw [Run.answer_of_offered present fate advance]
      simp [pushedTokens]
    · rw [List.map_nil, List.append_nil]
      exact split

/-- What stands on the stack is kept right by a step that deals with a token at hand. -/
theorem standing_of_step (right : ledger.Right automaton origin run) {token : Token}
    (held : run.pending = some token) (stepped : run.step automaton = .running next) :
    (ledger.note automaton run next).start = ledger.start ∧
    (ledger.note automaton run next).standing.map (fun entry => entry.2.leaf.label) =
        next.machine.stack.tokenLabels automaton.grammar ∧
      ∀ entry ∈ (ledger.note automaton run next).standing,
        entry.2.line = origin.lineAt entry.1 := by
  obtain ⟨pushed, kind, answered, lost, split⟩ := right.exists_lost held stepped
  have noted : ledger.note automaton run next =
      { ledger with
        standing := (ledger.standing ++ pushed.map fun token => (ledger.start, token)).take
          (next.machine.stack.tokenLabels automaton.grammar).length } := by
    rw [note, held, ← answered]
  rw [noted]
  refine ⟨rfl, ?_, ?_⟩
  · have labels : (fun entry : Nat × Token => entry.2.leaf.label) ∘
        (fun token => (ledger.start, token)) = fun token => token.leaf.label := rfl
    rw [List.map_take, List.map_append, List.map_map, labels, split, List.take_left]
  · intro entry member
    rcases List.mem_append.mp (List.mem_of_mem_take member) with before | fresh
    · exact right.placed entry before
    · obtain ⟨own, among, rfl⟩ := List.mem_map.mp fresh
      rcases kind with rfl | rfl
      · contradiction
      · rw [List.mem_singleton.mp among]
        exact (right.started token held).2

/-- The token at hand does not stand behind the source, wherever that is moved forward to. -/
theorem line_le (right : ledger.Right automaton origin run) (proper : origin.Proper)
    {token : Token} (held : run.pending = some token) {later : ByteSource}
    (onward : run.source.Ahead later) : token.line ≤ later.line := by
  obtain ⟨behind, line⟩ := right.started token held
  rw [line, (right.ahead.trans onward).line_eq proper]
  exact origin.lineAt_mono (Nat.le_trans behind onward.forward)

/-- The trees are lined up to the token at hand. -/
theorem lined_hand (right : ledger.Right automaton origin run) {token : Token}
    (held : run.pending = some token) : LinedTo token.line run.machine.stack.trees := by
  have lined := right.lined
  rwa [held] at lined

/-- Every step that is noted keeps the ledger right. -/
theorem step (well : automaton.grammar.tables.WellFormed)
    (recoverable : ∀ error ∈ automaton.errorSymbol, error < automaton.grammar.tables.count .symbol)
    (proper : origin.Proper) (right : ledger.Right automaton origin run)
    (stepped : run.step automaton = .running next) :
    (ledger.note automaton run next).Right automaton origin next := by
  have own := right.ahead.proper proper
  have onward := Run.ahead_of_step well recoverable own.inside stepped
  have ahead := right.ahead.trans onward
  cases Run.stepped_of_step stepped with
  | fetched token next empty scanned still held nested moved =>
    have noted : ledger.note automaton run next = { ledger with start := run.source.position } := by
      rw [note, empty]
    have line : token.line = run.source.line := Scan.next_line well recoverable scanned
    have lined := right.lined
    rw [empty, Option.map_none, Option.getD_none, ← line, ← still] at lined
    rw [noted]
    refine ⟨ahead, ?_, still ▸ right.leaves, right.placed, ?_⟩
    · intro found member
      obtain rfl := Option.some.inj (held.symm.trans member)
      exact ⟨onward.forward, line.trans (right.ahead.line_eq proper)⟩
    · rw [held]
      exact lined
  | dropped token depth held fate =>
    obtain ⟨-, leaves, placed⟩ := right.standing_of_step held stepped
    refine ⟨ahead, by simp [Run.drop], leaves, placed, ?_⟩
    exact (right.lined_hand held).mono (right.line_le proper held onward)
  | lineDropped token held fate =>
    obtain ⟨-, leaves, placed⟩ := right.standing_of_step held stepped
    refine ⟨ahead, by simp [Run.drop], leaves, placed, ?_⟩
    exact (right.lined_hand held).mono (right.line_le proper held onward)
  | pushed token again after signal held fate advance pushed =>
    obtain ⟨-, leaves, placed⟩ := right.standing_of_step held stepped
    have effect := Automaton.effect_of_step_eq advance
    refine ⟨ahead, by simp [Run.drop], leaves, placed, ?_⟩
    exact (effect.linedTo (right.lined_hand held)).2.mono (right.line_le proper held onward)
  | again token again after held fate advance =>
    obtain ⟨start, leaves, placed⟩ := right.standing_of_step held stepped
    have effect := Automaton.effect_of_step_eq advance
    obtain ⟨line, lined⟩ := effect.linedTo (right.lined_hand held)
    rw [← line] at lined
    refine ⟨ahead, ?_, leaves, placed, lined⟩
    intro found member
    obtain rfl := Option.some.inj member
    rw [start, line]
    exact right.started token held

end Ledger.Right

/-- A ledger that is right when a run begins is right when it takes its last step. -/
theorem Ledger.Right.of_finish (well : automaton.grammar.tables.WellFormed)
    (recoverable : ∀ error ∈ automaton.errorSymbol, error < automaton.grammar.tables.count .symbol)
    (proper : origin.Proper) (right : ledger.Right automaton origin run) {limit : Nat}
    {result : Except Halt Node} (ended : run.finish automaton limit = some (result, last)) :
    ∃ before, Run.Reaches automaton run before ∧ before.step automaton = .ended result last ∧
      (run.ledger automaton limit ledger).Right automaton origin before := by
  induction limit generalizing run ledger with
  | zero => simp [Run.finish] at ended
  | succ limit inductionHypothesis =>
    unfold Run.finish at ended
    unfold Run.ledger
    cases stepped : run.step automaton with
    | ended own final =>
      obtain ⟨rfl, rfl⟩ : own = result ∧ final = last := by simpa [stepped] using ended
      exact ⟨run, .refl, stepped, right⟩
    | running next =>
      rw [stepped] at ended
      obtain ⟨before, reached, stopped, found⟩ :=
        inductionHypothesis (right.step well recoverable proper stepped) ended
      exact ⟨before, .head stepped reached, stopped, found⟩

/-- Nothing stands on the stack when a parse begins. -/
theorem Ledger.Right.of_begin? {parser : Parser} {trim : Bool} {first : Run ByteSource}
    (proper : origin.Proper) (begun : parser.begin? origin = .ok first) :
    (⟨0, []⟩ : Ledger).Right (parser.automaton trim) origin first := by
  obtain ⟨start, -, rfl⟩ := Parser.begin?_eq_ok.mp begun
  exact ⟨.refl proper.inside, by simp, rfl, by simp, .nil _⟩

/-- A head that cannot be pushed is a fault of the tables, which stand on no line. -/
theorem Automaton.line_of_follow {machine after : Machine} {head : Symbol} {node : Node}
    {error : ParseError}
    (failed : automaton.follow machine head node = (after, .error (.error error))) :
    error.line = none := by
  unfold follow at failed
  split at failed
  · simp at failed
  · simp at failed
  · simp at failed
  · obtain ⟨-, rfl⟩ := by simpa using failed
    rfl

/-- Nor does a reduction fail but by a fault of the tables. -/
theorem Automaton.line_of_reduce {machine after : Machine} {id : RuleId} {lookahead : Token}
    {error : ParseError}
    (failed : automaton.reduce machine id lookahead = (after, .error (.error error))) :
    error.line = none := by
  unfold reduce at failed
  cases planned : automaton.plan id with
  | error defect => simp [planned] at failed
  | ok plan =>
    obtain ⟨rule, head, trimmed⟩ := plan
    rw [planned] at failed
    cases taken : takeBody machine id rule head lookahead trimmed with
    | error fault =>
      obtain ⟨-, rfl⟩ := by simpa [taken] using failed
      rfl
    | ok pair => exact line_of_follow (by simpa only [taken] using failed)

/-- Recovery gives up on the line of the token. -/
theorem Automaton.line_of_recover {machine : Machine} {token : Token} {error : ParseError}
    {line : Nat} (failed : (automaton.recover machine token).result = .error (.error error))
    (lined : error.line = some line) : line = token.line := by
  unfold recover at failed
  cases given : automaton.errorSymbol with
  | none => simp [given] at failed
  | some symbol =>
    rw [given] at failed
    by_cases substituted : token.symbol.id = symbol
    · simp only [substituted, ne_eq, not_true_eq_false, if_false] at failed
      split at failed
      · contradiction
      · obtain rfl := Halt.error.inj (Except.error.inj failed)
        exact (Option.some.inj lined).symm
      · simp at failed
    · simp only [substituted, ne_eq, not_false_eq_true, if_true, substitute] at failed
      split at failed
      · simp at failed
      · contradiction

/-- If the automaton cannot go on and that has a line, it has the line of the token. -/
theorem Automaton.line_of_error {machine : Machine} {token : Token} {error : ParseError}
    {line : Nat} (failed : (automaton.step machine token).result = .error (.error error))
    (lined : error.line = some line) : line = token.line := by
  unfold step at failed
  split at failed
  · simp at failed
  · exact line_of_recover failed lined
  · contradiction
  · contradiction
  · rename_i id _
    rcases reduced : automaton.reduce machine id token with ⟨after, halt | done⟩
    · simp only [reduced, Except.map] at failed
      rw [Except.error.inj failed] at reduced
      rw [line_of_reduce reduced] at lined
      contradiction
    · simp [reduced, Except.map] at failed
  · contradiction
  · simp at failed

/-- A rejection is reported on the line of the token. -/
theorem Automaton.line_of_rejection {state : LalrStateId} {token : Token} {error : ParseError}
    {line : Nat} (rejected : automaton.rejection state token = .error error)
    (lined : error.line = some line) : line = token.line := by
  unfold rejection at rejected
  split at rejected
  · contradiction
  · obtain rfl := Halt.error.inj rejected
    exact (Option.some.inj lined).symm

/-- What stops a run in front of the automaton is reported on the line of the token. -/
theorem Token.line_of_stops {token : Token} {depth line : Nat} {error : ParseError}
    (fate : token.fate depth = .stops error) (lined : error.line = some line) :
    line = token.line := by
  unfold Token.fate at fate
  split at fate
  · split at fate <;> simp at fate
    rw [← fate] at lined
    exact (Option.some.inj lined).symm
  · split at fate <;> simp at fate
    rw [← fate] at lined
    exact (Option.some.inj lined).symm

/-- An error that ends a run and has a line is about the token at hand. -/
theorem Run.Stopped.line_eq (well : automaton.grammar.tables.WellFormed)
    (recoverable : ∀ error ∈ automaton.errorSymbol, error < automaton.grammar.tables.count .symbol)
    {error : ParseError} {line : Nat}
    (stopped : Run.Stopped automaton run (.error (.error error)))
    (lined : error.line = some line) : ∃ token, run.pending = some token ∧ line = token.line := by
  generalize ends : (Except.error (.error error) : Except Halt Node) = result at stopped
  cases stopped with
  | unscanned halt hand failed =>
    obtain ⟨token, scanned⟩ := Scan.next_answers well recoverable .zero run.source
    rw [scanned] at failed
    contradiction
  | stops token own held fate =>
    obtain rfl := Halt.error.inj (Except.error.inj ends)
    exact ⟨token, held, Token.line_of_stops fate lined⟩
  | failed token halt held failed =>
    obtain rfl := Except.error.inj ends
    exact ⟨token, held, Automaton.line_of_error failed lined⟩
  | accepted token held fate listed =>
    cases root : run.machine.root <;> simp [root, Except.mapError] at ends
  | rejected token held unlisted =>
    exact ⟨token, held, Automaton.line_of_rejection (Except.error.inj ends).symm lined⟩

/-- However a parse ends, its ledger is right when it takes its last step. -/
theorem Parser.right_of_parse {parser : Parser} {trim : Bool} {limit : Nat}
    {first : Run ByteSource} {result : Except Halt Node}
    (well : parser.grammar.tables.WellFormed)
    (recoverable : ∀ error ∈ parser.errorSymbol, error < parser.grammar.tables.count .symbol)
    (proper : origin.Proper) (begun : parser.begin? origin = .ok first)
    (parsed : (parser.parse origin trim limit).outcome = Outcome.ofResult result) :
    ∃ before last, Run.Reaches (parser.automaton trim) first before ∧
      before.step (parser.automaton trim) = .ended result last ∧
      (parser.ledger origin trim limit).Right (parser.automaton trim) origin before := by
  obtain ⟨last, ended⟩ := finish_of_parse begun parsed
  obtain ⟨before, reached, stopped, right⟩ :=
    (Ledger.Right.of_begin? proper begun).of_finish well recoverable proper ended
  rw [ledger, begun]
  exact ⟨before, last, reached, stopped, right⟩

/-- By tables that pass validation, with a parser as it is made for its grammar and bytes in memory
from wherever the source stands: the leaves of a tree that stand for tokens are the tokens that
stand on the stack in the end, each on the line where it starts; every branch stands on the line of
its first leaf, and the lines of all leaves, markers included, ascend from left to right. An error
that has a line has that of the start of the last token that was fetched. -/
theorem lines_are_right {tables : Tables} (parser : Parser)
    (accepted : Grammar.ofTables tables = .ok parser.grammar) (made : parser.Made)
    (source : ByteSource) (proper : source.Proper) (trim : Bool) (limit : Nat) :
    (∀ tree, (parser.parse source trim limit).outcome = .done tree →
      tree.tokenLabels parser.grammar =
        (parser.ledger source trim limit).standing.map (fun entry => entry.2.leaf.label) ∧
      (∀ entry ∈ (parser.ledger source trim limit).standing,
        entry.2.line = source.lineAt entry.1) ∧
      (∀ node ∈ tree.preorder,
        ∃ first others, node.leafLabels = first :: others ∧ node.label.line = first.line) ∧
      (tree.leafLabels.map Label.line).Pairwise (· ≤ ·)) ∧
    ∀ error line, (parser.parse source trim limit).outcome = .failed error →
      error.line = some line → line = source.lineAt (parser.ledger source trim limit).start := by
  have well := Grammar.wellFormed_of_ofTables accepted
  have recoverable := made.errorSymbol_lt well
  obtain ⟨first, begun⟩ := Parser.exists_begin? well source
  refine ⟨fun tree parsed => ?_, fun error line parsed lined => ?_⟩
  · have done : (parser.parse source trim limit).outcome = Outcome.ofResult (.ok tree) := parsed
    obtain ⟨before, last, reached, stopped, right⟩ :=
      Parser.right_of_parse well recoverable proper begun done
    obtain ⟨token, -, -, root, -⟩ := Run.accepted_of_step stopped
    have path := StackPath.of_reaches begun reached
    have single := right.lined
    rw [path.trees_root root] at single
    refine ⟨?_, right.placed, single.each tree List.mem_cons_self, ?_⟩
    · rw [right.leaves]
      exact (path.tokenLabels_root root).symm
    · have ascending := single.ascending
      rwa [List.flatMap_singleton] at ascending
  · have failed : (parser.parse source trim limit).outcome =
        Outcome.ofResult (.error (.error error)) := parsed
    obtain ⟨before, last, reached, stopped, right⟩ :=
      Parser.right_of_parse well recoverable proper begun failed
    obtain ⟨token, held, same⟩ :=
      (Run.stopped_of_step stopped).line_eq well recoverable lined
    exact same.trans (right.started token held).2

open Sums in
/-- A sum over three lines has a leaf on each of them; without its last number, the number is missed
on the second line. -/
theorem lines_are_right_of_sum :
    Grammar.ofTables tables = .ok grammar ∧ (Parser.ofGrammar grammar).Made ∧
      (ByteSource.ofBytes #[49, 10, 43, 10, 50]).Proper ∧
      (∃ tree, ((Parser.ofGrammar grammar).parse
          (ByteSource.ofBytes #[49, 10, 43, 10, 50]) true 40).outcome = .done tree ∧
        tree.tokenLabels grammar =
          [⟨Symbols.number, "Num", 1, some "1"⟩, ⟨Symbols.plus, "+", 2, some "+"⟩,
            ⟨Symbols.number, "Num", 3, some "2"⟩] ∧
        (tree.leafLabels.map Label.line).Pairwise (· ≤ ·)) ∧
      ∃ error, ((Parser.ofGrammar grammar).parse
          (ByteSource.ofBytes #[49, 10, 43]) true 40).outcome = .failed error ∧
        error.line = some 2 ∧
        2 = (ByteSource.ofBytes #[49, 10, 43]).lineAt 3 := by
  have made : (Parser.ofGrammar grammar).Made := .strict rfl
  have proper := ByteSource.proper_ofBytes
  refine ⟨ofTables_tables, made, proper _, ?_, ?_⟩
  · have parsed : ∃ tree, ((Parser.ofGrammar grammar).parse
        (ByteSource.ofBytes #[49, 10, 43, 10, 50]) true 40).outcome = .done tree := ⟨_, rfl⟩
    have standing : (((Parser.ofGrammar grammar).ledger
        (ByteSource.ofBytes #[49, 10, 43, 10, 50]) true 40).standing.map
          fun entry => entry.2.leaf.label) =
        [⟨Symbols.number, "Num", 1, some "1"⟩, ⟨Symbols.plus, "+", 2, some "+"⟩,
          ⟨Symbols.number, "Num", 3, some "2"⟩] := by
      decide +kernel
    obtain ⟨tree, parsed⟩ := parsed
    obtain ⟨leaves, -, -, ascending⟩ := (lines_are_right (Parser.ofGrammar grammar)
      ofTables_tables made _ (proper _) true 40).1 tree parsed
    exact ⟨tree, parsed, leaves.trans standing, ascending⟩
  · have failed : ∃ expected, ((Parser.ofGrammar grammar).parse
        (ByteSource.ofBytes #[49, 10, 43]) true 40).outcome =
          .failed (.unexpected 2 "EOF" expected) := ⟨_, rfl⟩
    have start : ((Parser.ofGrammar grammar).ledger
        (ByteSource.ofBytes #[49, 10, 43]) true 40).start = 3 := by decide +kernel
    obtain ⟨expected, failed⟩ := failed
    have line := (lines_are_right (Parser.ofGrammar grammar) ofTables_tables made _ (proper _)
      true 40).2 _ 2 failed rfl
    exact ⟨_, failed, rfl, start ▸ line⟩

end TableDriven
