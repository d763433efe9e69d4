import TableDriven.Proofs.Parsing.Validated

/-!
# Parses on one parser are independent

A parser is kept from one input to the next, and what it was used for shows in its state, its
stack and its totals. A parse reads none of them. State and stack are set up anew, and the totals
are only added to: a run that begins with some totals does, step by step, what the same run does
that begins with none, and is ahead of it by what it began with. So two parsers for one grammar
that recover alike make the same of a source, and both count the same on the way.
-/

namespace TableDriven

/-- Add up totals. -/
def StepTally.add (earlier later : StepTally) : StepTally :=
  ⟨earlier.shifts + later.shifts, earlier.reductions + later.reductions,
    earlier.trims + later.trims, earlier.recoveries + later.recoveries⟩

/-- Add up totals. -/
def ParserStats.add (earlier later : ParserStats) : ParserStats :=
  ⟨earlier.tokens + later.tokens, earlier.steps.add later.steps, earlier.scans.add later.scans⟩

/-- A machine that is ahead by what was counted earlier. -/
def Machine.credit (earlier : StepTally) (machine : Machine) : Machine :=
  { machine with tally := earlier.add machine.tally }

/-- A step of a machine that is ahead. -/
def Advance.credit (earlier : StepTally) (advance : Advance) : Advance :=
  { advance with machine := advance.machine.credit earlier }

namespace Automaton

variable (automaton : Automaton) (earlier : StepTally) (machine : Machine)

/-- Taking a body off the stack reads no totals. -/
theorem takeBody_credit (id : RuleId) (rule : Rule) (head : Symbol) (lookahead : Token)
    (trimmed : Bool) :
    takeBody (machine.credit earlier) id rule head lookahead trimmed =
      (takeBody machine id rule head lookahead trimmed).map fun (node, below) =>
        (node, below.credit earlier) := by
  unfold takeBody
  rw [show (machine.credit earlier).stack = machine.stack from rfl]
  cases rule.body.length with
  | zero => rfl
  | succ length =>
    dsimp only
    cases machine.stack.takeHandle? (length + 1) with
    | none => rfl
    | some taken =>
      obtain ⟨handle, rest⟩ := taken
      dsimp only
      cases handleNodes id handle with
      | error fault => rfl
      | ok children =>
        simp only [Except.map, Machine.credit, StepTally.add, Nat.add_assoc]

/-- Following a transition reads no totals. -/
theorem follow_credit (head : Symbol) (node : Node) :
    automaton.follow (machine.credit earlier) head node =
      ((automaton.follow machine head node).1.credit earlier,
        (automaton.follow machine head node).2) := by
  unfold follow
  rw [show (machine.credit earlier).state = machine.state from rfl]
  rcases automaton.grammar.actionOn machine.state head.id with
    defect | _ | (target | target | id | _ | _) <;> rfl

/-- Reducing reads no totals. -/
theorem reduce_credit (id : RuleId) (lookahead : Token) :
    automaton.reduce (machine.credit earlier) id lookahead =
      ((automaton.reduce machine id lookahead).1.credit earlier,
        (automaton.reduce machine id lookahead).2) := by
  unfold reduce
  cases automaton.plan id with
  | error defect => rfl
  | ok planned =>
    obtain ⟨rule, head, trimmed⟩ := planned
    dsimp only
    rw [takeBody_credit]
    cases takeBody machine id rule head lookahead trimmed with
    | error fault => rfl
    | ok taken =>
      obtain ⟨node, below⟩ := taken
      exact automaton.follow_credit earlier below head node

/-- Recovering reads no totals. -/
theorem recover_credit (token : Token) :
    automaton.recover (machine.credit earlier) token =
      (automaton.recover machine token).credit earlier := by
  unfold recover
  cases automaton.errorSymbol with
  | none => rfl
  | some error =>
    dsimp only
    by_cases ordinary : token.symbol.id ≠ error
    · rw [if_pos ordinary, if_pos ordinary]
      unfold substitute
      cases automaton.grammar.errorTerminal error <;> rfl
    · rw [if_neg ordinary, if_neg ordinary]
      rfl

/-- No step reads totals. -/
theorem step_credit (token : Token) :
    automaton.step (machine.credit earlier) token =
      (automaton.step machine token).credit earlier := by
  unfold step
  rw [show (machine.credit earlier).state = machine.state from rfl]
  rcases automaton.grammar.actionOn machine.state token.symbol.id with
    defect | _ | (target | target | id | _ | _)
  · rfl
  · exact automaton.recover_credit earlier machine token
  · rfl
  · rfl
  · dsimp only
    rw [reduce_credit]
    rfl
  · rfl
  · rfl

end Automaton

/-- A run that is ahead by what was counted earlier. The totals of its scans are its own. -/
def Run.credit {σ : Type} (earlier : ParserStats) (run : Run σ) : Run σ :=
  { run with
    machine := run.machine.credit earlier.steps
    fetched := earlier.tokens + run.fetched }

/-- The progress of a run that is ahead. -/
def Progress.credit {σ : Type} (earlier : ParserStats) : Progress σ → Progress σ
  | .running run => .running (run.credit earlier)
  | .ended result last => .ended result (last.credit earlier)

namespace Run

variable {σ : Type} (automaton : Automaton) (earlier : ParserStats) (run : Run σ)

/-- Offering a token reads no totals. -/
theorem offer_credit (token : Token) :
    (run.credit earlier).offer automaton token =
      (run.offer automaton token).credit earlier := by
  unfold offer
  rw [show (run.credit earlier).machine = run.machine.credit earlier.steps from rfl,
    Automaton.step_credit]
  dsimp only [Advance.credit]
  cases (automaton.step run.machine token).result with
  | error halt => rfl
  | ok signal => cases signal <;> rfl

variable [Source σ]

/-- No step of a run reads totals. -/
theorem step_credit :
    (run.credit earlier).step automaton = (run.step automaton).credit earlier := by
  unfold step
  rw [show (run.credit earlier).pending = run.pending from rfl,
    show (run.credit earlier).commentDepth = run.commentDepth from rfl]
  cases run.pending with
  | none =>
    dsimp only [fetch]
    rw [show (run.credit earlier).source = run.source from rfl,
      show (run.credit earlier).scanned = run.scanned from rfl]
    cases (Scan.next automaton.grammar automaton.errorSymbol run.scanned run.source).result <;> rfl
  | some token =>
    by_cases outside : run.commentDepth = 0
    · simp only [if_pos outside]
      unfold outsideComment
      cases token.symbol.kind with
      | whitespace => rfl
      | commentStart => rfl
      | commentLine => rfl
      | error => rfl
      | endOfInput => exact offer_credit automaton earlier run token
      | terminal => exact offer_credit automaton earlier run token
      | nonterminal => exact offer_credit automaton earlier run token
      | commentEnd => exact offer_credit automaton earlier run token
    · simp only [if_neg outside]
      unfold insideComment
      cases token.symbol.kind <;> rfl

/-- A run that is ahead ends where and as the same run does that is not. -/
theorem finish_credit (limit : Nat) :
    (run.credit earlier).finish automaton limit =
      (run.finish automaton limit).map fun (result, last) => (result, last.credit earlier) := by
  induction limit generalizing run with
  | zero => rfl
  | succ limit inductionHypothesis =>
    unfold finish
    rw [step_credit]
    cases run.step automaton with
    | running next => exact inductionHypothesis next
    | ended result last => rfl

end Run

namespace Parser

/-- A parser as it is before it has been used for anything. -/
def unused (parser : Parser) : Parser :=
  { parser with
    state := parser.grammar.tables.lalrInitial
    stack := []
    stats := ⟨0, .zero, .zero⟩ }

/-- What a parse begins with, but for the totals, is set up anew. -/
theorem begin?_unused {σ : Type} (parser : Parser) (source : σ) :
    parser.begin? source = (parser.unused.begin? source).map (Run.credit parser.stats) := by
  unfold begin?
  dsimp only [unused]
  cases parser.grammar.symbol parser.grammar.tables.startSymbol <;> rfl

variable {σ : Type} [Source σ]

/-- A parse makes of a source what it would make of it if the parser had not been used, and
adds to the totals what it would have counted then. -/
theorem parse_unused (parser : Parser) (source : σ) (trim : Bool) (limit : Nat) :
    (parser.parse source trim limit).outcome = (parser.unused.parse source trim limit).outcome ∧
    (parser.parse source trim limit).source = (parser.unused.parse source trim limit).source ∧
    (parser.parse source trim limit).parser.stats =
      parser.stats.add (parser.unused.parse source trim limit).parser.stats := by
  unfold parse
  rw [begin?_unused parser source]
  cases parser.unused.begin? source with
  | error defect => exact ⟨rfl, rfl, rfl⟩
  | ok first =>
    dsimp only [Except.map]
    rw [Run.finish_credit]
    rw [show parser.unused.automaton trim = parser.automaton trim from rfl]
    cases first.finish (parser.automaton trim) limit with
    | none => exact ⟨rfl, rfl, rfl⟩
    | some ended =>
      -- The totals of scans are none of a run's totals. They are added when it has ended, unless
      -- it ended with a defect.
      obtain ⟨(_ | _) | tree, last⟩ := ended
      · refine ⟨rfl, rfl, ?_⟩
        simp [settle, unused, ParserStats.add, ScanTally.add, ScanTally.zero, Run.credit,
          Machine.credit]
      · exact ⟨rfl, rfl, rfl⟩
      · refine ⟨rfl, rfl, ?_⟩
        simp [settle, unused, ParserStats.add, ScanTally.add, ScanTally.zero, Run.credit,
          Machine.credit]

/-- A parse that ends with a tree or an error leaves an empty stack. -/
theorem stack_of_returned {parser : Parser} {source : σ} {trim : Bool} {limit : Nat}
    (returned : (∃ tree, (parser.parse source trim limit).outcome = .done tree) ∨
      ∃ error, (parser.parse source trim limit).outcome = .failed error) :
    (parser.parse source trim limit).parser.stack = [] := by
  obtain ⟨first, result, last, -, -, settled⟩ := finish_of_returned returned
  rw [settled]
  rfl

end Parser

/-- Two parsers for one grammar that recover alike, whatever they have been used for and however
that ended, make the same of a source: the same outcome within the same limits, the source left
at the same place, and the same added to all totals. When a parse ends with a tree or an error,
nothing is left on the stack. -/
theorem parses_are_independent {σ : Type} [Source σ] (one other : Parser)
    (sameGrammar : other.grammar = one.grammar)
    (sameRecovery : other.errorSymbol = one.errorSymbol) (source : σ) (trim : Bool)
    (limit : Nat) :
    (other.parse source trim limit).outcome = (one.parse source trim limit).outcome ∧
    (other.parse source trim limit).source = (one.parse source trim limit).source ∧
    (∃ increase : ParserStats,
      (one.parse source trim limit).parser.stats = one.stats.add increase ∧
      (other.parse source trim limit).parser.stats = other.stats.add increase) ∧
    ((∃ tree, (one.parse source trim limit).outcome = .done tree) ∨
        (∃ error, (one.parse source trim limit).outcome = .failed error) →
      (one.parse source trim limit).parser.stack = [] ∧
        (other.parse source trim limit).parser.stack = []) := by
  have same : other.unused = one.unused := by
    unfold Parser.unused
    rw [sameGrammar, sameRecovery]
  obtain ⟨outcome, left, counted⟩ := one.parse_unused source trim limit
  obtain ⟨again, place, added⟩ := other.parse_unused source trim limit
  rw [same, ← outcome] at again
  rw [same, ← left] at place
  rw [same] at added
  refine ⟨again, place, ⟨_, counted, added⟩, fun returned => ?_⟩
  refine ⟨Parser.stack_of_returned returned, Parser.stack_of_returned ?_⟩
  rwa [again]

open Hasty in
/-- A parser that was abandoned over a defect, with two entries on its stack, makes of nothing what
an unused one makes of it, and counts one more token. -/
theorem parses_are_independent_of_abandoned :
    ∃ used : Parser, used.stack.length = 2 ∧ used.stats.tokens = 3 ∧
      used.grammar = (Parser.ofGrammar grammar).grammar ∧
      used.errorSymbol = (Parser.ofGrammar grammar).errorSymbol ∧
      (used.parse (ByteSource.ofBytes #[]) false 2).outcome = .broken .acceptDepth ∧
      (used.parse (ByteSource.ofBytes #[]) false 2).parser.stats.tokens = 4 := by
  obtain ⟨used, abandoned⟩ : ∃ used, used =
      ((Parser.ofGrammar grammar).parse (ByteSource.ofBytes #[110, 110]) false 6).parser :=
    ⟨_, rfl⟩
  have left : used.stack.length = 2 ∧ used.stats.tokens = 3 ∧
      used.grammar = (Parser.ofGrammar grammar).grammar ∧
      used.errorSymbol = (Parser.ofGrammar grammar).errorSymbol := by
    subst abandoned
    exact ⟨rfl, rfl, rfl, rfl⟩
  obtain ⟨stacked, counted, sameGrammar, sameRecovery⟩ := left
  obtain ⟨same, -, ⟨increase, first, second⟩, -⟩ :=
    parses_are_independent (Parser.ofGrammar grammar) used sameGrammar sameRecovery
      (ByteSource.ofBytes #[]) false 2
  have broken : ((Parser.ofGrammar grammar).parse (ByteSource.ofBytes #[]) false 2).outcome =
      .broken .acceptDepth := rfl
  have fetched : increase.tokens = 1 := by
    have total : ((Parser.ofGrammar grammar).parse
        (ByteSource.ofBytes #[]) false 2).parser.stats.tokens = 1 := rfl
    rw [first] at total
    exact (Nat.zero_add _).symm.trans total
  refine ⟨used, stacked, counted, sameGrammar, sameRecovery, same.trans broken, ?_⟩
  rw [second, ParserStats.add, counted, fetched]

end TableDriven
