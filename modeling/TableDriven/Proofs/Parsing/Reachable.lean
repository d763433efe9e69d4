import Mathlib.Logic.Relation
import TableDriven.Parsing.Parser
import TableDriven.Proofs.Parsing.Steps
import TableDriven.Reporting.Transcript

/-!
# What a run can get to

A run gets to another by finitely many steps. It ends exactly if it gets to a
run whose next step is the last, so whatever every step keeps holds when a parse
ends. Most steps of a run do not touch the machine; those that do are answered
steps of the automaton, and a property of machines that these keep is kept by
the whole run.

The answers of the automaton in a run are recorded with the tokens they were given
to, as they stood after the answer.
-/

namespace TableDriven

/-- Restating a defect does not make a tree. -/
theorem Machine.root_of_mapError {machine : Machine} {tree : Node}
    (rooted : machine.root.mapError Halt.defect = .ok tree) : machine.root = .ok tree := by
  cases root : machine.root with
  | error defect =>
    rw [root] at rooted
    contradiction
  | ok found =>
    rw [root] at rooted
    exact congrArg Except.ok (Except.ok.inj rooted)

namespace Run

variable {σ : Type} [Source σ] {automaton : Automaton}

/-- Finitely many steps lead from one run to the other. -/
def Reaches (automaton : Automaton) : Run σ → Run σ → Prop :=
  Relation.ReflTransGen fun run next => run.step automaton = .running next

/-- The answer that the next step gets from the automaton, if it offers a token and
gets one. -/
def answer? (automaton : Automaton) (run : Run σ) : Option (Token × Signal) :=
  match run.pending with
  | none => none
  | some token =>
    if run.commentDepth = 0 ∧ token.symbol.kind.isOffered then
      match automaton.step run.machine token with
      | ⟨_, after, .ok signal⟩ => some (after, signal)
      | ⟨_, _, .error _⟩ => none
    else none

/-- The answers that a run gets until it ends or the limit is reached. -/
def answers (automaton : Automaton) : Nat → Run σ → List (Token × Signal)
  | 0, _ => []
  | limit + 1, run =>
    (run.answer? automaton).toList ++
      match run.step automaton with
      | .running next => answers automaton limit next
      | .ended _ _ => []

/-- Every answer that a run gets is had in a step that the run gets to. -/
theorem reaches_of_mem_answers {limit : Nat} {run : Run σ} {answer : Token × Signal}
    (member : answer ∈ run.answers automaton limit) :
    ∃ next, Reaches automaton run next ∧ next.answer? automaton = some answer := by
  induction limit generalizing run with
  | zero => exact absurd member List.not_mem_nil
  | succ limit inductionHypothesis =>
    unfold answers at member
    rcases List.mem_append.mp member with now | later
    · exact ⟨run, .refl, Option.mem_toList.mp now⟩
    · cases stepped : run.step automaton with
      | ended result last =>
        rw [stepped] at later
        exact absurd later List.not_mem_nil
      | running next =>
        rw [stepped] at later
        obtain ⟨last, reached, answered⟩ := inductionHypothesis later
        exact ⟨last, .head stepped reached, answered⟩

/-- A run that ended got to its last step. -/
theorem reaches_of_finish {limit : Nat} {run last : Run σ} {result : Except Halt Node}
    (ended : run.finish automaton limit = some (result, last)) :
    ∃ before, Reaches automaton run before ∧ before.step automaton = .ended result last := by
  induction limit generalizing run with
  | zero => simp [finish] at ended
  | succ limit inductionHypothesis =>
    unfold finish at ended
    cases stepped : run.step automaton with
    | ended own after =>
      obtain ⟨rfl, rfl⟩ : own = result ∧ after = last := by simpa [stepped] using ended
      exact ⟨run, .refl, stepped⟩
    | running next =>
      rw [stepped] at ended
      obtain ⟨before, reached, stopped⟩ := inductionHypothesis ended
      exact ⟨before, .head stepped reached, stopped⟩

/-- A run that gets to a last step ends, given enough steps. -/
theorem finish_of_reaches {run before last : Run σ} {result : Except Halt Node}
    (reached : Reaches automaton run before)
    (stopped : before.step automaton = .ended result last) :
    ∃ limit, run.finish automaton limit = some (result, last) := by
  induction reached using Relation.ReflTransGen.head_induction_on with
  | refl => exact ⟨1, by simp [finish, stopped]⟩
  | head stepped _ inductionHypothesis =>
    obtain ⟨limit, ended⟩ := inductionHypothesis
    exact ⟨limit + 1, by simp [finish, stepped, ended]⟩

/-- What a step that does not end a run does to its machine: nothing, or what an
answered step of the automaton does on the token at hand. A shifted token is
used up; otherwise the token is at hand again as the automaton left it. -/
inductive Moved (automaton : Automaton) (run next : Run σ) : Prop where
  | still (same : next.machine = run.machine)
  | taken (token after : Token) (signal : Signal) (offered : run.pending = some token)
      (pushed : signal = .shift ∨ signal = .goto)
      (effect : automaton.Effect run.machine token next.machine after signal)
      (used : next = { run.drop with machine := next.machine })
  | again (token after : Token) (offered : run.pending = some token)
      (effect : automaton.Effect run.machine token next.machine after .reduce)
      (kept : next = { run with machine := next.machine, pending := some after })

/-- Every step that does not end a run is of this kind. -/
theorem moved_of_step {run next : Run σ} (stepped : run.step automaton = .running next) :
    Moved automaton run next := by
  cases stepped_of_step stepped with
  | fetched token next empty scanned still => exact .still still
  | dropped => exact .still rfl
  | lineDropped => exact .still rfl
  | pushed token again after signal held fate advance pushed =>
    exact .taken token again signal held pushed (Automaton.effect_of_step_eq advance) rfl
  | again token again after held fate advance =>
    exact .again token again held (Automaton.effect_of_step_eq advance) rfl

/-- What every answered step of the automaton keeps of a machine is kept by a
run. -/
theorem invariant_of_reaches (property : Machine → Prop) {first last : Run σ}
    (kept : ∀ machine token after next signal,
      automaton.Effect machine token after next signal → property machine → property after)
    (reached : Reaches automaton first last) (holds : property first.machine) :
    property last.machine := by
  induction reached with
  | refl => exact holds
  | tail _ stepped inductionHypothesis =>
    cases moved_of_step stepped with
    | still same => exact same ▸ inductionHypothesis
    | taken token after signal _ _ effect => exact kept _ _ _ _ _ effect inductionHypothesis
    | again token after _ effect => exact kept _ _ _ _ _ effect inductionHypothesis

/-- A run that ends with a tree was offered a token that is accepted, and the
tree is the root of its machine. -/
theorem accepted_of_step {run last : Run σ} {tree : Node}
    (stopped : run.step automaton = .ended (.ok tree) last) :
    ∃ token, run.pending = some token ∧
      automaton.grammar.actionOn run.machine.state token.symbol.id = .ok (some .accept) ∧
      run.machine.root = .ok tree ∧ last = run := by
  generalize found : Except.ok tree = result at stopped
  cases stopped_of_step stopped with
  | unscanned => contradiction
  | stops => contradiction
  | failed => contradiction
  | accepted token held fate listed =>
    have advance := Automaton.step_eq_of_effect (Automaton.Effect.accept listed)
    obtain ⟨-, rfl⟩ := Progress.ended.inj ((step_of_offered held fate advance).symm.trans stopped)
    exact ⟨token, held, listed, Machine.root_of_mapError found.symm, rfl⟩
  | rejected => contradiction

end Run

namespace Parser

variable {σ : Type} [Source σ]

/-- The answers that a parse gets until it ends or the limit is reached. -/
def answers (parser : Parser) (source : σ) (trim : Bool) (limit : Nat) : List (Token × Signal) :=
  match parser.begin? source with
  | .error _ => []
  | .ok run => run.answers (parser.automaton trim) limit

/-- A parse that ends with a tree or an error was a run that ended so, and settles what that run
left behind. -/
theorem finish_of_returned {parser : Parser} {source : σ} {trim : Bool} {limit : Nat}
    (returned : (∃ tree, (parser.parse source trim limit).outcome = .done tree) ∨
      ∃ error, (parser.parse source trim limit).outcome = .failed error) :
    ∃ first result last, parser.begin? source = .ok first ∧
      first.finish (parser.automaton trim) limit = some (result, last) ∧
      parser.parse source trim limit =
        ⟨Outcome.ofResult result, parser.settle last, last.source⟩ := by
  unfold parse at returned ⊢
  cases begun : parser.begin? source with
  | error defect => simp [begun] at returned
  | ok first =>
    simp only [begun] at returned ⊢
    cases ended : first.finish (parser.automaton trim) limit with
    | none => simp [ended] at returned
    | some pair =>
      obtain ⟨(_ | _) | tree, last⟩ := pair
      · exact ⟨first, _, last, rfl, ended, rfl⟩
      · simp [ended, Outcome.ofResult] at returned
      · exact ⟨first, _, last, rfl, ended, rfl⟩

/-- A parse that ends with a tree was a run that ended with it. -/
theorem finish_of_parse_eq_done {parser : Parser} {source : σ} {trim : Bool} {limit : Nat}
    {tree : Node} (parsed : (parser.parse source trim limit).outcome = .done tree) :
    ∃ first last, parser.begin? source = .ok first ∧
      first.finish (parser.automaton trim) limit = some (.ok tree, last) ∧
      parser.parse source trim limit = ⟨.done tree, parser.settle last, last.source⟩ := by
  obtain ⟨first, result, last, begun, ended, settled⟩ := finish_of_returned (.inl ⟨tree, parsed⟩)
  rw [settled] at parsed
  obtain rfl : result = .ok tree := by
    rcases result with (error | defect) | found <;> simp [Outcome.ofResult] at parsed ⊢
    exact parsed
  exact ⟨first, last, begun, ended, settled⟩

/-- A parse that ends with a tree was a run that got to an accepted token, and it settles what
that run left behind. -/
theorem reaches_of_parse_eq_done {parser : Parser} {source : σ} {trim : Bool} {limit : Nat}
    {tree : Node} (parsed : (parser.parse source trim limit).outcome = .done tree) :
    ∃ first last, parser.begin? source = .ok first ∧
      Run.Reaches (parser.automaton trim) first last ∧
      last.step (parser.automaton trim) = .ended (.ok tree) last ∧
      parser.parse source trim limit = ⟨.done tree, parser.settle last, last.source⟩ := by
  obtain ⟨first, last, begun, ended, settled⟩ := finish_of_parse_eq_done parsed
  obtain ⟨before, reached, stopped⟩ := Run.reaches_of_finish ended
  obtain ⟨-, -, -, -, rfl⟩ := Run.accepted_of_step stopped
  exact ⟨first, last, begun, reached, stopped, settled⟩

omit [Source σ] in
/-- A parse of a grammar whose start symbol exists begins with the start entry
alone on the stack. -/
theorem begin?_eq_ok {parser : Parser} {source : σ} {first : Run σ} :
    parser.begin? source = .ok first ↔
      ∃ start, parser.grammar.symbol parser.grammar.tables.startSymbol = .ok start ∧
        first = { machine := ⟨parser.grammar.tables.lalrInitial,
                    [startEntry parser.grammar start], parser.stats.steps⟩
                  source
                  scanned := .zero
                  fetched := parser.stats.tokens
                  pending := none
                  commentDepth := 0 } := by
  unfold begin?
  dsimp only
  cases parser.grammar.symbol parser.grammar.tables.startSymbol <;> simp [Except.map, eq_comm]

omit [Source σ] in
/-- Every parse of a well-formed grammar begins. -/
theorem exists_begin? {parser : Parser} (well : parser.grammar.tables.WellFormed) (source : σ) :
    ∃ first, parser.begin? source = .ok first := by
  obtain ⟨start, named⟩ := Grammar.symbol_of_lt well.startSymbol
  exact ⟨_, begin?_eq_ok.mpr ⟨start, named, rfl⟩⟩

end Parser

end TableDriven
