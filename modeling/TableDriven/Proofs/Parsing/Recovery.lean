import TableDriven.Proofs.Lexing.Unrecognized
import TableDriven.Proofs.Parsing.Safety
import TableDriven.Proofs.Parsing.Yields

/-!
# Recovery leaves an accepted input alone

A parse that ends with a tree although it reports the first error has met none. The
automaton had an action for every token, and where it has one the error terminal is
not looked at. Nor did any token mark text that is no token, so outside comments the
same tokens are scanned with an error terminal. A parse that recovers goes through the
same machines and ends with the same tree.

The exception are block comments. What is dropped there may differ, and so may the
token that closes the comment. So the two parses are compared where no comment is
open: from one such place to the next they take the same step, or get through the same
comment in steps of their own. It is assumed that each comment is closed at the same
byte with the error terminal as without; a grammar shows that this can fail.
-/

namespace TableDriven

/-- Whether a parse recovers makes no difference where the automaton has an action. -/
theorem Automaton.Effect.of_strict {automaton : Automaton} {machine after : Machine}
    {token next : Token} {signal : Signal} (errorSymbol : Option SymbolId)
    (strict : automaton.errorSymbol = none) (answered : signal ≠ .reject)
    (effect : automaton.Effect machine token after next signal) :
    { automaton with errorSymbol }.Effect machine token after next signal := by
  cases effect with
  | shift target listed => exact .shift target listed
  | goto target listed => exact .goto target listed
  | reduce id after listed reduced =>
    obtain ⟨rule, head, trimmed, node, below, target, planned, taken, moved⟩ := reduced
    refine .reduce id _ listed ?_
    exact .intro rule head trimmed node below target planned taken moved
  | substitute error symbol unlisted recovers => simp [strict] at recovers
  | unwind error state stack unlisted recovers => simp [strict] at recovers
  | accept listed => exact .accept listed
  | reject => exact absurd rfl answered

/-- A step that rejects nothing is the same with recovery as without. -/
theorem Automaton.step_of_strict {automaton : Automaton} {machine after : Machine}
    {token next : Token} {signal : Signal} (errorSymbol : Option SymbolId)
    (strict : automaton.errorSymbol = none) (answered : signal ≠ .reject)
    (stepped : automaton.step machine token = ⟨after, next, .ok signal⟩) :
    { automaton with errorSymbol }.step machine token = ⟨after, next, .ok signal⟩ :=
  step_eq_of_effect ((effect_of_step_eq stepped).of_strict errorSymbol strict answered)

/-- A parse that does not recover counts no recoveries. -/
theorem Automaton.Effect.recoveries_of_strict {automaton : Automaton} {machine after : Machine}
    {token next : Token} {signal : Signal} (strict : automaton.errorSymbol = none)
    (effect : automaton.Effect machine token after next signal) :
    after.tally.recoveries = machine.tally.recoveries := by
  cases effect with
  | shift => rfl
  | goto => rfl
  | reduce id after listed reduced =>
    obtain ⟨rule, head, trimmed, node, below, target, planned, taken, moved⟩ := reduced
    cases taken with
    | empty => rfl
    | handle => rfl
  | substitute error symbol unlisted recovers => simp [strict] at recovers
  | unwind error state stack unlisted recovers => simp [strict] at recovers
  | accept => rfl
  | reject => rfl

namespace Token

variable {token : Token} {depth : Nat}

/-- Inside a block comment the closing token leaves no comment open. -/
theorem fate_of_commentEnd (inside : depth ≠ 0) (closing : token.symbol.kind = .commentEnd) :
    token.fate depth = .dropped 0 := by
  rw [fate, if_neg inside, closing]

/-- Inside a block comment the end of the input is an error. -/
theorem fate_of_endOfInput (inside : depth ≠ 0) (last : token.symbol.kind = .endOfInput) :
    token.fate depth = .stops (.unterminatedComment token.line) := by
  rw [fate, if_neg inside, last]

/-- Inside a block comment any other token is dropped and leaves the comment open. -/
theorem fate_of_commented (inside : depth ≠ 0) (ordinary : token.symbol.kind ≠ .commentEnd)
    (more : token.symbol.kind ≠ .endOfInput) :
    ∃ after, token.fate depth = .dropped after ∧ after ≠ 0 := by
  rw [fate, if_neg inside]
  cases kind : token.symbol.kind with
  | commentEnd => exact absurd kind ordinary
  | endOfInput => exact absurd kind more
  | commentStart => exact ⟨depth + 1, rfl, Nat.succ_ne_zero depth⟩
  | _ => exact ⟨depth, rfl, inside⟩

end Token

namespace Run

variable {σ : Type} [Source σ] {automaton : Automaton} {run next other last : Run σ}
  {errorSymbol : Option SymbolId} {tree : Node}

/-- Two runs that stand at the same place and have done the same with their machines.
They may have scanned different tokens inside comments. -/
structure Alike (run other : Run σ) : Prop where
  machine : other.machine = run.machine
  source : other.source = run.source
  pending : other.pending = run.pending
  commentDepth : other.commentDepth = run.commentDepth

/-- A run gets to a step that ends it with a tree, and then has some machine. -/
def Succeeds (automaton : Automaton) (run : Run σ) (tree : Node) (machine : Machine) : Prop :=
  ∃ last, Reaches automaton run last ∧ last.step automaton = .ended (.ok tree) last ∧
    last.machine = machine

/-- A run succeeds as the run after its next step does. -/
theorem Succeeds.head {machine : Machine} (stepped : run.step automaton = .running next)
    (succeeds : Succeeds automaton next tree machine) : Succeeds automaton run tree machine := by
  obtain ⟨last, reached, stopped, same⟩ := succeeds
  exact ⟨last, .head stepped reached, stopped, same⟩

/-- From a place inside a block comment that is closed a run gets to behind the
closing, without moving its machine. Induct on the tokens inside the comment. -/
theorem reaches_of_closes {source after : σ}
    (closes : Scan.Closes automaton.grammar automaton.errorSymbol source after) :
    ∀ run : Run σ, run.pending = none → run.commentDepth ≠ 0 → run.source = source →
      ∃ outside, Reaches automaton run outside ∧ outside.machine = run.machine ∧
        outside.source = after ∧ outside.pending = none ∧ outside.commentDepth = 0 := by
  induction closes with
  | @closed source token scanned closing =>
    rintro run empty inside rfl
    obtain ⟨next, stepped, still, held, nested, moved⟩ := step_of_scan empty scanned
    have fate := Token.fate_of_commentEnd (nested.symm ▸ inside) closing
    have dropped := step_of_fate automaton held
    rw [fate] at dropped
    exact ⟨_, .head stepped (.single dropped), still, moved, rfl, rfl⟩
  | @skipped source after token scanned ordinary more rest inductionHypothesis =>
    rintro run empty inside rfl
    obtain ⟨next, stepped, still, held, nested, moved⟩ := step_of_scan empty scanned
    obtain ⟨depth, fate, deep⟩ := Token.fate_of_commented (nested.symm ▸ inside) ordinary more
    have dropped := step_of_fate automaton held
    rw [fate] at dropped
    obtain ⟨outside, reached, same, stands⟩ :=
      inductionHypothesis { next.drop with commentDepth := depth } rfl deep moved
    exact ⟨outside, .head stepped (.head dropped reached), same.trans still, stands⟩

/-- A run that will end with a tree does not end with an error in the next step. -/
theorem EndsWith.not_error {error : Halt} (ends : EndsWith automaton run (.ok tree))
    (stopped : run.step automaton = .ended (.error error) last) : False := by
  have again : EndsWith automaton run (.error error) := ⟨run, last, .refl, stopped⟩
  have same := ends.unique again
  contradiction

/-- Outside comments a parse with an error terminal takes the same step as one without
that will end with a tree. -/
theorem Alike.step (errorSymbol : Option SymbolId) (strict : automaton.errorSymbol = none)
    (marked : automaton.grammar.lexicalError.kind = .error) (alike : Alike run other)
    (outside : run.commentDepth = 0) (stepped : run.step automaton = .running next)
    (ends : EndsWith automaton next (.ok tree)) :
    ∃ after, other.step { automaton with errorSymbol } = .running after ∧ Alike next after := by
  obtain ⟨machine, source, pending, depth⟩ := alike
  cases stepped_of_step stepped with
  | fetched token next empty scanned still found nested moved =>
    rw [strict] at scanned moved
    rcases Scan.next_agrees errorSymbol scanned with same | unlisted
    · rw [← same] at scanned moved
      rw [← source] at scanned moved
      have yielded : (Scan.next { automaton with errorSymbol }.grammar
          { automaton with errorSymbol }.errorSymbol .zero other.source).result = .ok token :=
        scanned
      obtain ⟨after, fetched, unmoved, taken, within, reached⟩ :=
        step_of_scan (pending.trans empty) yielded
      exact ⟨after, fetched, unmoved.trans (machine.trans still.symm), reached.trans moved.symm,
        taken.trans found.symm, within.trans (depth.trans nested.symm)⟩
    · have fate : token.fate next.commentDepth = .stops (.lexical token.line token.text) := by
        rw [nested, outside]
        simp [Token.fate, unlisted, marked]
      have stopped := step_of_fate automaton found
      rw [fate] at stopped
      exact (ends.not_error stopped).elim
  | dropped token within held fate =>
    have answer := step_of_fate { automaton with errorSymbol } (pending.trans held)
    rw [depth, fate] at answer
    exact ⟨_, answer, machine, source, rfl, rfl⟩
  | lineDropped token held fate =>
    have answer := step_of_fate { automaton with errorSymbol } (pending.trans held)
    rw [depth, fate] at answer
    exact ⟨_, answer, machine, congrArg nextLine source, rfl, depth⟩
  | pushed token again after signal held fate advance pushed =>
    have answered : signal ≠ .reject := by
      rintro rfl
      rcases pushed with shifted | moved <;> contradiction
    have same := Automaton.step_of_strict errorSymbol strict answered advance
    rw [← machine] at same
    have follows := step_of_offered (pending.trans held) (depth ▸ fate) same
    rcases pushed with rfl | rfl
    · exact ⟨_, follows, rfl, source, rfl, depth⟩
    · exact ⟨_, follows, rfl, source, rfl, depth⟩
  | again token again after held fate advance =>
    have same := Automaton.step_of_strict errorSymbol strict (by simp) advance
    rw [← machine] at same
    have follows := step_of_offered (pending.trans held) (depth ▸ fate) same
    exact ⟨_, follows, rfl, source, rfl, depth⟩

/-- The token at hand opens a block comment. -/
def OpensComment (run : Run σ) : Prop :=
  run.commentDepth = 0 ∧ ∃ token, run.pending = some token ∧ token.symbol.kind = .commentStart

/-- A block comment is entered only by a token that opens it. -/
theorem opens_of_step (outside : run.commentDepth = 0)
    (stepped : run.step automaton = .running next) (inside : next.commentDepth ≠ 0) :
    run.OpensComment ∧ next.pending = none ∧ next.source = run.source := by
  cases stepped_of_step stepped with
  | fetched token next empty scanned still found nested =>
    exact absurd (nested.trans outside) inside
  | dropped token depth held fate =>
    have opening : token.symbol.kind = .commentStart := by
      rw [outside] at fate
      cases kind : token.symbol.kind <;> simp [Token.fate, kind] at fate ⊢
      exact absurd fate.symm inside
    exact ⟨⟨outside, token, held, opening⟩, rfl, rfl⟩
  | lineDropped => exact absurd outside inside
  | pushed => exact absurd outside inside
  | again => exact absurd outside inside

/-- Inside a block comment, where it is closed: behind the token at hand if that closes
it, and otherwise where what is scanned next closes it. -/
def ClosesBehind (grammar : Grammar) (run : Run σ) (after : σ) : Prop :=
  match run.pending with
  | none => Scan.Closes grammar none run.source after
  | some token =>
    if token.symbol.kind = .commentEnd then after = run.source
    else token.symbol.kind ≠ .endOfInput ∧ Scan.Closes grammar none run.source after

/-- What a run that will end with a tree promises to runs with an error terminal.
Outside comments all that stand alike succeed. Inside a comment there is a place at
which it is closed, and all that stand there outside comments succeed. -/
def Promises (automaton : Automaton) (errorSymbol : Option SymbolId) (tree : Node)
    (machine : Machine) (run : Run σ) : Prop :=
  if run.commentDepth = 0 then
    ∀ other, Alike run other → Succeeds { automaton with errorSymbol } other tree machine
  else
    ∃ after, ClosesBehind automaton.grammar run after ∧
      ∀ other : Run σ, other.machine = run.machine → other.source = after →
        other.pending = none → other.commentDepth = 0 →
        Succeeds { automaton with errorSymbol } other tree machine

/-- A block comment that a run opens is closed at the same byte with an error terminal as
without. -/
def ClosesAlike (grammar : Grammar) (errorSymbol : Option SymbolId) (run : Run σ) : Prop :=
  run.OpensComment → ∀ after, Scan.Closes grammar none run.source after →
    Scan.Closes grammar errorSymbol run.source after

/-- Outside comments a step hands the promise back. -/
theorem promises_of_step_outside {machine : Machine} (strict : automaton.errorSymbol = none)
    (marked : automaton.grammar.lexicalError.kind = .error)
    (closesAlike : run.ClosesAlike automaton.grammar errorSymbol)
    (outside : run.commentDepth = 0) (stepped : run.step automaton = .running next)
    (ends : EndsWith automaton next (.ok tree))
    (promises : Promises automaton errorSymbol tree machine next) :
    Promises automaton errorSymbol tree machine run := by
  rw [Promises, if_pos outside]
  intro other alike
  obtain ⟨after, followed, stands⟩ :=
    alike.step errorSymbol strict marked outside stepped ends
  refine .head followed ?_
  by_cases still : next.commentDepth = 0
  · rw [Promises, if_pos still] at promises
    exact promises after stands
  · rw [Promises, if_neg still] at promises
    obtain ⟨closing, closes, succeeds⟩ := promises
    obtain ⟨opens, empty, unmoved⟩ := opens_of_step outside stepped still
    rw [ClosesBehind, empty, unmoved] at closes
    have shut : Scan.Closes { automaton with errorSymbol }.grammar
        { automaton with errorSymbol }.errorSymbol run.source closing :=
      closesAlike opens closing closes
    obtain ⟨beyond, reached, same, moved, bare, left⟩ :=
      reaches_of_closes shut after (stands.pending.trans empty) (stands.commentDepth ▸ still)
        (stands.source.trans unmoved)
    obtain ⟨last, further, stopped, final⟩ :=
      succeeds beyond (same.trans stands.machine) moved bare left
    exact ⟨last, reached.trans further, stopped, final⟩

/-- Inside a comment a step hands the promise back. -/
theorem promises_of_step_inside {machine : Machine} (strict : automaton.errorSymbol = none)
    (inside : run.commentDepth ≠ 0) (stepped : run.step automaton = .running next)
    (promises : Promises automaton errorSymbol tree machine next) :
    Promises automaton errorSymbol tree machine run := by
  rw [Promises, if_neg inside]
  cases stepped_of_step stepped with
  | fetched token next empty scanned still found nested moved =>
    rw [strict] at scanned moved
    rw [Promises, if_neg (nested ▸ inside)] at promises
    obtain ⟨after, closes, succeeds⟩ := promises
    rw [still] at succeeds
    refine ⟨after, ?_, succeeds⟩
    rw [ClosesBehind, empty]
    rw [ClosesBehind, found, moved] at closes
    dsimp only at closes ⊢
    by_cases closing : token.symbol.kind = .commentEnd
    · rw [if_pos closing] at closes
      rw [closes]
      exact .closed scanned closing
    · rw [if_neg closing] at closes
      exact .skipped scanned closing closes.1 closes.2
  | dropped token depth held fate =>
    unfold ClosesBehind
    rw [held]
    dsimp only
    by_cases closing : token.symbol.kind = .commentEnd
    · rw [Token.fate_of_commentEnd inside closing] at fate
      obtain rfl := Fate.dropped.inj fate
      refine ⟨run.source, ?_, ?_⟩
      · rw [if_pos closing]
      · intro other same moved bare left
        exact promises other ⟨same, moved, bare, left⟩
    · have more : token.symbol.kind ≠ .endOfInput := by
        intro last
        rw [Token.fate_of_endOfInput inside last] at fate
        contradiction
      obtain ⟨own, known, deep⟩ := Token.fate_of_commented inside closing more
      obtain rfl := Fate.dropped.inj (known.symm.trans fate)
      rw [Promises, if_neg deep] at promises
      obtain ⟨after, closes, succeeds⟩ := promises
      refine ⟨after, ?_, succeeds⟩
      rw [if_neg closing]
      exact ⟨more, closes⟩
  | lineDropped token held fate => exact absurd (Token.depth_of_lineDropped fate) inside
  | pushed token again after signal held fate => exact absurd (Token.depth_of_offered fate) inside
  | again token again after held fate => exact absurd (Token.depth_of_offered fate) inside

/-- A run that ends with a tree keeps its promise. Induct on the steps to its end: in the
last one the automaton accepts, and so it does with an error terminal. -/
theorem promises_of_reaches (strict : automaton.errorSymbol = none)
    (marked : automaton.grammar.lexicalError.kind = .error)
    (reached : Reaches automaton run last)
    (closesAlike : ∀ before, Reaches automaton run before →
      before.ClosesAlike automaton.grammar errorSymbol)
    (stopped : last.step automaton = .ended (.ok tree) last) :
    Promises automaton errorSymbol tree last.machine run := by
  induction reached using Relation.ReflTransGen.head_induction_on with
  | refl =>
    obtain ⟨token, held, listed, root, -⟩ := accepted_of_step stopped
    have fate : token.fate last.commentDepth = .offered := by
      have answer := step_of_fate automaton held
      rw [stopped] at answer
      cases fate : token.fate last.commentDepth with
      | offered => rfl
      | stops error => simp [fate] at answer
      | dropped depth => simp [fate] at answer
      | lineDropped => simp [fate] at answer
    rw [Promises, if_pos (Token.depth_of_offered fate)]
    intro other alike
    obtain ⟨machine, source, pending, depth⟩ := alike
    have effect : { automaton with errorSymbol }.Effect other.machine token other.machine token
        .accept := .accept (machine ▸ listed)
    rw [← depth] at fate
    have answer := step_of_offered (pending.trans held) fate (Automaton.step_eq_of_effect effect)
    dsimp only at answer
    rw [machine, root, ← machine] at answer
    exact ⟨other, .refl, answer, machine⟩
  | @head before next stepped further inductionHypothesis =>
    have promises := inductionHypothesis fun after reached =>
      closesAlike after (.head stepped reached)
    have ends : EndsWith automaton next (.ok tree) := ⟨last, last, further, stopped⟩
    by_cases outside : before.commentDepth = 0
    · exact promises_of_step_outside strict marked (closesAlike before .refl) outside stepped ends
        promises
    · exact promises_of_step_inside strict outside stepped promises

end Run

namespace Parser

variable {σ : Type} [Source σ]

/-- Every block comment that a parse opens is closed at the same byte when its text is
scanned with an error terminal, if it is closed at all. -/
def ClosesAlike (parser : Parser) (errorSymbol : Option SymbolId) (source : σ) (trim : Bool) :
    Prop :=
  ∀ first run, parser.begin? source = .ok first → Run.Reaches (parser.automaton trim) first run →
    run.ClosesAlike parser.grammar errorSymbol

/-- A parse that ends with a tree was a run that succeeded, and it settles what that run
left behind. -/
theorem settles_of_parse_eq_done {parser : Parser} {source : σ} {trim : Bool} {limit : Nat}
    {tree : Node} (parsed : (parser.parse source trim limit).outcome = .done tree) :
    ∃ first last, parser.begin? source = .ok first ∧
      Run.Reaches (parser.automaton trim) first last ∧
      last.step (parser.automaton trim) = .ended (.ok tree) last ∧
      (parser.parse source trim limit).parser = parser.settle last := by
  obtain ⟨first, last, begun, reached, stopped, ended⟩ := reaches_of_parse_eq_done parsed
  exact ⟨first, last, begun, reached, stopped, congrArg Parsed.parser ended⟩

/-- A run that succeeds is a parse that ends with its tree, and settles what the run left
behind. -/
theorem parse_of_succeeds {parser : Parser} {source : σ} {trim : Bool} {tree : Node}
    {first : Run σ} {machine : Machine} (begun : parser.begin? source = .ok first)
    (succeeds : Run.Succeeds (parser.automaton trim) first tree machine) :
    ∃ limit, (parser.parse source trim limit).outcome = .done tree ∧
      (parser.parse source trim limit).parser.stats.steps = machine.tally := by
  obtain ⟨last, reached, stopped, rfl⟩ := succeeds
  obtain ⟨limit, ended⟩ := Run.finish_of_reaches reached stopped
  refine ⟨limit, ?_, ?_⟩
  · simp only [parse, begun, ended, Outcome.ofResult]
  · simp only [parse, begun, ended, settle]

end Parser

/-- Where faults are single, the comments of bytes in memory are closed alike. -/
theorem Parser.closesAlike_of_faultsSingly {tables : Tables} {parser : Parser}
    (accepted : Grammar.ofTables tables = .ok parser.grammar)
    (single : parser.grammar.FaultsSingly) {errorSymbol : Option SymbolId}
    (recoverable : ∀ error ∈ errorSymbol, error < parser.grammar.tables.count .symbol)
    (source : ByteSource) (trim : Bool) : parser.ClosesAlike errorSymbol source trim := by
  intro first run begun reached opens after closes
  exact closes.of_faultsSingly (Grammar.lexicalError_kind accepted) single recoverable

/-- An input that is parsed without recovery is parsed to the same tree with it, in the
same steps of the automaton and without recovering, whatever terminal is named as the
error terminal. It is assumed that the block comments of the input are closed at the
same bytes with the error terminal as without. -/
theorem recovery_keeps_tree {σ : Type} [Source σ] {tables : Tables} {grammar : Grammar}
    (accepted : Grammar.ofTables tables = .ok grammar) (name : String) (source : σ) (trim : Bool)
    (closesAlike : (Parser.ofGrammar grammar).ClosesAlike
      (Parser.recoveringBy grammar name).errorSymbol source trim)
    (limit : Nat) (tree : Node)
    (parsed : ((Parser.ofGrammar grammar).parse source trim limit).outcome = .done tree) :
    ∃ enough,
      ((Parser.recoveringBy grammar name).parse source trim enough).outcome = .done tree ∧
      ((Parser.recoveringBy grammar name).parse source trim enough).parser.stats.steps =
        ((Parser.ofGrammar grammar).parse source trim limit).parser.stats.steps ∧
      ((Parser.recoveringBy grammar name).parse source trim enough).parser.stats.steps.recoveries =
        (Parser.recoveringBy grammar name).stats.steps.recoveries := by
  obtain ⟨first, last, begun, reached, stopped, settled⟩ :=
    Parser.settles_of_parse_eq_done parsed
  have strict : ((Parser.ofGrammar grammar).automaton trim).errorSymbol = none := rfl
  have marked := Grammar.lexicalError_kind accepted
  have unrecovered : last.machine.tally.recoveries = first.machine.tally.recoveries :=
    Run.invariant_of_reaches
      (fun machine => machine.tally.recoveries = first.machine.tally.recoveries)
      (fun _ _ _ _ _ effect same => (effect.recoveries_of_strict strict).trans same) reached rfl
  have promises := Run.promises_of_reaches strict marked reached
    (fun before further => closesAlike first before begun further) stopped
  have again : (Parser.recoveringBy grammar name).begin? source = .ok first := begun
  obtain ⟨start, named, rfl⟩ := Parser.begin?_eq_ok.mp begun
  rw [Run.Promises, if_pos rfl] at promises
  have succeeds : Run.Succeeds ((Parser.recoveringBy grammar name).automaton trim) _ tree
      last.machine := promises _ ⟨rfl, rfl, rfl, rfl⟩
  obtain ⟨enough, found, counted⟩ := Parser.parse_of_succeeds again succeeds
  refine ⟨enough, found, ?_, ?_⟩
  · rw [counted, settled]
    rfl
  · rw [counted, unrecovered]
    rfl

open Sums in
/-- What is read as a number in `2{?}` is one with and without recovery, although no token begins
with what stands in the comment. -/
theorem recovery_keeps_number :
    Grammar.ofTables tables = .ok grammar ∧
      ∃ tree enough,
        ((Parser.ofGrammar grammar).parse (ByteSource.ofBytes #[50, 123, 63, 125]) true
          40).outcome = .done tree ∧
        ((Parser.recoveringBy grammar errorTerminal).parse
          (ByteSource.ofBytes #[50, 123, 63, 125]) true enough).outcome = .done tree := by
  have parsed : ∃ tree, ((Parser.ofGrammar grammar).parse
      (ByteSource.ofBytes #[50, 123, 63, 125]) true 40).outcome = .done tree := ⟨_, rfl⟩
  have made : (Parser.recoveringBy grammar errorTerminal).Made := .recovering errorTerminal rfl
  have recoverable : ∀ error ∈ (Parser.recoveringBy grammar errorTerminal).errorSymbol,
      error < (Parser.ofGrammar grammar).grammar.tables.count .symbol :=
    made.errorSymbol_lt (Grammar.wellFormed_of_ofTables ofTables_tables)
  have closesAlike : (Parser.ofGrammar grammar).ClosesAlike
      (Parser.recoveringBy grammar errorTerminal).errorSymbol
      (ByteSource.ofBytes #[50, 123, 63, 125]) true :=
    Parser.closesAlike_of_faultsSingly ofTables_tables faultsSingly_grammar recoverable _ _
  obtain ⟨tree, parsed⟩ := parsed
  obtain ⟨enough, found, -⟩ := recovery_keeps_tree ofTables_tables errorTerminal
    (ByteSource.ofBytes #[50, 123, 63, 125]) true closesAlike 40 tree parsed
  exact ⟨ofTables_tables, tree, enough, parsed, found⟩

namespace StarredComment

/-- A language whose only text is the letter `n`, with comments between a slash and a
star and a star and a slash. Neither a slash nor a star is a token by itself. -/
def tables : Tables where
  symbols := #[⟨0, .endOfInput, "EOF"⟩, ⟨1, .terminal, "Letter"⟩, ⟨2, .terminal, "error"⟩,
    ⟨3, .commentStart, "Comment Start"⟩, ⟨4, .commentEnd, "Comment End"⟩,
    ⟨5, .nonterminal, "Text"⟩]
  charSets := #[⟨0, .ofList [110]⟩, ⟨1, .ofList [47]⟩, ⟨2, .ofList [42]⟩]
  dfaStates := #[⟨0, none, [⟨0, 1⟩, ⟨1, 2⟩, ⟨2, 4⟩]⟩, ⟨1, some 1, []⟩, ⟨2, none, [⟨2, 3⟩]⟩,
    ⟨3, some 3, []⟩, ⟨4, none, [⟨1, 5⟩]⟩, ⟨5, some 4, []⟩]
  lalrStates := #[⟨0, [⟨1, .shift 1⟩, ⟨5, .goto 2⟩]⟩, ⟨1, [⟨0, .reduce 0⟩]⟩,
    ⟨2, [⟨0, .accept⟩]⟩]
  rules := #[⟨0, 5, [1]⟩]
  startSymbol := 5
  dfaInitial := 0
  lalrInitial := 0

/-- The grammar of these tables. -/
def grammar : Grammar where
  tables := tables
  endSymbol := ⟨0, .endOfInput, "EOF"⟩
  lexicalError := Grammar.unlistedError

/-- The tables describe the grammar. -/
theorem ofTables_tables : Grammar.ofTables tables = .ok grammar := by
  have faultless : tables.faults = [] := by decide
  exact Grammar.ofTables_eq_ok.mpr ⟨faultless, rfl, rfl, rfl⟩

end StarredComment

open StarredComment in
/-- Without the assumption on comments recovery may lose a tree. In the comment of
`/***/n` the second star is no token. Without recovery it is dropped by itself, and the
third star and the slash close the comment. With recovery both stars are dropped
together, because the walk stopped at the third, and the comment is never closed. -/
theorem recovery_misses_comment_end :
    Grammar.ofTables tables = .ok grammar ∧
      (grammar.terminalNamed? "error").isSome ∧
      (∃ tree, ((Parser.ofGrammar grammar).parse
        (ByteSource.ofBytes #[47, 42, 42, 42, 47, 110]) false 40).outcome = .done tree) ∧
      ∀ limit tree, ((Parser.recoveringBy grammar "error").parse
        (ByteSource.ofBytes #[47, 42, 42, 42, 47, 110]) false limit).outcome ≠ .done tree := by
  have lost : ((Parser.recoveringBy grammar "error").parse
      (ByteSource.ofBytes #[47, 42, 42, 42, 47, 110]) false 40).outcome =
        Outcome.ofResult (.error (.error (.unterminatedComment 1))) := rfl
  refine ⟨ofTables_tables, by decide, ⟨_, rfl⟩, ?_⟩
  intro limit tree parsed
  have same : (.error (.error (.unterminatedComment 1)) : Except Halt Node) = .ok tree :=
    Parser.result_unique parsed lost
  contradiction

end TableDriven
