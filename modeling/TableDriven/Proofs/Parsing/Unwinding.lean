import TableDriven.Proofs.Parsing.Resumption
import TableDriven.Proofs.Parsing.Sturdy

/-!
# Recovery resumes as far up the stack as it can

When the error terminal is offered and the current state has no action for it, entries are taken
off the stack. The latest entry that was pushed from a state with an action for the error terminal
decides: it goes, everything above it goes, and what lies below it stays. If no entry above the
lowest was pushed from such a state, there is no way to recover. As the first entry above the
lowest was pushed from the initial state, and a stack without one stands in it, an action of the
initial state for the error terminal is enough to recover always.
-/

namespace TableDriven

/-- A state has an action for a symbol. -/
def Grammar.ActsOn (grammar : Grammar) (state : LalrStateId) (symbol : SymbolId) : Prop :=
  ∃ action, grammar.actionOn state symbol = .ok (some action)

/-- The next step of a run has to take entries off: the error terminal is offered, and the
current state has no action for it. -/
structure Run.Unwinds {σ : Type} (automaton : Automaton) (error : SymbolId) (token : Token)
    (run : Run σ) : Prop where
  held : run.pending = some token
  offered : token.fate run.commentDepth = .offered
  recovers : automaton.errorSymbol = some error
  substituted : token.symbol.id = error
  unlisted : automaton.grammar.actionOn run.machine.state error = .ok none

/-- Every entry above the lowest was pushed from a state that exists. -/
theorem StackPath.origin_lt {grammar : Grammar} {state : LalrStateId} {above : List Entry}
    {lowest : Entry} (path : StackPath grammar state (above ++ [lowest]))
    (well : grammar.tables.WellFormed) :
    ∀ entry ∈ above, entry.origin < grammar.tables.count .lalrState := by
  intro entry member
  obtain ⟨before, below, rfl⟩ := List.append_of_mem member
  rw [List.append_assoc, List.cons_append] at path
  have under := path.below_entry (List.append_ne_nil_of_right_ne_nil below (by simp))
  exact under.state_lt well

namespace Automaton

variable {grammar : Grammar} {automaton : Automaton} {machine : Machine} {token : Token}
  {error : SymbolId}

/-- Recovery stops at the latest entry whose origin has an action for the error terminal, and
leaves what lies below it. Without such an entry it gets down to the lowest. Induct on the entries
above the lowest, the latest first. -/
theorem unwind_cases (error : SymbolId) {above : List Entry}
    (known : ∀ entry ∈ above, entry.origin < grammar.tables.count .lalrState)
    (state : LalrStateId) (lowest : Entry) :
    (∃ before entry below, above = before ++ entry :: below ∧
        grammar.ActsOn entry.origin error ∧
        (∀ later ∈ before, ¬ grammar.ActsOn later.origin error) ∧
        unwind grammar error state (above ++ [lowest]) =
          (entry.origin, below ++ [lowest], .ok true)) ∨
      (∀ entry ∈ above, ¬ grammar.ActsOn entry.origin error) ∧
        ∃ resumed rest, unwind grammar error state (above ++ [lowest]) =
          (resumed, rest, .ok false) := by
  induction above generalizing state with
  | nil => exact .inr ⟨by simp, _, _, rfl⟩
  | cons entry others inductionHypothesis =>
    obtain ⟨next, rest, under⟩ := List.exists_cons_of_ne_nil
      (List.append_ne_nil_of_right_ne_nil others (List.cons_ne_nil lowest []))
    obtain ⟨answer, listed⟩ := Grammar.actionOn_of_lt (known entry List.mem_cons_self) error
    cases answer with
    | some action =>
      refine .inl ⟨[], entry, others, rfl, ⟨action, listed⟩, by simp, ?_⟩
      rw [List.cons_append, under, unwind, listed]
    | none =>
      have passes : unwind grammar error state (entry :: others ++ [lowest]) =
          unwind grammar error entry.origin (others ++ [lowest]) := by
        rw [List.cons_append, under, unwind, listed]
      have silent : ¬ grammar.ActsOn entry.origin error := by
        rintro ⟨action, acts⟩
        have same := Except.ok.inj (listed.symm.trans acts)
        contradiction
      rw [passes]
      rcases inductionHypothesis
          (fun other member => known other (List.mem_cons_of_mem entry member)) entry.origin with
        ⟨before, innermost, below, rfl, acts, passed, unwound⟩ | ⟨passed, none⟩
      · refine .inl ⟨entry :: before, innermost, below, rfl, acts, ?_, unwound⟩
        exact List.forall_mem_cons.mpr ⟨silent, passed⟩
      · exact .inr ⟨List.forall_mem_cons.mpr ⟨silent, passed⟩, none⟩

/-- What recovery answers to the error terminal is what it finds on the stack. -/
theorem recover_of_substituted {state : LalrStateId} {rest : Stack} {found : Bool}
    (recovers : automaton.errorSymbol = some error) (substituted : token.symbol.id = error)
    (unwound : unwind automaton.grammar error machine.state machine.stack =
      (state, rest, .ok found)) :
    automaton.recover machine token =
      ⟨{ machine with state, stack := rest }, token,
        if found then .ok .reduce else .error (.error (.unrecoverable token.line))⟩ := by
  have same : ¬ token.symbol.id ≠ error := not_not_intro substituted
  simp only [recover, recovers, if_neg same, unwound]
  cases found <;> rfl

/-- No reduction fails for want of a state to recover in. -/
theorem reduce_ne_unrecoverable (automaton : Automaton) (machine : Machine) (token : Token)
    (id : RuleId) (line : Nat) :
    (automaton.reduce machine id token).2 ≠ .error (.error (.unrecoverable line)) := by
  unfold reduce
  split
  · simp
  · split
    · simp
    · unfold follow
      split <;> simp

/-- A step that fails for want of a state to recover in has tried to recover. -/
theorem recover_of_unrecoverable {line : Nat}
    (failed : (automaton.step machine token).result = .error (.error (.unrecoverable line))) :
    automaton.grammar.actionOn machine.state token.symbol.id = .ok none ∧
      (automaton.recover machine token).result = .error (.error (.unrecoverable line)) := by
  unfold step at failed
  split at failed
  · simp at failed
  · rename_i unlisted
    exact ⟨unlisted, failed⟩
  · simp at failed
  · simp at failed
  · rename_i id _
    have sound := reduce_ne_unrecoverable automaton machine token id line
    cases reduced : (automaton.reduce machine id token).2 with
    | ok done => simp [reduced, Except.map] at failed
    | error halt =>
      rw [reduced] at sound
      obtain rfl : halt = .error (.unrecoverable line) := by
        simpa [reduced, Except.map] using failed
      exact absurd rfl sound
  · simp at failed
  · simp at failed

/-- Where the initial state has an action for the error terminal, no step fails for want of a
state to recover in. -/
theorem step_ne_unrecoverable (well : automaton.grammar.tables.WellFormed)
    (path : StackPath automaton.grammar machine.state machine.stack)
    (recovers : automaton.errorSymbol = some error)
    (acts : automaton.grammar.ActsOn automaton.grammar.tables.lalrInitial error) (line : Nat) :
    (automaton.step machine token).result ≠ .error (.error (.unrecoverable line)) := by
  intro failed
  obtain ⟨unlisted, unrecovered⟩ := recover_of_unrecoverable failed
  by_cases substituted : token.symbol.id = error
  · rw [substituted] at unlisted
    obtain ⟨resumed, rest, unwound⟩ := path.unwind_resumes well acts unlisted
    simp [recover_of_substituted recovers substituted unwound] at unrecovered
  · simp only [recover, recovers, if_pos substituted, substitute] at unrecovered
    cases named : automaton.grammar.errorTerminal error <;> simp [named] at unrecovered

end Automaton

namespace Run

variable {σ : Type} [Source σ] {automaton : Automaton} {run next : Run σ} {token : Token}
  {error : SymbolId}

/-- A parse that ends for want of a state to recover in ends with such a step. -/
theorem unrecoverable_of_stopped (well : automaton.grammar.tables.WellFormed)
    (recoverable : ∀ error ∈ automaton.errorSymbol,
      error < automaton.grammar.tables.count .symbol)
    (path : StackPath automaton.grammar run.machine.state run.machine.stack) {line : Nat}
    (stopped : Stopped automaton run (.error (.error (.unrecoverable line)))) :
    ∃ token, (automaton.step run.machine token).result =
      .error (.error (.unrecoverable line)) := by
  generalize same : Except.error (Halt.error (ParseError.unrecoverable line)) = result at stopped
  cases stopped with
  | unscanned halt hand failed =>
    obtain rfl := Except.error.inj same
    rcases Scan.next_result well recoverable .zero run.source with
      ⟨token, answered⟩ | ⟨own, refused⟩
    · rw [answered] at failed
      contradiction
    · simp [refused] at failed
  | stops token error held fate =>
    obtain rfl := Halt.error.inj (Except.error.inj same)
    unfold Token.fate at fate
    split at fate <;> split at fate <;> simp at fate
  | failed token halt held failed =>
    obtain rfl := Except.error.inj same
    exact ⟨token, failed⟩
  | accepted token held fate listed =>
    cases root : run.machine.root <;> simp [root, Except.mapError] at same
  | rejected token held unlisted =>
    obtain ⟨expected, reported⟩ := Automaton.rejection_eq well (path.state_lt well) token
    simp [reported] at same

/-- Right after recovery has resumed in a state the error terminal is offered to that state, so it
is not to be unwound again. -/
theorem not_unwinds_next (unwinds : run.Unwinds automaton error token)
    (stepped : run.step automaton = .running next) (again : Token) :
    ¬ next.Unwinds automaton error again := by
  obtain ⟨held, offered, recovers, substituted, unlisted⟩ := unwinds
  intro other
  cases stepped_of_step stepped with
  | fetched own next empty =>
    rw [empty] at held
    contradiction
  | dropped own depth hand fate =>
    have none := other.held
    contradiction
  | lineDropped own hand fate =>
    have none := other.held
    contradiction
  | pushed own again after signal hand fate advance pushed =>
    have none := other.held
    contradiction
  | again own again after hand fate advance =>
    obtain rfl := Option.some.inj (held.symm.trans hand)
    cases Automaton.effect_of_step_eq advance with
    | reduce id after listed reduced =>
      rw [substituted, unlisted] at listed
      exact absurd (Except.ok.inj listed) nofun
    | substitute own symbol _ given ordinary named =>
      obtain rfl := Option.some.inj (recovers.symm.trans given)
      exact absurd substituted ordinary
    | unwind own state stack _ given same unwound =>
      obtain rfl := Option.some.inj (recovers.symm.trans given)
      obtain ⟨action, acts⟩ := Automaton.unwind_listed unwound
      exact absurd (Except.ok.inj (acts.symm.trans other.unlisted)) nofun

end Run

/-- A parse whose parser can recover in the initial state never ends for want of a state to
recover in. -/
theorem Parser.parse_ne_unrecoverable {σ : Type} [Source σ] {parser : Parser}
    (well : parser.grammar.tables.WellFormed) (made : parser.Made) {error : SymbolId}
    (recovers : parser.errorSymbol = some error)
    (acts : parser.grammar.ActsOn parser.grammar.tables.lalrInitial error) {source : σ}
    {trim : Bool} {first : Run σ} (begun : parser.begin? source = .ok first) (limit line : Nat) :
    (parser.parse source trim limit).outcome ≠ .failed (.unrecoverable line) := by
  intro parsed
  have ended : (parser.parse source trim limit).outcome =
      Outcome.ofResult (.error (.error (.unrecoverable line))) := parsed
  obtain ⟨before, last, reached, stopped⟩ :=
    (Parser.parse_iff_endsWith trim _ begun).mp ⟨limit, ended⟩
  have own : (parser.automaton trim).grammar.tables.WellFormed := well
  have path : StackPath (parser.automaton trim).grammar before.machine.state
      before.machine.stack :=
    StackPath.of_reaches begun reached
  have stops := Run.stopped_of_step stopped
  obtain ⟨token, failed⟩ :=
    Run.unrecoverable_of_stopped own (made.errorSymbol_lt well) path stops
  exact Automaton.step_ne_unrecoverable own path recovers acts line failed

/-- A parser that recovers resumes as far up the stack as it can. Wherever a parse gets to, when
the error terminal is offered to a state without an action for it: if some entry above the start
entry was pushed from a state with an action, the latest such entry and all above it are taken
off, that state becomes the current one, and the token is offered again as it is; if none was, the
parse fails on the line of the token. Neither does it unwind twice in a row, nor does it ever fail
so if the initial state has an action. -/
theorem unwinding_resumes_innermost {σ : Type} [Source σ] {tables : Tables} (parser : Parser)
    (accepted : Grammar.ofTables tables = .ok parser.grammar) (made : parser.Made)
    {error : SymbolId} (recovers : parser.errorSymbol = some error) (trim : Bool) (source : σ) :
    ∃ first, parser.begin? source = .ok first ∧
      (∀ run token, Run.Reaches (parser.automaton trim) first run →
        run.Unwinds (parser.automaton trim) error token →
        ∃ start above, run.machine.IsPath parser.grammar start above ∧
          ((∃ entry ∈ above, parser.grammar.ActsOn entry.origin error) →
            ∃ before entry below, above = before ++ entry :: below ∧
              parser.grammar.ActsOn entry.origin error ∧
              (∀ later ∈ before, ¬ parser.grammar.ActsOn later.origin error) ∧
              (parser.automaton trim).recover run.machine token =
                ⟨{ run.machine with
                    state := entry.origin
                    stack := below ++ [Parser.startEntry parser.grammar start] },
                  token, .ok .reduce⟩) ∧
          ((∀ entry ∈ above, ¬ parser.grammar.ActsOn entry.origin error) →
            ((parser.automaton trim).recover run.machine token).result =
              .error (.error (.unrecoverable token.line))) ∧
          ∀ next, run.step (parser.automaton trim) = .running next →
            ∀ again, ¬ next.Unwinds (parser.automaton trim) error again) ∧
      (parser.grammar.ActsOn parser.grammar.tables.lalrInitial error → ∀ limit line,
        (parser.parse source trim limit).outcome ≠ .failed (.unrecoverable line)) := by
  have well := Grammar.wellFormed_of_ofTables accepted
  obtain ⟨first, begun⟩ := Parser.exists_begin? well source
  refine ⟨first, begun, ?_, fun acts limit line =>
    Parser.parse_ne_unrecoverable well made recovers acts begun limit line⟩
  intro run token reached unwinds
  have path := StackPath.of_reaches begun reached
  obtain ⟨start, above, entries⟩ := path.isPath
  have stacked : run.machine.stack = above ++ [Parser.startEntry parser.grammar start] :=
    entries.stacked
  have answer {state : LalrStateId} {rest : Stack} {found : Bool}
      (unwound : Automaton.unwind parser.grammar error run.machine.state
        (above ++ [Parser.startEntry parser.grammar start]) = (state, rest, .ok found)) :
      (parser.automaton trim).recover run.machine token =
        ⟨{ run.machine with state, stack := rest }, token,
          if found then .ok .reduce else .error (.error (.unrecoverable token.line))⟩ := by
    rw [← stacked] at unwound
    exact Automaton.recover_of_substituted recovers unwinds.substituted unwound
  rw [stacked] at path
  have onward (next : Run σ) (stepped : run.step (parser.automaton trim) = .running next) :=
    Run.not_unwinds_next unwinds stepped
  have found := Automaton.unwind_cases error (path.origin_lt well) run.machine.state
    (Parser.startEntry parser.grammar start)
  rcases found with
    ⟨before, entry, below, split, acts, passed, unwound⟩ | ⟨none, resumed, rest, unwound⟩
  · refine ⟨start, above, entries, fun _ => ?_, fun none => ?_, onward⟩
    · exact ⟨before, entry, below, split, acts, passed, answer unwound⟩
    · exact absurd acts (none entry (by simp [split]))
  · refine ⟨start, above, entries, ?_, fun _ => ?_, onward⟩
    · rintro ⟨entry, member, acts⟩
      exact absurd acts (none entry member)
    · rw [answer unwound]
      rfl

open Sums in
/-- In `1 2` the second number is out of place. Once it has become the error terminal, the first one
goes and the initial state is resumed in, with nothing left above the start entry. -/
theorem unwinding_resumes_below_number :
    Grammar.ofTables tables = .ok (Parser.recoveringBy grammar errorTerminal).grammar ∧
      (Parser.recoveringBy grammar errorTerminal).Made ∧
      (Parser.recoveringBy grammar errorTerminal).errorSymbol = some Symbols.error ∧
      ∃ first run : Run ByteSource, ∃ token,
        (Parser.recoveringBy grammar errorTerminal).begin? (ByteSource.ofBytes #[49, 32, 50]) =
          .ok first ∧
        Run.Reaches ((Parser.recoveringBy grammar errorTerminal).automaton false) first run ∧
        run.Unwinds ((Parser.recoveringBy grammar errorTerminal).automaton false) Symbols.error
          token ∧
        ∃ entry start, run.machine.stack = [entry, Parser.startEntry grammar start] ∧
          ((Parser.recoveringBy grammar errorTerminal).automaton false).recover run.machine token =
            ⟨{ run.machine with
                state := entry.origin
                stack := [Parser.startEntry grammar start] }, token, .ok .reduce⟩ := by
  have accepted : Grammar.ofTables tables =
      .ok (Parser.recoveringBy grammar errorTerminal).grammar := ofTables_tables
  have made : (Parser.recoveringBy grammar errorTerminal).Made := .recovering errorTerminal rfl
  have recovers : (Parser.recoveringBy grammar errorTerminal).errorSymbol = some Symbols.error :=
    rfl
  obtain ⟨first, begun, unwinding, -⟩ := unwinding_resumes_innermost
    (Parser.recoveringBy grammar errorTerminal) accepted made recovers false
    (ByteSource.ofBytes #[49, 32, 50])
  have walked : ∃ run token,
      Run.Reaches ((Parser.recoveringBy grammar errorTerminal).automaton false) first run ∧
      run.Unwinds ((Parser.recoveringBy grammar errorTerminal).automaton false) Symbols.error
        token ∧ run.machine.stack.length = 2 := by
    cases begun
    exact ⟨_, _, .head rfl (.head rfl (.head rfl (.head rfl (.head rfl (.head rfl .refl))))),
      ⟨rfl, rfl, rfl, rfl, rfl⟩, rfl⟩
  obtain ⟨run, token, reached, unwinds, two⟩ := walked
  obtain ⟨start, above, entries, resumes, -, -⟩ := unwinding run token reached unwinds
  obtain ⟨entry, rfl⟩ : ∃ entry, above = [entry] := by
    rw [entries.stacked, List.length_append] at two
    exact List.length_eq_one_iff.mp (Nat.succ.inj two)
  have initial : entry.origin = grammar.tables.lalrInitial := entries.lowest entry rfl
  have acts : grammar.ActsOn entry.origin Symbols.error := by
    rw [initial]
    exact ⟨.shift 4, rfl⟩
  obtain ⟨before, own, below, split, -, -, answer⟩ :=
    resumes ⟨entry, List.mem_cons_self, acts⟩
  obtain ⟨rfl, rfl, rfl⟩ : before = [] ∧ entry = own ∧ below = [] := by
    cases before with
    | nil => simpa [eq_comm] using split
    | cons other others => simp at split
  exact ⟨accepted, made, recovers, first, run, token, begun, reached, unwinds, entry, start,
    entries.stacked, answer⟩

end TableDriven
