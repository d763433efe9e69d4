import TableDriven.Proofs.Parsing.Settling

/-!
# Recovery takes every token off the hands of the automaton

Let the error terminal be shifted wherever it has an action, and let the initial state have
one. Then a token without an action, once it has become the error terminal, is shifted in the
state where it was found or in one that entries are taken off for. So an automaton that
recovers shifts every token that is not the end of the input, as itself or as the error
terminal, and a run gets to where the tokens in store have been used up.
-/

namespace TableDriven

namespace Automaton

variable {automaton : Automaton} {machine after : Machine} {token own : Token}
  {error : SymbolId} {weight : SymbolId → Nat}

/-- From a machine to which a token is offered some steps lead to one that has shifted a
token, while the same token is offered again and again as it then stands. -/
inductive Takes (automaton : Automaton) : Machine → Token → Machine → Token → Prop where
  | now {machine after : Machine} {token : Token}
      (stepped : automaton.step machine token = ⟨after, token, .ok .shift⟩) :
      Takes automaton machine token after token
  | again {machine between after : Machine} {token next own : Token}
      (stepped : automaton.step machine token = ⟨between, next, .ok .reduce⟩)
      (rest : Takes automaton between next after own) : Takes automaton machine token after own

/-- A token that is taken after some reductions is taken. -/
theorem ReducesTo.takes {between : Machine} (reduces : automaton.ReducesTo token machine between)
    (takes : automaton.Takes between token after own) :
    automaton.Takes machine token after own := by
  induction reduces using Relation.ReflTransGen.head_induction_on with
  | refl => exact takes
  | head first _ inductionHypothesis =>
    exact .again (step_eq_of_effect first.effect) inductionHypothesis

/-- Taking a token keeps the stack a path. -/
theorem Takes.path (takes : automaton.Takes machine token after own)
    (path : StackPath automaton.grammar machine.state machine.stack) :
    StackPath automaton.grammar after.state after.stack := by
  induction takes with
  | now stepped => exact path.effect (effect_of_step_eq stepped)
  | again stepped _ inductionHypothesis =>
    exact inductionHypothesis (path.effect (effect_of_step_eq stepped))

/-- An automaton recovers by an error terminal that every state with an action on it shifts,
the initial state among them. -/
structure Recovers (automaton : Automaton) (error : SymbolId) : Prop where
  given : automaton.errorSymbol = some error
  resumes : automaton.Resumes
  shifted : ∀ state action, automaton.grammar.actionOn state error = .ok (some action) →
    ∃ target, action = .shift target

/-- A state that recovery resumes in has an action on the error terminal. -/
theorem unwind_listed {grammar : Grammar} {state resumed : LalrStateId} {stack rest : Stack}
    (unwound : unwind grammar error state stack = (resumed, rest, .ok true)) :
    ∃ action, grammar.actionOn resumed error = .ok (some action) := by
  induction stack generalizing state with
  | nil => simp [unwind] at unwound
  | cons entry below inductionHypothesis =>
    cases below with
    | nil => simp [unwind] at unwound
    | cons next others =>
      unfold unwind at unwound
      split at unwound
      · simp at unwound
      · rename_i action listed
        obtain ⟨rfl, -⟩ := Prod.mk.inj unwound
        exact ⟨action, listed⟩
      · exact inductionHypothesis unwound

/-- What recovery takes off was pushed along transitions to states without an action on the
error terminal. -/
theorem unwind_passes {grammar : Grammar} {state resumed : LalrStateId} {stack rest : Stack}
    (path : StackPath grammar state stack) (unlisted : grammar.actionOn state error = .ok none)
    (unwound : unwind grammar error state stack = (resumed, rest, .ok true)) :
    ∃ gone, stack.labels = rest.labels ++ gone ∧ ∀ symbol ∈ gone, ∃ origin target,
      grammar.Transition origin symbol target ∧ grammar.actionOn target error = .ok none := by
  induction path with
  | start => simp [unwind, Parser.startEntry] at unwound
  | extend target entry node below carried moved path inductionHypothesis =>
    cases below with
    | nil => exact absurd rfl path.ne_nil
    | cons next others =>
      have own := Stack.labels_cons entry path.ne_nil
      unfold unwind at unwound
      split at unwound
      · simp at unwound
      · obtain ⟨-, rest⟩ := Prod.mk.inj unwound
        obtain ⟨rfl, -⟩ := Prod.mk.inj rest
        refine ⟨[entry.token.symbol.id], own, ?_⟩
        intro symbol member
        obtain rfl := List.mem_singleton.mp member
        exact ⟨entry.origin, target, moved, unlisted⟩
      · rename_i before
        obtain ⟨gone, split, passed⟩ := inductionHypothesis before unwound
        refine ⟨gone ++ [entry.token.symbol.id], ?_, ?_⟩
        · rw [own, split, List.append_assoc]
        · intro symbol member
          rcases List.mem_append.mp member with among | last
          · exact passed symbol among
          · obtain rfl := List.mem_singleton.mp last
            exact ⟨entry.origin, target, moved, unlisted⟩

/-- A state that has an action on the error terminal shifts it. -/
theorem Recovers.shifts (recovers : automaton.Recovers error) (same : token.symbol.id = error)
    {action : Action}
    (listed : automaton.grammar.actionOn machine.state error = .ok (some action)) :
    ∃ after, automaton.Takes machine token after token := by
  obtain ⟨target, rfl⟩ := recovers.shifted _ _ listed
  rw [← same] at listed
  exact ⟨_, .now (step_eq_of_effect (.shift target listed))⟩

/-- The error terminal is shifted, at once or in the state that recovery resumes in. -/
theorem Recovers.takes_error (recovers : automaton.Recovers error)
    (well : automaton.grammar.tables.WellFormed)
    (path : StackPath automaton.grammar machine.state machine.stack)
    (same : token.symbol.id = error) : ∃ after, automaton.Takes machine token after token := by
  obtain ⟨action, listed⟩ := Grammar.actionOn_of_lt (path.state_lt well) error
  cases action with
  | some action => exact recovers.shifts same listed
  | none =>
    obtain ⟨-, resumed⟩ := recovers.resumes error recovers.given
    obtain ⟨state, rest, unwound⟩ := path.unwind_resumes well resumed listed
    obtain ⟨action, found⟩ := unwind_listed unwound
    rw [← same] at listed
    have stepped := step_eq_of_effect (.unwind error state rest listed recovers.given same unwound)
    have shifts : ∃ after, automaton.Takes { machine with state, stack := rest } token after token :=
      recovers.shifts same found
    obtain ⟨after, takes⟩ := shifts
    exact ⟨after, .again stepped takes⟩

/-- A token as it is, or as recovery has it. -/
def Stands (grammar : Grammar) (error : SymbolId) (token own : Token) : Prop :=
  own = token ∨ ∃ symbol, grammar.errorTerminal error = .ok symbol ∧
    own = ⟨symbol, token.line, "error"⟩

/-- Every token that is not the end of the input is shifted after finitely many steps, as
itself or as the error terminal. -/
theorem Recovers.exists_takes (recovers : automaton.Recovers error)
    (settling : automaton.grammar.Settling weight)
    (path : StackPath automaton.grammar machine.state machine.stack)
    (ordinary : token.symbol.id ≠ automaton.grammar.endSymbol.id)
    (terminal : ∀ state target,
      automaton.grammar.actionOn state token.symbol.id ≠ .ok (some (.goto target))) :
    ∃ own after, Stands automaton.grammar error token own ∧
      automaton.Takes machine token after own := by
  obtain ⟨between, reduces, onward, settled⟩ := exists_settled settling token path
  cases settled with
  | pushed target moved =>
    cases moved with
    | shift listed =>
      exact ⟨token, _, .inl rfl, reduces.takes (.now (step_eq_of_effect (.shift target listed)))⟩
    | goto listed => exact absurd listed (terminal _ target)
  | accepted listed => exact absurd (settling.endMarked.accepts _ _ listed) ordinary
  | unlisted unlisted =>
    by_cases same : token.symbol.id = error
    · obtain ⟨after, takes⟩ := recovers.takes_error settling.wellFormed onward same
      exact ⟨token, after, .inl rfl, reduces.takes takes⟩
    · obtain ⟨inside, -⟩ := recovers.resumes error recovers.given
      obtain ⟨symbol, named⟩ := Grammar.errorTerminal_of_lt inside
      have stepped := step_eq_of_effect (.substitute error symbol unlisted recovers.given same named)
      have numbered : symbol.id = error := Grammar.errorTerminal_id settling.wellFormed named
      have takes : ∃ after, automaton.Takes
          { between with
            tally := { between.tally with recoveries := between.tally.recoveries + 1 } }
          ⟨symbol, token.line, "error"⟩ after ⟨symbol, token.line, "error"⟩ :=
        recovers.takes_error settling.wellFormed onward numbered
      obtain ⟨after, takes⟩ := takes
      exact ⟨_, after, .inr ⟨symbol, named, rfl⟩, reduces.takes (.again stepped takes)⟩

end Automaton

namespace Run

variable {σ : Type} [Source σ] {automaton : Automaton} {run : Run σ} {tokens : List Token}
  {ending : Ending} {error : SymbolId} {weight : SymbolId → Nat}

/-- A run takes a token that it offers, and does nothing else meanwhile. -/
theorem reaches_of_takes {machine after : Machine} {token own : Token}
    (takes : automaton.Takes machine token after own) (held : run.pending = some token)
    (fate : token.fate run.commentDepth = .offered) (same : run.machine = machine) :
    Reaches automaton run { run.drop with machine := after } := by
  induction takes generalizing run with
  | now stepped =>
    subst same
    exact .single (step_of_offered held fate stepped)
  | again stepped _ inductionHypothesis =>
    subst same
    have goes := step_of_offered held fate stepped
    exact .head goes (inductionHypothesis rfl (Automaton.fate_of_step fate stepped) rfl)

/-- A run that recovers gets to where the tokens in store have been used up. Induct on the
tokens: the automaton takes the first. -/
theorem reaches_last (recovers : automaton.Recovers error)
    (settling : automaton.grammar.Settling weight)
    (path : StackPath automaton.grammar run.machine.state run.machine.stack)
    (stored : InStore automaton run tokens ending)
    (ordinary : ∀ token ∈ tokens, token.symbol.id ≠ automaton.grammar.endSymbol.id ∧
      ∀ state target,
        automaton.grammar.actionOn state token.symbol.id ≠ .ok (some (.goto target))) :
    ∃ ready, Reaches automaton run ready ∧ Ready automaton ready [] ending := by
  induction tokens generalizing run with
  | nil =>
    obtain ⟨ready, reached, -, stands⟩ := reaches_ready stored run rfl rfl rfl
    exact ⟨ready, reached, stands⟩
  | cons token tokens inductionHypothesis =>
    obtain ⟨ready, reached, still, held, fate, left⟩ := stored.asks
    obtain ⟨unmarked, terminal⟩ := ordinary token List.mem_cons_self
    rw [← still] at path
    obtain ⟨own, after, -, takes⟩ := recovers.exists_takes settling path unmarked terminal
    have taken := reaches_of_takes takes held fate rfl
    have behind : ∃ last, Reaches automaton { ready.drop with machine := after } last ∧
        Ready automaton last [] ending := by
      apply inductionHypothesis
      · exact takes.path path
      · exact left
      · intro other member
        exact ordinary other (List.mem_cons_of_mem token member)
    obtain ⟨last, further, stands⟩ := behind
    exact ⟨last, (reached.trans taken).trans further, stands⟩

/-- A run gets to another that has a property, and to all others that have it only by way of
that one. -/
def ReachesFirst (automaton : Automaton) (property : Run σ → Prop) (run next : Run σ) : Prop :=
  Reaches automaton run next ∧ property next ∧
    ∀ other, Reaches automaton run other → property other → Reaches automaton next other

/-- A run that gets to one with a property gets to a first one. Induct on the steps. -/
theorem exists_reachesFirst {property : Run σ → Prop} {next : Run σ}
    (reached : Reaches automaton run next) (holds : property next) :
    ∃ first, ReachesFirst automaton property run first := by
  induction reached using Relation.ReflTransGen.head_induction_on with
  | refl => exact ⟨next, .refl, holds, fun _ further _ => further⟩
  | @head run between stepped _ inductionHypothesis =>
    by_cases already : property run
    · exact ⟨run, .refl, already, fun _ further _ => further⟩
    · obtain ⟨first, reached, holds, least⟩ := inductionHypothesis
      refine ⟨first, .head stepped reached, holds, ?_⟩
      intro other further found
      rcases further.cases_head with rfl | ⟨second, same, rest⟩
      · exact absurd found already
      · obtain rfl := Progress.running.inj (stepped.symm.trans same)
        exact least other rest found

end Run

end TableDriven
