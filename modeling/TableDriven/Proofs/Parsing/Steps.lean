import TableDriven.Proofs.Parsing.Effect
import TableDriven.Proofs.Parsing.Upcoming

/-!
# What a step of a run does

A run that has no token at hand scans one. Otherwise it does with the token what is its fate, and
if that is to be offered, what the automaton answers. So there are five things that a step can do
without ending the run, and whatever a run keeps is kept by each of them; and there are five ways
in which the last step of a run comes about.
-/

namespace TableDriven

/-- A token that is to be offered again is offered again: it is the same token, or
it has become a terminal. -/
theorem Automaton.fate_of_step {automaton : Automaton} {machine after : Machine}
    {token next : Token} {depth : Nat} (offered : token.fate depth = .offered)
    (stepped : automaton.step machine token = ⟨after, next, .ok .reduce⟩) :
    next.fate depth = .offered := by
  cases effect_of_step_eq stepped with
  | reduce => exact offered
  | substitute error symbol unlisted recovers ordinary named =>
    obtain ⟨found, -, rfl⟩ : ∃ found, automaton.grammar.symbol error = .ok found ∧
        { found with kind := .terminal } = symbol := by
      unfold Grammar.errorTerminal at named
      cases looked : automaton.grammar.symbol error with
      | error defect => simp [looked, Except.map] at named
      | ok found => exact ⟨found, rfl, by simpa [looked, Except.map] using named⟩
    rw [Token.depth_of_offered offered]
    rfl
  | unwind => exact offered

namespace Run

variable {σ : Type} [Source σ] {automaton : Automaton} {run next : Run σ} {token : Token}

/-- A step that has a token at hand does with it what is its fate. -/
theorem step_of_fate (automaton : Automaton) (held : run.pending = some token) :
    run.step automaton =
      match token.fate run.commentDepth with
      | .dropped depth => .running { run.drop with commentDepth := depth }
      | .lineDropped => .running { run.drop with source := nextLine run.source }
      | .stops error => .ended (.error (.error error)) run
      | .offered => run.offer automaton token := by
  unfold step Token.fate
  rw [held]
  dsimp only
  by_cases outside : run.commentDepth = 0
  · rw [if_pos outside, if_pos outside]
    unfold outsideComment
    cases token.symbol.kind <;> rfl
  · rw [if_neg outside, if_neg outside]
    unfold insideComment
    cases token.symbol.kind <;> rfl

/-- A token that is offered is dealt with as the automaton answers. -/
theorem step_of_offered {advance : Advance} (held : run.pending = some token)
    (fate : token.fate run.commentDepth = .offered)
    (stepped : automaton.step run.machine token = advance) :
    run.step automaton =
      match advance.result with
      | .error halt => .ended (.error halt) { run with machine := advance.machine }
      | .ok .shift => .running { run.drop with machine := advance.machine }
      | .ok .goto => .running { run.drop with machine := advance.machine }
      | .ok .reduce =>
        .running { run with machine := advance.machine, pending := some advance.token }
      | .ok .accept =>
        .ended (advance.machine.root.mapError Halt.defect) { run with machine := advance.machine }
      | .ok .reject =>
        .ended (.error (automaton.rejection advance.machine.state token))
          { run with machine := advance.machine } := by
  subst stepped
  rw [step_of_fate automaton held, fate]
  rfl

/-- A run without a token at hand takes the token that is scanned, and leaves its
machine alone. -/
theorem step_of_scan (empty : run.pending = none)
    (scanned : (Scan.next automaton.grammar automaton.errorSymbol .zero run.source).result =
      .ok token) :
    ∃ next, run.step automaton = .running next ∧ next.machine = run.machine ∧
      next.pending = some token ∧ next.commentDepth = run.commentDepth ∧
      next.source =
        (Scan.next automaton.grammar automaton.errorSymbol .zero run.source).source := by
  obtain ⟨same, moved⟩ := Scan.next_result_tally automaton.grammar automaton.errorSymbol run.scanned
    .zero run.source
  refine ⟨{ run with
    source := (Scan.next automaton.grammar automaton.errorSymbol .zero run.source).source
    scanned := (Scan.next automaton.grammar automaton.errorSymbol run.scanned run.source).tally
    fetched := run.fetched + 1
    pending := some token }, ?_, rfl, rfl, rfl, rfl⟩
  simp only [step, empty, fetch, same, moved, scanned]

/-- A run without a token at hand ends if none can be scanned. -/
theorem step_of_unscanned {halt : Halt} (empty : run.pending = none)
    (failed : (Scan.next automaton.grammar automaton.errorSymbol .zero run.source).result =
      .error halt) : ∃ last, run.step automaton = .ended (.error halt) last := by
  obtain ⟨same, -⟩ := Scan.next_result_tally automaton.grammar automaton.errorSymbol run.scanned
    .zero run.source
  simp only [step, empty, fetch, same, failed]
  exact ⟨_, rfl⟩

/-- What a step does that does not end a run. -/
inductive Stepped (automaton : Automaton) (run : Run σ) : Run σ → Prop where
  /-- A token is scanned. -/
  | fetched (token : Token) (next : Run σ) (empty : run.pending = none)
      (scanned : (Scan.next automaton.grammar automaton.errorSymbol .zero run.source).result =
        .ok token)
      (still : next.machine = run.machine) (held : next.pending = some token)
      (nested : next.commentDepth = run.commentDepth)
      (moved : next.source =
        (Scan.next automaton.grammar automaton.errorSymbol .zero run.source).source) :
      Stepped automaton run next
  /-- The token is dropped. -/
  | dropped (token : Token) (depth : Nat) (held : run.pending = some token)
      (fate : token.fate run.commentDepth = .dropped depth) :
      Stepped automaton run { run.drop with commentDepth := depth }
  /-- The token is dropped with the rest of its line. -/
  | lineDropped (token : Token) (held : run.pending = some token)
      (fate : token.fate run.commentDepth = .lineDropped) :
      Stepped automaton run { run.drop with source := nextLine run.source }
  /-- The token is pushed. -/
  | pushed (token again : Token) (after : Machine) (signal : Signal)
      (held : run.pending = some token) (fate : token.fate run.commentDepth = .offered)
      (advance : automaton.step run.machine token = ⟨after, again, .ok signal⟩)
      (pushed : signal = .shift ∨ signal = .goto) :
      Stepped automaton run { run.drop with machine := after }
  /-- The token is to be offered again, as the automaton has left it. -/
  | again (token again : Token) (after : Machine) (held : run.pending = some token)
      (fate : token.fate run.commentDepth = .offered)
      (advance : automaton.step run.machine token = ⟨after, again, .ok .reduce⟩) :
      Stepped automaton run { run with machine := after, pending := some again }

/-- A step that does not end a run does one of these. -/
theorem stepped_of_step (stepped : run.step automaton = .running next) :
    Stepped automaton run next := by
  cases held : run.pending with
  | none =>
    cases scanned : (Scan.next automaton.grammar automaton.errorSymbol .zero run.source).result with
    | error halt =>
      obtain ⟨last, ended⟩ := step_of_unscanned held scanned
      rw [ended] at stepped
      contradiction
    | ok token =>
      obtain ⟨own, fetched, still, found, nested, moved⟩ := step_of_scan held scanned
      obtain rfl := Progress.running.inj (fetched.symm.trans stepped)
      exact .fetched token own held scanned still found nested moved
  | some token =>
    have answer := step_of_fate automaton held
    rw [stepped] at answer
    cases fate : token.fate run.commentDepth with
    | dropped depth =>
      rw [fate] at answer
      obtain rfl := Progress.running.inj answer
      exact .dropped token depth held fate
    | lineDropped =>
      rw [fate] at answer
      obtain rfl := Progress.running.inj answer
      exact .lineDropped token held fate
    | stops error =>
      rw [fate] at answer
      contradiction
    | offered =>
      rcases advance : automaton.step run.machine token with ⟨after, again, halt | signal⟩
      · rw [step_of_offered held fate advance] at stepped
        contradiction
      · rw [step_of_offered held fate advance] at stepped
        cases signal with
        | shift =>
          obtain rfl := Progress.running.inj stepped
          exact .pushed token again after .shift held fate advance (.inl rfl)
        | goto =>
          obtain rfl := Progress.running.inj stepped
          exact .pushed token again after .goto held fate advance (.inr rfl)
        | reduce =>
          obtain rfl := Progress.running.inj stepped
          exact .again token again after held fate advance
        | accept => contradiction
        | reject => contradiction

/-- How the last step of a run comes about: a scan fails, or the token at hand ends the parse
by itself, or the automaton fails on it, accepts it or rejects it. -/
inductive Stopped (automaton : Automaton) (run : Run σ) :
    Except Halt Node → Prop where
  | unscanned (halt : Halt) (hand : run.pending = none)
      (failed : (Scan.next automaton.grammar automaton.errorSymbol .zero run.source).result =
        .error halt) : Stopped automaton run (.error halt)
  | stops (token : Token) (error : ParseError) (held : run.pending = some token)
      (fate : token.fate run.commentDepth = .stops error) :
      Stopped automaton run (.error (.error error))
  | failed (token : Token) (halt : Halt) (held : run.pending = some token)
      (failed : (automaton.step run.machine token).result = .error halt) :
      Stopped automaton run (.error halt)
  | accepted (token : Token) (held : run.pending = some token)
      (fate : token.fate run.commentDepth = .offered)
      (listed : automaton.grammar.actionOn run.machine.state token.symbol.id =
        .ok (some .accept)) :
      Stopped automaton run (run.machine.root.mapError Halt.defect)
  | rejected (token : Token) (held : run.pending = some token)
      (unlisted : automaton.grammar.actionOn run.machine.state token.symbol.id = .ok none) :
      Stopped automaton run (.error (automaton.rejection run.machine.state token))

/-- Every last step comes about in one of these ways. -/
theorem stopped_of_step {last : Run σ} {result : Except Halt Node}
    (ended : run.step automaton = .ended result last) :
    Stopped automaton run result := by
  cases hand : run.pending with
  | none =>
    cases scanned : (Scan.next automaton.grammar automaton.errorSymbol .zero run.source).result with
    | ok token =>
      obtain ⟨next, stepped, -⟩ := step_of_scan hand scanned
      rw [stepped] at ended
      contradiction
    | error halt =>
      obtain ⟨final, stopped⟩ := step_of_unscanned hand scanned
      obtain ⟨rfl, -⟩ := Progress.ended.inj (stopped.symm.trans ended)
      exact .unscanned halt hand scanned
  | some token =>
    have goes := step_of_fate automaton hand
    rw [ended] at goes
    cases fate : token.fate run.commentDepth with
    | dropped depth =>
      rw [fate] at goes
      contradiction
    | lineDropped =>
      rw [fate] at goes
      contradiction
    | stops error =>
      rw [fate] at goes
      obtain ⟨rfl, -⟩ := Progress.ended.inj goes
      exact .stops token error hand fate
    | offered =>
      rcases advance : automaton.step run.machine token with ⟨after, again, halt | signal⟩
      · rw [step_of_offered hand fate advance] at ended
        obtain ⟨rfl, -⟩ := Progress.ended.inj ended
        exact .failed token halt hand (congrArg Advance.result advance)
      · rw [step_of_offered hand fate advance] at ended
        have effect := Automaton.effect_of_step_eq advance
        cases effect with
        | shift => contradiction
        | goto => contradiction
        | reduce => contradiction
        | substitute => contradiction
        | unwind => contradiction
        | accept listed =>
          obtain ⟨rfl, -⟩ := Progress.ended.inj ended
          exact .accepted token hand fate listed
        | reject unlisted =>
          obtain ⟨rfl, -⟩ := Progress.ended.inj ended
          exact .rejected token hand unlisted

end Run

end TableDriven
