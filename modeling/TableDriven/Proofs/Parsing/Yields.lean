import TableDriven.Proofs.Parsing.Reachable

/-!
# Scanning first and parsing second

A run takes tokens off its source while the automaton is at work, but the one has
no influence on the other: the automaton sees the tokens that the source has in
store, one after the other, whenever it asks for the next. So what a run ends with
is what the automaton ends with when it is handed the list of tokens, the end of
the input being repeated as often as it is asked for. A run that never ends is an
automaton that never ends.
-/

namespace TableDriven

/-- What the automaton ends with when it is offered some tokens and then what they
end with. -/
inductive Automaton.Yields (automaton : Automaton) (ending : Ending) :
    Machine → List Token → Except Halt Node → Prop where
  | pushed {machine after : Machine} {token next : Token} {signal : Signal}
      {tokens : List Token} {result : Except Halt Node}
      (stepped : automaton.step machine token = ⟨after, next, .ok signal⟩)
      (pushed : signal = .shift ∨ signal = .goto)
      (rest : Yields automaton ending after tokens result) :
      Yields automaton ending machine (token :: tokens) result
  | again {machine after : Machine} {token next : Token} {tokens : List Token}
      {result : Except Halt Node}
      (stepped : automaton.step machine token = ⟨after, next, .ok .reduce⟩)
      (rest : Yields automaton ending after (next :: tokens) result) :
      Yields automaton ending machine (token :: tokens) result
  | accepted {machine after : Machine} {token next : Token} {tokens : List Token}
      (stepped : automaton.step machine token = ⟨after, next, .ok .accept⟩) :
      Yields automaton ending machine (token :: tokens) (after.root.mapError Halt.defect)
  | rejected {machine after : Machine} {token next : Token} {tokens : List Token}
      (stepped : automaton.step machine token = ⟨after, next, .ok .reject⟩) :
      Yields automaton ending machine (token :: tokens)
        (.error (automaton.rejection after.state token))
  | halted {machine after : Machine} {token next : Token} {tokens : List Token} {halt : Halt}
      (stepped : automaton.step machine token = ⟨after, next, .error halt⟩) :
      Yields automaton ending machine (token :: tokens) (.error halt)
  | refilled {machine : Machine} {last : Token} {result : Except Halt Node}
      (complete : ending = .complete last)
      (rest : Yields automaton ending machine [last] result) :
      Yields automaton ending machine [] result
  | stopped {machine : Machine} {error : ParseError} (ends : ending = .stopped error) :
      Yields automaton ending machine [] (.error (.error error))

namespace Run

variable {σ : Type} [Source σ] {automaton : Automaton} {run next last : Run σ}
  {tokens : List Token} {ending : Ending} {result : Except Halt Node}

/-- What is in store for a run. -/
def InStore (automaton : Automaton) (run : Run σ) (tokens : List Token) (ending : Ending) : Prop :=
  Upcoming automaton.grammar automaton.errorSymbol run.pending run.commentDepth run.source tokens
    ending

/-- A token that is at hand and is offered is the first in store, ahead of what the
source has. -/
theorem InStore.offering {token : Token} (held : run.pending = some token)
    (fate : token.fate run.commentDepth = .offered)
    (rest : InStore automaton run.drop tokens ending) :
    InStore automaton run (token :: tokens) ending := by
  unfold InStore
  rw [held]
  exact .offered fate rest

/-- Where a run stands when the automaton is about to be asked: a token is at hand
that is offered, or one that ends the parse. The end of the input is offered
although it is not counted among the tokens in store. -/
inductive Ready (automaton : Automaton) (run : Run σ) : List Token → Ending → Prop where
  | offering (token : Token) {tokens : List Token} {ending : Ending}
      (held : run.pending = some token) (fate : token.fate run.commentDepth = .offered)
      (rest : InStore automaton run.drop tokens ending) :
      Ready automaton run (token :: tokens) ending
  | finishing (last : Token) (held : run.pending = some last)
      (fate : last.fate run.commentDepth = .offered)
      (rest : InStore automaton run.drop [] (.complete last)) :
      Ready automaton run [] (.complete last)
  | stopping (token : Token) (error : ParseError) (held : run.pending = some token)
      (fate : token.fate run.commentDepth = .stops error) :
      Ready automaton run [] (.stopped error)

/-- A run gets to where the automaton is asked about the first token in store
without moving its machine. -/
theorem reaches_ready {hand : Option Token} {depth : Nat} {source : σ}
    (upcoming : Upcoming automaton.grammar automaton.errorSymbol hand depth source tokens ending) :
    ∀ run : Run σ, run.pending = hand → run.commentDepth = depth → run.source = source →
      ∃ ready, Reaches automaton run ready ∧ ready.machine = run.machine ∧
        Ready automaton ready tokens ending := by
  induction upcoming with
  | @finished source done =>
    rintro run empty outside rfl
    have scan := Scan.next_of_atEnd done automaton.grammar automaton.errorSymbol .zero
    obtain ⟨next, stepped, still, held, nested, moved⟩ :=
      step_of_scan empty (congrArg Scan.result scan)
    rw [scan] at moved
    rw [outside] at nested
    refine ⟨next, .single stepped, still, .finishing _ held ?_ ?_⟩
    · rw [nested]
      rfl
    · simp only [InStore, drop, nested, moved]
      exact .finished done
  | fetched left scanned rest inductionHypothesis =>
    rintro run empty rfl rfl
    obtain ⟨next, stepped, still, held, nested, moved⟩ := step_of_scan empty scanned
    obtain ⟨ready, reached, same, stands⟩ := inductionHypothesis next held nested moved
    exact ⟨ready, .head stepped reached, same.trans still, stands⟩
  | dropped fate rest inductionHypothesis =>
    rintro run held rfl rfl
    have stepped := step_of_fate automaton held
    rw [fate] at stepped
    obtain ⟨ready, reached, still, stands⟩ :=
      inductionHypothesis { run.drop with commentDepth := _ } rfl rfl rfl
    exact ⟨ready, .head stepped reached, still, stands⟩
  | lineDropped fate rest inductionHypothesis =>
    rintro run held rfl rfl
    have stepped := step_of_fate automaton held
    rw [fate] at stepped
    obtain ⟨ready, reached, still, stands⟩ :=
      inductionHypothesis { run.drop with source := nextLine run.source } rfl rfl rfl
    exact ⟨ready, .head stepped reached, still, stands⟩
  | stopped fate =>
    rintro run held rfl rfl
    exact ⟨run, .refl, rfl, .stopping _ _ held fate⟩
  | offered fate rest inductionHypothesis =>
    rintro run held rfl rfl
    exact ⟨run, .refl, rfl, .offering _ held fate rest⟩

/-- A run ends with a result if it gets to a step that ends with it. -/
def EndsWith (automaton : Automaton) (run : Run σ) (result : Except Halt Node) : Prop :=
  ∃ before last, Reaches automaton run before ∧ before.step automaton = .ended result last

/-- A run ends as any run that it gets to does. -/
theorem EndsWith.of_reaches (reached : Reaches automaton run next)
    (ends : EndsWith automaton next result) : EndsWith automaton run result := by
  obtain ⟨before, last, further, stopped⟩ := ends
  exact ⟨before, last, reached.trans further, stopped⟩

/-- The last run that a run gets to is the only one. -/
theorem ended_unique {before other final : Run σ} {again : Except Halt Node}
    (reached : Reaches automaton run before) (stopped : before.step automaton = .ended result last)
    (further : Reaches automaton run other) (halted : other.step automaton = .ended again final) :
    again = result ∧ final = last := by
  induction reached using Relation.ReflTransGen.head_induction_on with
  | refl =>
    rcases further.cases_head with rfl | ⟨next, stepped, -⟩
    · exact Progress.ended.inj (halted.symm.trans stopped)
    · rw [stopped] at stepped
      contradiction
  | head stepped _ inductionHypothesis =>
    rcases further.cases_head with rfl | ⟨next, same, rest⟩
    · rw [stepped] at halted
      contradiction
    · obtain rfl := Progress.running.inj (stepped.symm.trans same)
      exact inductionHypothesis rest

/-- A run ends with one result only. -/
theorem EndsWith.unique {other : Except Halt Node} (ends : EndsWith automaton run result)
    (again : EndsWith automaton run other) : other = result := by
  obtain ⟨before, last, reached, stopped⟩ := ends
  obtain ⟨second, final, further, halted⟩ := again
  exact (ended_unique reached stopped further halted).1

/-- A run gets to where it offers the first token in store, and its next step follows
from what the automaton makes of that token. -/
theorem InStore.asks {token : Token} (stored : InStore automaton run (token :: tokens) ending) :
    ∃ ready, Reaches automaton run ready ∧ ready.machine = run.machine ∧
      ready.pending = some token ∧ token.fate ready.commentDepth = .offered ∧
      InStore automaton ready.drop tokens ending := by
  obtain ⟨ready, reached, still, stands⟩ := reaches_ready stored run rfl rfl rfl
  cases stands with
  | offering token held fate left => exact ⟨ready, reached, still, held, fate, left⟩

/-- What the automaton yields from the tokens in store is what the run ends with.
Induct on what the automaton does: each time the run gets ready, and its next step
is that of the automaton. -/
theorem endsWith_of_yields {machine : Machine}
    (yields : automaton.Yields ending machine tokens result) :
    ∀ run : Run σ, run.machine = machine → InStore automaton run tokens ending →
      EndsWith automaton run result := by
  induction yields with
  | @pushed machine after token next signal tokens result stepped pushed rest inductionHypothesis =>
    rintro run rfl stored
    obtain ⟨ready, reached, still, held, fate, left⟩ := stored.asks
    have goes : ready.step automaton = .running { ready.drop with machine := after } := by
      have answer := step_of_offered held fate (still ▸ stepped)
      rcases pushed with rfl | rfl
      · exact answer
      · exact answer
    refine .of_reaches (reached.tail goes) ?_
    exact inductionHypothesis { ready.drop with machine := after } rfl left
  | again stepped rest inductionHypothesis =>
    rintro run rfl stored
    obtain ⟨ready, reached, still, held, fate, left⟩ := stored.asks
    have goes := step_of_offered held fate (still ▸ stepped)
    have kept := Automaton.fate_of_step fate stepped
    exact .of_reaches (reached.tail goes) (inductionHypothesis _ rfl (.offering rfl kept left))
  | accepted stepped =>
    rintro run rfl stored
    obtain ⟨ready, reached, still, held, fate, -⟩ := stored.asks
    exact ⟨ready, _, reached, step_of_offered held fate (still ▸ stepped)⟩
  | rejected stepped =>
    rintro run rfl stored
    obtain ⟨ready, reached, still, held, fate, -⟩ := stored.asks
    exact ⟨ready, _, reached, step_of_offered held fate (still ▸ stepped)⟩
  | halted stepped =>
    rintro run rfl stored
    obtain ⟨ready, reached, still, held, fate, -⟩ := stored.asks
    exact ⟨ready, _, reached, step_of_offered held fate (still ▸ stepped)⟩
  | refilled complete rest inductionHypothesis =>
    rintro run rfl stored
    obtain ⟨ready, reached, still, stands⟩ := reaches_ready stored run rfl rfl rfl
    cases stands with
    | finishing last held fate left =>
      obtain rfl := Ending.complete.inj complete
      exact .of_reaches reached (inductionHypothesis ready still (.offering held fate left))
    | stopping => contradiction
  | stopped ends =>
    rintro run rfl stored
    obtain ⟨ready, reached, still, stands⟩ := reaches_ready stored run rfl rfl rfl
    cases stands with
    | finishing => contradiction
    | stopping token error held fate =>
      obtain rfl := Ending.stopped.inj ends
      have stopped := step_of_fate automaton held
      rw [fate] at stopped
      exact ⟨ready, _, reached, stopped⟩

/-- Behind a token at hand there is in store what follows from its fate. -/
theorem InStore.of_hand {token : Token} (stored : InStore automaton run tokens ending)
    (held : run.pending = some token) :
    match token.fate run.commentDepth with
    | .dropped depth => InStore automaton { run.drop with commentDepth := depth } tokens ending
    | .lineDropped =>
      InStore automaton { run.drop with source := nextLine run.source } tokens ending
    | .stops error => tokens = [] ∧ ending = .stopped error
    | .offered => ∃ rest, tokens = token :: rest ∧ InStore automaton run.drop rest ending := by
  unfold InStore at stored
  rw [held] at stored
  exact stored.of_hand

/-- A step that does not end a run leaves in store what the automaton still has to
be offered, and it yields from that what it yields from all. -/
theorem yields_of_running (stored : InStore automaton run tokens ending)
    (stepped : run.step automaton = .running next) :
    ∃ others, InStore automaton next others ending ∧
      ∀ result, automaton.Yields ending next.machine others result →
        automaton.Yields ending run.machine tokens result := by
  cases stepped_of_step stepped with
  | fetched token next empty scanned still held nested moved =>
    unfold InStore at stored
    rw [empty] at stored
    obtain ⟨own, others, same, rest, kind⟩ := stored.of_none
    obtain rfl := Except.ok.inj (scanned.symm.trans same)
    refine ⟨others, by rwa [InStore, held, nested, moved], fun result yields => ?_⟩
    rw [still] at yields
    rcases kind with rfl | ⟨rfl, rfl, complete⟩
    · exact yields
    · exact .refilled complete yields
  | dropped token depth held fate =>
    have left := stored.of_hand held
    rw [fate] at left
    exact ⟨tokens, left, fun result yields => yields⟩
  | lineDropped token held fate =>
    have left := stored.of_hand held
    rw [fate] at left
    exact ⟨tokens, left, fun result yields => yields⟩
  | pushed token again after signal held fate advance pushed =>
    have left := stored.of_hand held
    rw [fate] at left
    obtain ⟨rest, rfl, left⟩ := left
    exact ⟨rest, left, fun result yields => .pushed advance pushed yields⟩
  | again token again after held fate advance =>
    have left := stored.of_hand held
    rw [fate] at left
    obtain ⟨rest, rfl, left⟩ := left
    have kept := Automaton.fate_of_step fate advance
    exact ⟨again :: rest, .offering rfl kept left, fun result yields => .again advance yields⟩

/-- The last step of a run is one of the automaton, or the end of the tokens. -/
theorem yields_of_ended (stored : InStore automaton run tokens ending)
    (stopped : run.step automaton = .ended result last) :
    automaton.Yields ending run.machine tokens result := by
  cases held : run.pending with
  | none =>
    unfold InStore at stored
    rw [held] at stored
    obtain ⟨token, -, scanned, -⟩ := stored.of_none
    obtain ⟨after, fetched, -⟩ := step_of_scan held scanned
    rw [fetched] at stopped
    contradiction
  | some token =>
    have left := stored.of_hand held
    have answer := step_of_fate automaton held
    rw [stopped] at answer
    cases fate : token.fate run.commentDepth with
    | dropped depth =>
      rw [fate] at answer
      contradiction
    | lineDropped =>
      rw [fate] at answer
      contradiction
    | stops error =>
      rw [fate] at answer left
      obtain ⟨rfl, -⟩ := Progress.ended.inj answer
      obtain ⟨rfl, ends⟩ := left
      exact .stopped ends
    | offered =>
      rw [fate] at left
      obtain ⟨rest, rfl, -⟩ := left
      rcases advance : automaton.step run.machine token with ⟨after, again, halt | signal⟩
      · rw [step_of_offered held fate advance] at stopped
        obtain ⟨rfl, -⟩ := Progress.ended.inj stopped
        exact .halted advance
      · rw [step_of_offered held fate advance] at stopped
        cases signal with
        | accept =>
          obtain ⟨rfl, -⟩ := Progress.ended.inj stopped
          exact .accepted advance
        | reject =>
          obtain ⟨rfl, -⟩ := Progress.ended.inj stopped
          exact .rejected advance
        | shift => contradiction
        | goto => contradiction
        | reduce => contradiction

/-- What every token has together with the source behind it when it is scanned, and keeps
when it is offered again, the token at hand has throughout a run. -/
theorem held_of_reaches (property : Token → σ → Prop)
    (scanned : ∀ source token,
      (Scan.next automaton.grammar automaton.errorSymbol .zero source).result = .ok token →
      property token (Scan.next automaton.grammar automaton.errorSymbol .zero source).source)
    (kept : ∀ machine after token next source,
      automaton.Effect machine token after next .reduce → property token source →
      property next source)
    (empty : run.pending = none) (reached : Reaches automaton run last) :
    ∀ token ∈ last.pending, property token last.source := by
  induction reached with
  | refl => simp [empty]
  | @tail run next _ stepped inductionHypothesis =>
    cases stepped_of_step stepped with
    | fetched token next empty found still held nested moved =>
      intro own member
      obtain rfl := Option.some.inj (held.symm.trans member)
      rw [moved]
      exact scanned run.source token found
    | dropped token depth held fate => simp [drop]
    | lineDropped token held fate => simp [drop]
    | pushed token again after signal held fate advance pushed => simp [drop]
    | again token again after held fate advance =>
      intro own member
      obtain rfl := Option.some.inj member
      have effect := Automaton.effect_of_step_eq advance
      exact kept _ _ _ _ _ effect (inductionHypothesis token held)

/-- A run ends with what the automaton yields from the tokens in store, and with
nothing else. -/
theorem endsWith_iff_yields (stored : InStore automaton run tokens ending) :
    EndsWith automaton run result ↔ automaton.Yields ending run.machine tokens result := by
  constructor
  · rintro ⟨before, last, reached, stopped⟩
    induction reached using Relation.ReflTransGen.head_induction_on generalizing tokens with
    | refl => exact yields_of_ended stored stopped
    | head stepped _ inductionHypothesis =>
      obtain ⟨others, remaining, yields⟩ := yields_of_running stored stepped
      exact yields result (inductionHypothesis remaining)
  · intro yields
    exact endsWith_of_yields yields run rfl stored

end Run

/-- Different results have different outcomes, and none of them is that of a parse
that has not ended. -/
theorem Outcome.ofResult_inj {α : Type} {result other : Except Halt α}
    (same : ofResult result = ofResult other) : result = other := by
  rcases result with (error | defect) | value
  · rcases other with (_ | _) | _ <;> simp_all [ofResult]
  · rcases other with (_ | _) | _ <;> simp_all [ofResult]
  · rcases other with (_ | _) | _ <;> simp_all [ofResult]

/-- A parse has ended if its outcome is that of a result. -/
theorem Outcome.ne_unfinished_iff {α : Type} {outcome : Outcome ParseError α} :
    outcome ≠ .unfinished ↔ ∃ result, outcome = ofResult result := by
  constructor
  · intro ended
    cases outcome with
    | done value => exact ⟨.ok value, rfl⟩
    | failed error => exact ⟨.error (.error error), rfl⟩
    | broken defect => exact ⟨.error (.defect defect), rfl⟩
    | unfinished => contradiction
  · rintro ⟨(_ | _) | _, rfl⟩ <;> exact nofun

/-- A parse that has the outcome of a result was a run that ended with the result. -/
theorem Parser.finish_of_parse {σ : Type} [Source σ] {parser : Parser} {source : σ}
    {first : Run σ} {trim : Bool} {limit : Nat} {result : Except Halt Node}
    (begun : parser.begin? source = .ok first)
    (parsed : (parser.parse source trim limit).outcome = Outcome.ofResult result) :
    ∃ last, first.finish (parser.automaton trim) limit = some (result, last) := by
  simp only [parse, begun] at parsed
  cases ended : first.finish (parser.automaton trim) limit with
  | none =>
    rw [ended] at parsed
    exact absurd parsed.symm (Outcome.ne_unfinished_iff.mpr ⟨result, rfl⟩)
  | some pair =>
    obtain ⟨own, last⟩ := pair
    rw [ended] at parsed
    obtain rfl := Outcome.ofResult_inj parsed
    exact ⟨last, rfl⟩

/-- Within some limit a parse has the outcome of what its run ends with. -/
theorem Parser.parse_iff_endsWith {σ : Type} [Source σ] {parser : Parser} {source : σ}
    {first : Run σ} (trim : Bool) (result : Except Halt Node)
    (begun : parser.begin? source = .ok first) :
    (∃ limit, (parser.parse source trim limit).outcome = Outcome.ofResult result) ↔
      Run.EndsWith (parser.automaton trim) first result := by
  constructor
  · rintro ⟨limit, parsed⟩
    obtain ⟨last, ended⟩ := finish_of_parse begun parsed
    obtain ⟨before, reached, stopped⟩ := Run.reaches_of_finish ended
    exact ⟨before, last, reached, stopped⟩
  · rintro ⟨before, last, reached, stopped⟩
    obtain ⟨limit, ended⟩ := Run.finish_of_reaches reached stopped
    exact ⟨limit, by simp only [parse, begun, ended]⟩

/-- A parse that begins has not ended within its limit or has the outcome of a result. -/
theorem Parser.outcome_cases {σ : Type} [Source σ] {parser : Parser} {source : σ} {first : Run σ}
    (trim : Bool) (limit : Nat) (begun : parser.begin? source = .ok first) :
    (parser.parse source trim limit).outcome = .unfinished ∨
      ∃ result, (parser.parse source trim limit).outcome = Outcome.ofResult result := by
  unfold parse
  rw [begun]
  dsimp only
  cases first.finish (parser.automaton trim) limit with
  | none => exact .inl rfl
  | some pair => exact .inr ⟨pair.1, rfl⟩

/-- A parse ends in one way only, whatever limits it is given. -/
theorem Parser.result_unique {σ : Type} [Source σ] {parser : Parser} {source : σ} {trim : Bool}
    {limit other : Nat} {result again : Except Halt Node}
    (parsed : (parser.parse source trim limit).outcome = Outcome.ofResult result)
    (second : (parser.parse source trim other).outcome = Outcome.ofResult again) :
    again = result := by
  cases begun : parser.begin? source with
  | error defect =>
    simp only [parse, begun] at parsed second
    exact Outcome.ofResult_inj (second.symm.trans parsed)
  | ok first =>
    have ends := (parse_iff_endsWith trim result begun).mp ⟨limit, parsed⟩
    have twice := (parse_iff_endsWith trim again begun).mp ⟨other, second⟩
    exact ends.unique twice

/-- Within some limit a parse has the outcome that the automaton yields from the
tokens that its source has in store. -/
theorem Parser.parse_iff_yields {σ : Type} [Source σ] {parser : Parser} {source : σ}
    {first : Run σ} {tokens : List Token} {ending : Ending} (trim : Bool)
    (result : Except Halt Node) (begun : parser.begin? source = .ok first)
    (upcoming : Upcoming parser.grammar parser.errorSymbol none 0 source tokens ending) :
    (∃ limit, (parser.parse source trim limit).outcome = Outcome.ofResult result) ↔
      (parser.automaton trim).Yields ending first.machine tokens result := by
  obtain ⟨start, -, rfl⟩ := Parser.begin?_eq_ok.mp begun
  exact (parse_iff_endsWith trim result begun).trans (Run.endsWith_iff_yields upcoming)

end TableDriven
