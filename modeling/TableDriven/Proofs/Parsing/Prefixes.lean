import TableDriven.Proofs.Parsing.Resumption

/-!
# The tokens before the first error

An automaton that does not recover pushes tokens, one after the other and each after some
reductions, until it meets one that it accepts or that has no action. The labels of its stack
can at any time be rewritten into the symbols of the tokens that it has pushed. What it does
with the tokens behind does not depend on how those before were pushed. A run of it offers the
tokens in the order in which they come from the source, and ends with the one that is rejected
without having read anything behind it.
-/

namespace TableDriven

namespace Automaton

variable {automaton : Automaton} {machine between after : Machine} {token : Token}
  {tokens rest all : List Token} {ending : Ending} {result : Except Halt Node}
  {weight : SymbolId → Nat}

/-- The automaton pushes some tokens, each after some reductions. -/
inductive Pushes (automaton : Automaton) : Machine → List Token → Machine → Prop where
  | nil (machine : Machine) : Pushes automaton machine [] machine
  | cons {machine between after last : Machine} {token : Token} {tokens : List Token}
      (reduces : automaton.ReducesTo token machine between)
      (shifted : automaton.step between token = ⟨after, token, .ok .shift⟩)
      (others : Pushes automaton after tokens last) :
      Pushes automaton machine (token :: tokens) last

/-- Pushing tokens keeps the stack a path. -/
theorem Pushes.path (pushes : automaton.Pushes machine tokens after)
    (path : StackPath automaton.grammar machine.state machine.stack) :
    StackPath automaton.grammar after.state after.stack := by
  induction pushes with
  | nil => exact path
  | cons reduces shifted _ inductionHypothesis =>
    exact inductionHypothesis ((reduces.path path).effect (effect_of_step_eq shifted))

/-- Labels after some reductions can be rewritten into those before. -/
theorem ReducesTo.derives (settling : automaton.grammar.Settling weight)
    (reduces : automaton.ReducesTo token machine after)
    (path : StackPath automaton.grammar machine.state machine.stack) :
    automaton.grammar.Derives after.stack.labels machine.stack.labels := by
  induction reduces with
  | refl => exact .refl
  | tail before last inductionHypothesis =>
    obtain ⟨id, listed, reduced⟩ := last
    obtain ⟨rule, prior, looked, split, replaced⟩ := reduced.labels settling.wellFormed
      settling.consistent (ReducesTo.path before path) listed
    refine .trans (.single ⟨id, rule, prior, [], looked, replaced, ?_⟩) inductionHypothesis
    rw [split, List.append_nil]

/-- Labels after tokens have been pushed can be rewritten into those before and the symbols of
the tokens. -/
theorem Pushes.derives (settling : automaton.grammar.Settling weight)
    (pushes : automaton.Pushes machine tokens after)
    (path : StackPath automaton.grammar machine.state machine.stack) :
    automaton.grammar.Derives after.stack.labels
      (machine.stack.labels ++ tokens.map fun token => token.symbol.id) := by
  induction pushes with
  | nil =>
    rw [List.map_nil, List.append_nil]
    exact .refl
  | @cons machine between after last token tokens reduces shifted _ inductionHypothesis =>
    have onward := reduces.path path
    have effect := effect_of_step_eq shifted
    have labels := effect.labels_of_pushed (.inl rfl) onward.ne_nil
    have behind := inductionHypothesis (onward.effect effect)
    have before := (reduces.derives settling path).within []
      (token.symbol.id :: tokens.map fun token => token.symbol.id)
    rw [labels, List.append_assoc] at behind
    exact behind.trans before

/-- What the automaton makes of some tokens: it pushes them all, or those before one that it
accepts or that has no action. -/
inductive Verdict (automaton : Automaton) (machine : Machine) (all : List Token) : Prop where
  | pushed (after : Machine) (pushes : automaton.Pushes machine all after)
  | accepted (before : List Token) (token : Token) (rest : List Token) (between after : Machine)
      (split : all = before ++ token :: rest) (pushes : automaton.Pushes machine before between)
      (reduces : automaton.ReducesTo token between after)
      (listed : automaton.grammar.actionOn after.state token.symbol.id = .ok (some .accept))
  | rejected (before : List Token) (token : Token) (rest : List Token) (between after : Machine)
      (split : all = before ++ token :: rest) (pushes : automaton.Pushes machine before between)
      (reduces : automaton.ReducesTo token between after)
      (unlisted : automaton.grammar.actionOn after.state token.symbol.id = .ok none)

/-- The automaton makes something of all tokens that are not heads of rules. Induct on the
tokens. -/
theorem verdict (settling : automaton.grammar.Settling weight) (all : List Token)
    (path : StackPath automaton.grammar machine.state machine.stack)
    (terminal : ∀ token ∈ all, ∀ state target,
      automaton.grammar.actionOn state token.symbol.id ≠ .ok (some (.goto target))) :
    automaton.Verdict machine all := by
  induction all generalizing machine with
  | nil => exact .pushed machine (.nil machine)
  | cons token tokens inductionHypothesis =>
    obtain ⟨between, reduces, onward, settled⟩ := exists_settled settling token path
    cases settled with
    | accepted listed => exact .accepted [] token tokens machine between rfl (.nil _) reduces listed
    | unlisted unlisted =>
      exact .rejected [] token tokens machine between rfl (.nil _) reduces unlisted
    | pushed target moved =>
      cases moved with
      | goto listed => exact absurd listed (terminal token List.mem_cons_self _ target)
      | shift listed =>
        have shifted := Effect.shift target listed
        have stepped := step_eq_of_effect shifted
        have others := inductionHypothesis (onward.effect shifted) fun other member =>
          terminal other (List.mem_cons_of_mem token member)
        cases others with
        | pushed after pushes => exact .pushed after (.cons reduces stepped pushes)
        | accepted before last rest prior after split pushes further listed =>
          exact .accepted (token :: before) last rest prior after (congrArg (token :: ·) split)
            (.cons reduces stepped pushes) further listed
        | rejected before last rest prior after split pushes further unlisted =>
          exact .rejected (token :: before) last rest prior after (congrArg (token :: ·) split)
            (.cons reduces stepped pushes) further unlisted

/-- What the automaton yields from some tokens follows from its step on the first. -/
theorem Yields.after_step (yields : automaton.Yields ending machine (token :: rest) result) :
    match automaton.step machine token with
    | ⟨after, _, .ok .shift⟩ => automaton.Yields ending after rest result
    | ⟨after, _, .ok .goto⟩ => automaton.Yields ending after rest result
    | ⟨after, next, .ok .reduce⟩ => automaton.Yields ending after (next :: rest) result
    | ⟨after, _, .ok .accept⟩ => result = after.root.mapError Halt.defect
    | ⟨after, _, .ok .reject⟩ => result = .error (automaton.rejection after.state token)
    | ⟨_, _, .error halt⟩ => result = .error halt := by
  cases yields with
  | pushed stepped pushed others =>
    rw [stepped]
    rcases pushed with rfl | rfl
    · exact others
    · exact others
  | again stepped others =>
    rw [stepped]
    exact others
  | accepted stepped => rw [stepped]
  | rejected stepped => rw [stepped]
  | halted stepped => rw [stepped]

/-- What the automaton yields before some reductions, it yields after them. -/
theorem ReducesTo.of_yields (reduces : automaton.ReducesTo token machine after)
    (yields : automaton.Yields ending machine (token :: rest) result) :
    automaton.Yields ending after (token :: rest) result := by
  induction reduces with
  | refl => exact yields
  | tail _ last inductionHypothesis =>
    have next := inductionHypothesis.after_step
    rw [step_eq_of_effect last.effect] at next
    exact next

/-- What the automaton yields from tokens that it pushes and others, it then yields from the
others. -/
theorem Pushes.of_yields (pushes : automaton.Pushes machine tokens after)
    (yields : automaton.Yields ending machine (tokens ++ rest) result) :
    automaton.Yields ending after rest result := by
  induction pushes with
  | nil => exact yields
  | cons reduces shifted _ inductionHypothesis =>
    have next := (reduces.of_yields yields).after_step
    rw [shifted] at next
    exact inductionHypothesis next

/-- From a token without an action nothing is yielded but its rejection. -/
theorem Yields.eq_rejection (strict : automaton.errorSymbol = none)
    (unlisted : automaton.grammar.actionOn machine.state token.symbol.id = .ok none)
    (yields : automaton.Yields ending machine (token :: rest) result) :
    result = .error (automaton.rejection machine.state token) := by
  have next := yields.after_step
  rw [step_eq_of_effect (.reject unlisted strict)] at next
  exact next

/-- From a token that is accepted nothing is yielded but the root of the stack. -/
theorem Yields.eq_root
    (listed : automaton.grammar.actionOn machine.state token.symbol.id = .ok (some .accept))
    (yields : automaton.Yields ending machine (token :: rest) result) :
    result = machine.root.mapError Halt.defect := by
  have next := yields.after_step
  rw [step_eq_of_effect (.accept listed)] at next
  exact next

/-- The end of the input may be in the list, as it would be scanned when the list is used
up. -/
theorem Yields.with_last {last : Token}
    (yields : automaton.Yields (.complete last) machine tokens result) :
    automaton.Yields (.complete last) machine (tokens ++ [last]) result := by
  induction yields with
  | pushed stepped pushed _ inductionHypothesis => exact .pushed stepped pushed inductionHypothesis
  | again stepped _ inductionHypothesis => exact .again stepped inductionHypothesis
  | accepted stepped => exact .accepted stepped
  | rejected stepped => exact .rejected stepped
  | halted stepped => exact .halted stepped
  | refilled complete rest =>
    obtain rfl := Ending.complete.inj complete
    exact rest
  | stopped ends => contradiction

end Automaton

/-- The tokens that are offered to the automaton at the most: those in store and the end of the
input if they come to it. -/
def Ending.offered (ending : Ending) (tokens : List Token) : List Token :=
  match ending with
  | .complete last => tokens ++ [last]
  | .stopped _ => tokens

/-- Behind the first of the tokens that are offered come those that are offered from the rest of
the store. -/
theorem Ending.offered_cons (ending : Ending) (token : Token) (tokens : List Token) :
    ending.offered (token :: tokens) = token :: ending.offered tokens := by
  cases ending <;> rfl

/-- Tokens that are offered before another one are in store. -/
theorem Ending.offered_split {ending : Ending} {tokens before rest : List Token} {token : Token}
    (split : ending.offered tokens = before ++ token :: rest) :
    tokens = before ++ tokens.drop before.length ∧
      ending.offered (tokens.drop before.length) = token :: rest := by
  induction before generalizing tokens with
  | nil => exact ⟨rfl, split⟩
  | cons first before inductionHypothesis =>
    cases tokens with
    | nil => cases ending <;> simp [offered] at split
    | cons own tokens =>
      rw [offered_cons, List.cons_append] at split
      obtain ⟨rfl, others⟩ := List.cons.inj split
      obtain ⟨front, behind⟩ := inductionHypothesis others
      exact ⟨congrArg (own :: ·) front, behind⟩

/-- The token that comes to the automaton behind some others, and the source right behind it:
blanks and comments are only skipped where they stand before it. -/
inductive Comes {σ : Type} [Source σ] (grammar : Grammar) (errorSymbol : Option SymbolId) :
    Option Token → Nat → σ → List Token → Token → σ → Prop where
  | here {depth : Nat} {source : σ} {token : Token} (fate : token.fate depth = .offered) :
      Comes grammar errorSymbol (some token) depth source [] token source
  | behind {depth : Nat} {source last : σ} {own token : Token} {before : List Token}
      (fate : own.fate depth = .offered)
      (rest : Comes grammar errorSymbol none depth source before token last) :
      Comes grammar errorSymbol (some own) depth source (own :: before) token last
  | dropped {depth after : Nat} {source last : σ} {own token : Token} {before : List Token}
      (fate : own.fate depth = .dropped after)
      (rest : Comes grammar errorSymbol none after source before token last) :
      Comes grammar errorSymbol (some own) depth source before token last
  | lineDropped {depth : Nat} {source last : σ} {own token : Token} {before : List Token}
      (fate : own.fate depth = .lineDropped)
      (rest : Comes grammar errorSymbol none depth (Run.nextLine source) before token last) :
      Comes grammar errorSymbol (some own) depth source before token last
  | fetched {depth : Nat} {source last : σ} {own token : Token} {before : List Token}
      (scanned : (Scan.next grammar errorSymbol .zero source).result = .ok own)
      (rest : Comes grammar errorSymbol (some own) depth
        (Scan.next grammar errorSymbol .zero source).source before token last) :
      Comes grammar errorSymbol none depth source before token last

/-- The tokens that are offered come one behind the other. -/
theorem Upcoming.comes {σ : Type} [Source σ] {grammar : Grammar} {errorSymbol : Option SymbolId}
    {hand : Option Token} {depth : Nat} {source : σ} {tokens before rest : List Token}
    {ending : Ending} {token : Token}
    (upcoming : Upcoming grammar errorSymbol hand depth source tokens ending)
    (split : ending.offered tokens = before ++ token :: rest) :
    ∃ last, Comes grammar errorSymbol hand depth source before token last := by
  induction upcoming generalizing before with
  | @finished source done =>
    have scanned : (Scan.next grammar errorSymbol .zero source).result =
        .ok (Scan.endToken grammar (Source.line source)) :=
      congrArg Scan.result (Scan.next_of_atEnd done grammar errorSymbol .zero)
    cases before with
    | nil =>
      obtain ⟨rfl, -⟩ := List.cons.inj split
      exact ⟨_, .fetched scanned (.here rfl)⟩
    | cons own before =>
      have none := (List.cons.inj split).2
      simp at none
  | fetched _ scanned _ inductionHypothesis =>
    obtain ⟨last, comes⟩ := inductionHypothesis split
    exact ⟨last, .fetched scanned comes⟩
  | dropped fate _ inductionHypothesis =>
    obtain ⟨last, comes⟩ := inductionHypothesis split
    exact ⟨last, .dropped fate comes⟩
  | lineDropped fate _ inductionHypothesis =>
    obtain ⟨last, comes⟩ := inductionHypothesis split
    exact ⟨last, .lineDropped fate comes⟩
  | stopped =>
    have none : ([] : List Token) = before ++ token :: rest := split
    simp at none
  | offered fate _ inductionHypothesis =>
    rw [Ending.offered_cons] at split
    cases before with
    | nil =>
      obtain ⟨rfl, -⟩ := List.cons.inj split
      exact ⟨_, .here fate⟩
    | cons own before =>
      obtain ⟨rfl, others⟩ := List.cons.inj split
      obtain ⟨last, comes⟩ := inductionHypothesis others
      exact ⟨last, .behind fate comes⟩

namespace Run

variable {σ : Type} [Source σ] {automaton : Automaton} {run : Run σ} {token : Token}
  {before : List Token}

/-- A run whose automaton pushes the tokens before another one gets to where it offers that
one, and has read nothing behind it. -/
theorem reaches_of_comes {hand : Option Token} {depth : Nat} {source last : σ} {after : Machine}
    (comes : Comes automaton.grammar automaton.errorSymbol hand depth source before token last)
    (held : run.pending = hand) (nested : run.commentDepth = depth) (reads : run.source = source)
    (pushes : automaton.Pushes run.machine before after) :
    ∃ ready, Reaches automaton run ready ∧ ready.machine = after ∧ ready.pending = some token ∧
      token.fate ready.commentDepth = .offered ∧ ready.source = last := by
  induction comes generalizing run with
  | here fate =>
    subst nested reads
    cases pushes with
    | nil => exact ⟨run, .refl, rfl, held, fate, rfl⟩
  | behind fate _ inductionHypothesis =>
    subst nested reads
    cases pushes with
    | @cons _ between pushed _ _ _ reduces shifted others =>
      have taken := reaches_of_takes (reduces.takes (.now shifted)) held fate rfl
      obtain ⟨ready, further, stands⟩ :=
        @inductionHypothesis { run.drop with machine := pushed } rfl rfl rfl others
      exact ⟨ready, taken.trans further, stands⟩
  | @dropped _ depth _ _ _ _ _ fate _ inductionHypothesis =>
    subst nested reads
    have stepped := step_of_fate automaton held
    rw [fate] at stepped
    obtain ⟨ready, further, stands⟩ :=
      @inductionHypothesis { run.drop with commentDepth := depth } rfl rfl rfl pushes
    exact ⟨ready, .head stepped further, stands⟩
  | lineDropped fate _ inductionHypothesis =>
    subst nested reads
    have stepped := step_of_fate automaton held
    rw [fate] at stepped
    obtain ⟨ready, further, stands⟩ :=
      @inductionHypothesis { run.drop with source := nextLine run.source } rfl rfl rfl pushes
    exact ⟨ready, .head stepped further, stands⟩
  | fetched scanned _ inductionHypothesis =>
    subst nested reads
    obtain ⟨next, stepped, still, hand, same, moved⟩ := step_of_scan held scanned
    rw [← still] at pushes
    obtain ⟨ready, further, stands⟩ := inductionHypothesis hand same moved pushes
    exact ⟨ready, .head stepped further, stands⟩

/-- A run that offers a token goes through the reductions that the token is met with. -/
theorem reaches_of_reducesTo {after : Machine}
    (reduces : automaton.ReducesTo token run.machine after) (held : run.pending = some token)
    (fate : token.fate run.commentDepth = .offered) :
    Reaches automaton run { run with machine := after } := by
  induction reduces with
  | refl => exact .refl
  | @tail between after _ last inductionHypothesis =>
    refine inductionHypothesis.tail ?_
    have answer := Automaton.step_eq_of_effect last.effect
    have still : ({ run with machine := between } : Run σ).pending = some token := held
    have stepped : step automaton { run with machine := between } =
        .running { run with machine := after, pending := some token } :=
      step_of_offered still fate answer
    rw [stepped, held]

/-- A run ends with the first token that its automaton rejects, and has read nothing behind
it. -/
theorem rejects_behind {source : σ} {between after : Machine}
    (strict : automaton.errorSymbol = none)
    (comes : Comes automaton.grammar automaton.errorSymbol run.pending run.commentDepth run.source
      before token source)
    (pushes : automaton.Pushes run.machine before between)
    (reduces : automaton.ReducesTo token between after)
    (unlisted : automaton.grammar.actionOn after.state token.symbol.id = .ok none) :
    ∃ ready last, Reaches automaton run ready ∧
      ready.step automaton = .ended (.error (automaton.rejection after.state token)) last ∧
      last.source = source := by
  obtain ⟨ready, reached, rfl, held, fate, read⟩ := reaches_of_comes comes rfl rfl rfl pushes
  have reduced := reaches_of_reducesTo reduces held fate
  have rejects := Automaton.step_eq_of_effect (.reject unlisted strict)
  have kept : ({ ready with machine := after } : Run σ).pending = some token := held
  exact ⟨{ ready with machine := after }, { ready with machine := after },
    reached.trans reduced, step_of_offered kept fate rejects, read⟩

end Run

/-- A parse whose run ends leaves the source where the run left it. -/
theorem Parser.source_of_reaches {σ : Type} [Source σ] {parser : Parser} {source : σ}
    {first ready last : Run σ} {trim : Bool} {limit : Nat} {result : Except Halt Node}
    (begun : parser.begin? source = .ok first)
    (reached : Run.Reaches (parser.automaton trim) first ready)
    (stopped : ready.step (parser.automaton trim) = .ended result last)
    (ended : (parser.parse source trim limit).outcome ≠ .unfinished) :
    (parser.parse source trim limit).source = last.source := by
  simp only [parse, begun] at ended ⊢
  cases finished : first.finish (parser.automaton trim) limit with
  | none =>
    rw [finished] at ended
    exact absurd rfl ended
  | some pair =>
    obtain ⟨own, final⟩ := pair
    obtain ⟨before, further, halted⟩ := Run.reaches_of_finish finished
    obtain ⟨-, rfl⟩ := Run.ended_unique reached stopped further halted
    rfl

end TableDriven
