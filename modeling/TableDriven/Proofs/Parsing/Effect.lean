import TableDriven.Parsing.Automaton
import TableDriven.Proofs.Grammar.Paths

/-!
# What a step of the automaton does

A step that is answered either moves along a transition and pushes the token,
or reduces by a rule, or turns the token into the error terminal, or takes
entries off to recover, or leaves everything as it is. Each of these is stated
once, with the conditions under which it happens; what is proved about steps
elsewhere goes through these cases.

A handle is written in the order in which it was pushed, so a stack above which
it stands is its reverse in front of the rest.
-/

namespace TableDriven

/-- A handle is taken off exactly if it stands on top and something is left. -/
theorem Stack.takeHandle?_eq_some {stack rest : Stack} {handle : List Entry} {count : Nat} :
    stack.takeHandle? count = some (handle, rest) ↔
      stack = handle.reverse ++ rest ∧ handle.length = count ∧ rest ≠ [] := by
  unfold Stack.takeHandle?
  constructor
  · intro taken
    split at taken
    · contradiction
    · rename_i below kept
      obtain ⟨rfl, rfl⟩ : (stack.take count).reverse = handle ∧ stack.drop count = rest := by
        simpa using taken
      have long : count < stack.length := by
        have left := List.length_pos_iff.mpr kept
        rw [List.length_drop] at left
        omega
      refine ⟨?_, ?_, kept⟩
      · rw [List.reverse_reverse, List.take_append_drop]
      · rw [List.length_reverse, List.length_take, Nat.min_eq_left (Nat.le_of_lt long)]
  · rintro ⟨rfl, rfl, left⟩
    have dropped : (handle.reverse ++ rest).drop handle.length = rest :=
      List.drop_left' (by simp)
    have taken : (handle.reverse ++ rest).take handle.length = handle.reverse :=
      List.take_left' (by simp)
    split
    · rename_i nothing
      exact absurd (dropped.symm.trans nothing) left
    · rw [dropped, taken, List.reverse_reverse]

namespace Automaton

/-- The trees of a handle are had exactly if every entry carries one. -/
theorem handleNodes_eq_ok {id : RuleId} {handle : List Entry} {children : List Node} :
    handleNodes id handle = .ok children ↔ handle.map Entry.node = children.map some := by
  induction handle generalizing children with
  | nil => cases children <;> simp [handleNodes]
  | cons entry rest inductionHypothesis =>
    unfold handleNodes
    cases carried : entry.node with
    | none => cases children <;> simp [carried]
    | some node =>
      cases children with
      | nil => cases handleNodes id rest <;> simp [Except.map]
      | cons child others =>
        have restOnly := @inductionHypothesis others
        cases nodes : handleNodes id rest with
        | error fault => simp [Except.map, carried, ← restOnly, nodes]
        | ok found => simp [Except.map, carried, ← restOnly, nodes]

/-- What taking the body of a rule off the stack amounts to: a tree, and the
machine below the body. An empty body leaves the stack alone. -/
inductive BodyTaken (machine : Machine) (id : RuleId) (rule : Rule) (head : Symbol)
    (lookahead : Token) (trimmed : Bool) : Node → Machine → Prop where
  | empty (bodiless : rule.body = []) :
      BodyTaken machine id rule head lookahead trimmed (emptyBranch id head lookahead)
        { machine with tally := { machine.tally with reductions := machine.tally.reductions + 1 } }
  | handle (first : Entry) (others : List Entry) (rest : Stack) (children : List Node)
      (stacked : machine.stack = (first :: others).reverse ++ rest)
      (fits : (first :: others).length = rule.body.length)
      (left : rest ≠ [])
      (carried : (first :: others).map Entry.node = children.map some) :
      BodyTaken machine id rule head lookahead trimmed
        (assemble id head lookahead trimmed children).1
        { state := first.origin
          stack := rest
          tally := { machine.tally with
            trims := machine.tally.trims + (assemble id head lookahead trimmed children).2
            reductions := machine.tally.reductions + 1 } }

/-- A body that was taken off was taken off in one of these ways. -/
theorem bodyTaken_of_takeBody {machine below : Machine} {id : RuleId} {rule : Rule}
    {head : Symbol} {lookahead : Token} {trimmed : Bool} {node : Node}
    (taken : takeBody machine id rule head lookahead trimmed = .ok (node, below)) :
    BodyTaken machine id rule head lookahead trimmed node below := by
  unfold takeBody at taken
  split at taken
  · rename_i short
    obtain ⟨rfl, rfl⟩ := Prod.mk.inj (Except.ok.inj taken)
    exact .empty (List.length_eq_zero_iff.mp short)
  · rename_i length long
    split at taken
    · contradiction
    · rename_i handle rest found
      obtain ⟨stacked, fits, left⟩ := Stack.takeHandle?_eq_some.mp found
      split at taken
      · contradiction
      · rename_i children nodes
        obtain ⟨rfl, rfl⟩ := Prod.mk.inj (Except.ok.inj taken)
        cases handle with
        | nil => simp at fits
        | cons first others =>
          exact .handle first others rest children stacked (fits.trans long.symm) left
            (handleNodes_eq_ok.mp nodes)

/-- A body that can be taken off in one of these ways is. -/
theorem takeBody_eq_ok {machine below : Machine} {id : RuleId} {rule : Rule} {head : Symbol}
    {lookahead : Token} {trimmed : Bool} {node : Node}
    (possible : BodyTaken machine id rule head lookahead trimmed node below) :
    takeBody machine id rule head lookahead trimmed = .ok (node, below) := by
  cases possible with
  | empty bodiless => simp [takeBody, bodiless]
  | handle first others rest children stacked fits left carried =>
    have found : machine.stack.takeHandle? (others.length + 1) = some (first :: others, rest) :=
      Stack.takeHandle?_eq_some.mpr ⟨stacked, rfl, left⟩
    simp [takeBody, ← fits, found, handleNodes_eq_ok.mpr carried]

/-- A plan is made from a rule, its head, and the verdict on trimming. -/
theorem plan_eq_ok {automaton : Automaton} {id : RuleId} {rule : Rule} {head : Symbol}
    {trimmed : Bool} :
    automaton.plan id = .ok (rule, head, trimmed) ↔
      automaton.grammar.rule id = .ok rule ∧ automaton.grammar.symbol rule.head = .ok head ∧
        automaton.trims rule = .ok trimmed := by
  unfold plan
  constructor
  · intro planned
    split at planned
    · contradiction
    · rename_i found looked
      split at planned
      · contradiction
      · rename_i symbol named
        cases verdict : automaton.trims found with
        | error defect => simp [verdict, Except.map] at planned
        | ok answer =>
          obtain ⟨rfl, rfl, rfl⟩ : found = rule ∧ symbol = head ∧ answer = trimmed := by
            simpa [verdict, Except.map] using planned
          exact ⟨looked, named, verdict⟩
  · rintro ⟨looked, named, verdict⟩
    simp [looked, named, verdict, Except.map]

/-- What a reduction amounts to: the body is taken off, and its head is pushed
along a transition out of the state below it. -/
inductive Reduced (automaton : Automaton) (machine : Machine) (id : RuleId)
    (lookahead : Token) : Machine → Prop where
  | intro (rule : Rule) (head : Symbol) (trimmed : Bool) (node : Node) (below : Machine)
      (target : LalrStateId)
      (planned : automaton.plan id = .ok (rule, head, trimmed))
      (taken : BodyTaken machine id rule head lookahead trimmed node below)
      (moved : automaton.grammar.Transition below.state head.id target) :
      Reduced automaton machine id lookahead (below.enter target (headToken head node) node)

/-- The head is pushed along a transition or not at all. -/
theorem follow_eq_ok {automaton : Automaton} {machine after : Machine} {head : Symbol}
    {node : Node} :
    automaton.follow machine head node = (after, .ok ()) ↔
      ∃ target, automaton.grammar.Transition machine.state head.id target ∧
        after = machine.enter target (headToken head node) node := by
  unfold follow
  constructor
  · intro followed
    split at followed
    · simp at followed
    · rename_i target listed
      exact ⟨target, .goto listed, (Prod.mk.inj followed).1.symm⟩
    · rename_i target listed
      exact ⟨target, .shift listed, (Prod.mk.inj followed).1.symm⟩
    · simp at followed
  · rintro ⟨target, ⟨listed⟩ | ⟨listed⟩, rfl⟩ <;> simp [listed]

/-- A reduction that succeeds amounts to this, and nothing else does. -/
theorem reduce_eq_ok {automaton : Automaton} {machine after : Machine} {id : RuleId}
    {lookahead : Token} :
    automaton.reduce machine id lookahead = (after, .ok ()) ↔
      Reduced automaton machine id lookahead after := by
  unfold reduce
  constructor
  · intro reduced
    split at reduced
    · simp at reduced
    · rename_i rule head trimmed planned
      split at reduced
      · simp at reduced
      · rename_i node below taken
        obtain ⟨target, moved, rfl⟩ := follow_eq_ok.mp reduced
        exact .intro rule head trimmed node below target planned (bodyTaken_of_takeBody taken) moved
  · rintro ⟨rule, head, trimmed, node, below, target, planned, taken, moved⟩
    simp only [planned, takeBody_eq_ok taken]
    exact follow_eq_ok.mpr ⟨target, moved, rfl⟩

/-- Recovery leaves the stack as it is, or what lies below an entry, and resumes in the
state that the entry was pushed from. The lowest entry stays. -/
theorem unwind_split {grammar : Grammar} {error : SymbolId} {state resumed : LalrStateId}
    {stack rest : Stack} {found : Bool}
    (unwound : unwind grammar error state stack = (resumed, rest, .ok found)) :
    (resumed = state ∧ rest = stack) ∨
      ∃ above entry, stack = above ++ entry :: rest ∧ rest ≠ [] ∧ resumed = entry.origin := by
  induction stack generalizing state with
  | nil =>
    obtain ⟨rfl, rfl, -⟩ : state = resumed ∧ [] = rest ∧ false = found := by
      simpa [unwind] using unwound
    exact .inl ⟨rfl, rfl⟩
  | cons entry below inductionHypothesis =>
    cases below with
    | nil =>
      obtain ⟨rfl, rfl, -⟩ : state = resumed ∧ [entry] = rest ∧ false = found := by
        simpa [unwind] using unwound
      exact .inl ⟨rfl, rfl⟩
    | cons next others =>
      refine .inr ?_
      unfold unwind at unwound
      split at unwound
      · simp at unwound
      · obtain ⟨rfl, rfl, -⟩ := by simpa using unwound
        exact ⟨[], entry, rfl, List.cons_ne_nil next others, rfl⟩
      · rcases inductionHypothesis unwound with ⟨rfl, rfl⟩ | ⟨above, lower, split, left, same⟩
        · exact ⟨[], entry, rfl, List.cons_ne_nil next others, rfl⟩
        · exact ⟨entry :: above, lower, congrArg (entry :: ·) split, left, same⟩

/-- What an answered step amounts to: the machine and the token after it. -/
inductive Effect (automaton : Automaton) (machine : Machine) (token : Token) :
    Machine → Token → Signal → Prop where
  | shift (target : LalrStateId)
      (listed : automaton.grammar.actionOn machine.state token.symbol.id =
        .ok (some (.shift target))) :
      Effect automaton machine token
        { machine.enter target token token.leaf with
          tally := { machine.tally with shifts := machine.tally.shifts + 1 } }
        token .shift
  | goto (target : LalrStateId)
      (listed : automaton.grammar.actionOn machine.state token.symbol.id =
        .ok (some (.goto target))) :
      Effect automaton machine token (machine.enter target token token.leaf) token .goto
  | reduce (id : RuleId) (after : Machine)
      (listed : automaton.grammar.actionOn machine.state token.symbol.id = .ok (some (.reduce id)))
      (reduced : Reduced automaton machine id token after) :
      Effect automaton machine token after token .reduce
  | substitute (error : SymbolId) (symbol : Symbol)
      (unlisted : automaton.grammar.actionOn machine.state token.symbol.id = .ok none)
      (recovers : automaton.errorSymbol = some error)
      (ordinary : token.symbol.id ≠ error)
      (named : automaton.grammar.errorTerminal error = .ok symbol) :
      Effect automaton machine token
        { machine with tally := { machine.tally with recoveries := machine.tally.recoveries + 1 } }
        ⟨symbol, token.line, "error"⟩ .reduce
  | unwind (error : SymbolId) (state : LalrStateId) (stack : Stack)
      (unlisted : automaton.grammar.actionOn machine.state token.symbol.id = .ok none)
      (recovers : automaton.errorSymbol = some error)
      (substituted : token.symbol.id = error)
      (unwound : Automaton.unwind automaton.grammar error machine.state machine.stack =
        (state, stack, .ok true)) :
      Effect automaton machine token { machine with state, stack } token .reduce
  | accept
      (listed : automaton.grammar.actionOn machine.state token.symbol.id = .ok (some .accept)) :
      Effect automaton machine token machine token .accept
  | reject
      (unlisted : automaton.grammar.actionOn machine.state token.symbol.id = .ok none)
      (strict : automaton.errorSymbol = none) :
      Effect automaton machine token machine token .reject

/-- A token without an action is answered in one of the ways of recovery. -/
theorem effect_of_recover {automaton : Automaton} {machine : Machine} {token : Token}
    {signal : Signal}
    (unlisted : automaton.grammar.actionOn machine.state token.symbol.id = .ok none)
    (answered : (automaton.recover machine token).result = .ok signal) :
    Effect automaton machine token (automaton.recover machine token).machine
      (automaton.recover machine token).token signal := by
  unfold recover at answered ⊢
  cases recovers : automaton.errorSymbol with
  | none =>
    rw [recovers] at answered
    cases answered
    exact .reject unlisted recovers
  | some error =>
    simp only [recovers] at answered ⊢
    by_cases ordinary : token.symbol.id ≠ error
    · rw [if_pos ordinary] at answered ⊢
      unfold substitute at answered ⊢
      cases named : automaton.grammar.errorTerminal error with
      | error defect => simp [named] at answered
      | ok symbol =>
        simp only [named] at answered
        cases answered
        exact .substitute error symbol unlisted recovers ordinary named
    · rw [if_neg ordinary] at answered ⊢
      rcases unwound : unwind automaton.grammar error machine.state machine.stack with
        ⟨state, stack, resumed⟩
      simp only [unwound] at answered ⊢
      rcases resumed with defect | _ | _
      · simp at answered
      · simp at answered
      · cases answered
        exact .unwind error state stack unlisted recovers (Decidable.not_not.mp ordinary) unwound

/-- An answered step is one of these. -/
theorem effect_of_step {automaton : Automaton} {machine : Machine} {token : Token}
    {signal : Signal} (answered : (automaton.step machine token).result = .ok signal) :
    Effect automaton machine token (automaton.step machine token).machine
      (automaton.step machine token).token signal := by
  unfold step at answered ⊢
  split at answered
  · simp at answered
  · rename_i unlisted
    exact effect_of_recover unlisted answered
  · rename_i target listed
    cases answered
    exact .shift target listed
  · rename_i target listed
    cases answered
    exact .goto target listed
  · rename_i id listed
    rcases reduced : automaton.reduce machine id token with ⟨after, result⟩
    simp only [reduced] at answered ⊢
    cases result with
    | error halt => simp [Except.map] at answered
    | ok done =>
      cases answered
      exact .reduce id after listed (reduce_eq_ok.mp reduced)
  · rename_i listed
    cases answered
    exact .accept listed
  · simp at answered

/-- A step with a given answer is one of these. -/
theorem effect_of_step_eq {automaton : Automaton} {machine after : Machine} {token next : Token}
    {signal : Signal} (stepped : automaton.step machine token = ⟨after, next, .ok signal⟩) :
    Effect automaton machine token after next signal := by
  have answered : (automaton.step machine token).result = .ok signal := by rw [stepped]
  have effect := effect_of_step answered
  rw [stepped] at effect
  exact effect

/-- What may be done by a step is done by it. -/
theorem step_eq_of_effect {automaton : Automaton} {machine after : Machine}
    {token next : Token} {signal : Signal}
    (effect : Effect automaton machine token after next signal) :
    automaton.step machine token = ⟨after, next, .ok signal⟩ := by
  cases effect with
  | shift target listed => simp [step, listed, Machine.enter]
  | goto target listed => simp [step, listed]
  | reduce id after listed reduced =>
    simp [step, listed, reduce_eq_ok.mpr reduced, Except.map]
  | substitute error symbol unlisted recovers ordinary named =>
    simp [step, unlisted, recover, recovers, ordinary, substitute, named]
  | unwind error state stack unlisted recovers substituted unwound =>
    rw [substituted] at unlisted
    simp [step, unlisted, recover, recovers, substituted, unwound]
  | accept listed => simp [step, listed]
  | reject unlisted strict => simp [step, unlisted, recover, strict]

end Automaton
end TableDriven
