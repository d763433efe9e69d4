import Mathlib.Algebra.Ring.Nat
import TableDriven.Proofs.Parsing.Exactness
import TableDriven.Proofs.Parsing.Sturdy

/-!
# Reductions come to an end

A token that is met with a reduction is offered again, and may be met with another one.
Nothing in a step bounds their number. But a reduction replaces the body of a rule at the
end of the labels of the stack by its head, and if symbols have weights by which every
head weighs less than its body, the stack gets lighter each time. So after finitely many
reductions a token is pushed, accepted, or has no action.

Without recovery the automaton therefore comes to an end: every token in store is pushed
or ends the parse, and the end of the input is never pushed.
-/

namespace TableDriven

/-- Every rule makes a stack lighter. -/
def Grammar.Lightens (grammar : Grammar) (weight : SymbolId → Nat) : Prop :=
  ∀ rule ∈ grammar.tables.rules, weight rule.head < (rule.body.map weight).sum

/-- Tables by which no parse goes on for ever over one token, and which never fail the
automaton. -/
structure Grammar.Settling (grammar : Grammar) (weight : SymbolId → Nat) : Prop where
  wellFormed : grammar.tables.WellFormed
  consistent : grammar.Consistent
  sturdy : grammar.Sturdy
  endMarked : grammar.EndMarked
  lightens : grammar.Lightens weight

namespace Automaton

variable {automaton : Automaton} {machine after : Machine} {token : Token}
  {weight : SymbolId → Nat}

/-- A reduction replaces the body of a rule, with which the labels of the stack end, by the
head of the rule. -/
theorem Reduced.labels {id : RuleId} {symbol : SymbolId}
    (reduced : Reduced automaton machine id token after)
    (well : automaton.grammar.tables.WellFormed) (consistent : automaton.grammar.Consistent)
    (path : StackPath automaton.grammar machine.state machine.stack)
    (listed : automaton.grammar.actionOn machine.state symbol = .ok (some (.reduce id))) :
    ∃ rule prior, automaton.grammar.rule id = .ok rule ∧
      machine.stack.labels = prior ++ rule.body ∧ after.stack.labels = prior ++ [rule.head] := by
  obtain ⟨rule, head, trimmed, node, below, target, planned, taken, moved⟩ := reduced
  obtain ⟨looked, named, -⟩ := plan_eq_ok.mp planned
  have own : head.id = rule.head := Grammar.symbol_id well named
  have pushed (rest : Stack) (left : rest ≠ []) (entry : Entry)
      (same : entry.token = headToken head node) :
      Stack.labels (entry :: rest) = rest.labels ++ [rule.head] := by
    rw [Stack.labels_cons entry left, same, ← own]
    rfl
  cases taken with
  | empty bodiless =>
    refine ⟨rule, machine.stack.labels, looked, ?_, pushed _ path.ne_nil _ rfl⟩
    rw [bodiless, List.append_nil]
  | handle first others rest children stacked fits left carried =>
    refine ⟨rule, rest.labels, looked, ?_, pushed rest left _ rfl⟩
    rw [stacked] at path
    rw [stacked, Stack.labels_handle _ left, path.body_eq consistent listed looked fits left]

/-- A pushed token adds its symbol to the labels of the stack. -/
theorem Effect.labels_of_pushed {next : Token} {signal : Signal}
    (effect : automaton.Effect machine token after next signal)
    (pushed : signal = .shift ∨ signal = .goto) (left : machine.stack ≠ []) :
    after.stack.labels = machine.stack.labels ++ [token.symbol.id] := by
  cases effect with
  | shift target listed => exact Stack.labels_cons _ left
  | goto target listed => exact Stack.labels_cons _ left
  | reduce => simp at pushed
  | substitute => simp at pushed
  | unwind => simp at pushed
  | accept => simp at pushed
  | reject => simp at pushed

/-- A token is met with a reduction. -/
def Reduces (automaton : Automaton) (token : Token) (machine after : Machine) : Prop :=
  ∃ id, automaton.grammar.actionOn machine.state token.symbol.id = .ok (some (.reduce id)) ∧
    Reduced automaton machine id token after

/-- A token that is met with a reduction is offered again. -/
theorem Reduces.effect (reduces : automaton.Reduces token machine after) :
    automaton.Effect machine token after token .reduce := by
  obtain ⟨id, listed, reduced⟩ := reduces
  exact .reduce id after listed reduced

/-- A reduction makes the stack lighter. -/
theorem Reduces.lighter (settling : automaton.grammar.Settling weight)
    (path : StackPath automaton.grammar machine.state machine.stack)
    (reduces : automaton.Reduces token machine after) :
    (after.stack.labels.map weight).sum < (machine.stack.labels.map weight).sum := by
  obtain ⟨id, listed, reduced⟩ := reduces
  obtain ⟨rule, prior, looked, before, later⟩ :=
    reduced.labels settling.wellFormed settling.consistent path listed
  have placed := (Grammar.entry_eq_ok _ _ _ _).mp looked
  have lighter := settling.lightens rule (Array.mem_of_getElem? placed)
  rw [before, later]
  simp only [List.map_append, List.sum_append, List.map_cons, List.map_nil, List.sum_cons,
    List.sum_nil]
  omega

/-- Some reductions on a token, one after the other. -/
abbrev ReducesTo (automaton : Automaton) (token : Token) : Machine → Machine → Prop :=
  Relation.ReflTransGen (automaton.Reduces token)

/-- Reductions keep the stack a path. -/
theorem ReducesTo.path (reduces : automaton.ReducesTo token machine after)
    (path : StackPath automaton.grammar machine.state machine.stack) :
    StackPath automaton.grammar after.state after.stack := by
  induction reduces with
  | refl => exact path
  | tail _ last inductionHypothesis => exact inductionHypothesis.effect last.effect

/-- What the automaton yields after some reductions it yields before them. -/
theorem ReducesTo.yields {ending : Ending} {tokens : List Token} {result : Except Halt Node}
    (reduces : automaton.ReducesTo token machine after)
    (yields : automaton.Yields ending after (token :: tokens) result) :
    automaton.Yields ending machine (token :: tokens) result := by
  induction reduces using Relation.ReflTransGen.head_induction_on with
  | refl => exact yields
  | head first _ inductionHypothesis =>
    exact .again (step_eq_of_effect first.effect) inductionHypothesis

/-- After finitely many reductions a token is met with something else. Induct on the weight
of the stack. -/
theorem exists_reducesTo (settling : automaton.grammar.Settling weight) (token : Token)
    (path : StackPath automaton.grammar machine.state machine.stack) :
    ∃ after, automaton.ReducesTo token machine after ∧ ∀ id,
      automaton.grammar.actionOn after.state token.symbol.id ≠ .ok (some (.reduce id)) := by
  generalize weighed : (machine.stack.labels.map weight).sum = burden
  induction burden using Nat.strongRecOn generalizing machine with
  | ind burden inductionHypothesis =>
    by_cases reducible : ∃ id,
        automaton.grammar.actionOn machine.state token.symbol.id = .ok (some (.reduce id))
    · obtain ⟨id, listed⟩ := reducible
      obtain ⟨next, reduced⟩ := exists_reduced settling.wellFormed settling.consistent
        settling.sturdy path listed
      have reduces : automaton.Reduces token machine next := ⟨id, listed, reduced⟩
      have lighter := reduces.lighter settling path
      rw [weighed] at lighter
      obtain ⟨after, further, settled⟩ :=
        inductionHypothesis _ lighter (path.effect reduces.effect) rfl
      exact ⟨after, .head reduces further, settled⟩
    · exact ⟨machine, .refl, fun id listed => reducible ⟨id, listed⟩⟩

/-- What a token is met with that is not met with a reduction. -/
inductive Settled (automaton : Automaton) (machine : Machine) (token : Token) : Prop where
  | pushed (target : LalrStateId)
      (moved : automaton.grammar.Transition machine.state token.symbol.id target)
  | accepted
      (listed : automaton.grammar.actionOn machine.state token.symbol.id = .ok (some .accept))
  | unlisted
      (unlisted : automaton.grammar.actionOn machine.state token.symbol.id = .ok none)

/-- After finitely many reductions a token is pushed, accepted, or has no action. -/
theorem exists_settled (settling : automaton.grammar.Settling weight) (token : Token)
    (path : StackPath automaton.grammar machine.state machine.stack) :
    ∃ after, automaton.ReducesTo token machine after ∧
      StackPath automaton.grammar after.state after.stack ∧ automaton.Settled after token := by
  obtain ⟨after, reduces, irreducible⟩ := exists_reducesTo settling token path
  have onward := reduces.path path
  refine ⟨after, reduces, onward, ?_⟩
  obtain ⟨action, listed⟩ := Grammar.actionOn_of_lt (onward.state_lt settling.wellFormed)
    token.symbol.id
  cases action with
  | none => exact .unlisted listed
  | some action =>
    cases action with
    | shift target => exact .pushed target (.shift listed)
    | goto target => exact .pushed target (.goto listed)
    | reduce id => exact absurd listed (irreducible id)
    | accept => exact .accepted listed
    | error =>
      obtain ⟨-, -, proper⟩ := Grammar.actionOn_eq_some settling.wellFormed listed
      exact absurd rfl proper

/-- Without recovery a token that ends neither by being accepted nor by being rejected is
pushed, and what is yielded from the tokens behind it is yielded from all. -/
theorem exists_yields_cons {ending : Ending} {tokens : List Token}
    (settling : automaton.grammar.Settling weight) (strict : automaton.errorSymbol = none)
    (path : StackPath automaton.grammar machine.state machine.stack)
    (behind : ∀ state next, StackPath automaton.grammar next.state next.stack →
      automaton.grammar.Transition state token.symbol.id next.state →
      ∃ result, automaton.Yields ending next tokens result) :
    ∃ result, automaton.Yields ending machine (token :: tokens) result := by
  obtain ⟨after, reduces, onward, settled⟩ := exists_settled settling token path
  cases settled with
  | pushed target moved =>
    obtain ⟨next, signal, stepped, pushed, same, -⟩ := step_of_transition moved
    obtain ⟨result, yields⟩ := behind after.state next (onward.effect (effect_of_step_eq stepped))
      (same ▸ moved)
    exact ⟨result, reduces.yields (.pushed stepped pushed yields)⟩
  | accepted listed =>
    exact ⟨_, reduces.yields (.accepted (step_eq_of_effect (.accept listed)))⟩
  | unlisted unlisted =>
    exact ⟨_, reduces.yields (.rejected (step_eq_of_effect (.reject unlisted strict)))⟩

/-- Without recovery the automaton ends with something, whatever the tokens are and however
they end. Induct on the tokens: each is pushed or the last, and the end of the input is the
last if it is offered. -/
theorem exists_yields (settling : automaton.grammar.Settling weight)
    (strict : automaton.errorSymbol = none) {ending : Ending}
    (ends : ∀ last, ending = .complete last → last.symbol.id = automaton.grammar.endSymbol.id)
    (tokens : List Token) (path : StackPath automaton.grammar machine.state machine.stack) :
    ∃ result, automaton.Yields ending machine tokens result := by
  induction tokens generalizing machine with
  | nil =>
    cases ending with
    | stopped error => exact ⟨_, .stopped rfl⟩
    | complete last =>
      have yields : ∃ result, automaton.Yields (.complete last) machine [last] result := by
        refine exists_yields_cons settling strict path fun state next _ moved => ?_
        rw [ends last rfl] at moved
        exact absurd moved (settling.endMarked.kept state next.state)
      obtain ⟨result, yields⟩ := yields
      exact ⟨result, .refilled rfl yields⟩
  | cons token tokens inductionHypothesis =>
    exact exists_yields_cons settling strict path fun _ _ onward _ => inductionHypothesis onward

end Automaton

end TableDriven
