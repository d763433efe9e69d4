import TableDriven.Proofs.Calculator.Nesting
import TableDriven.Proofs.Parsing.Prefixes

/-!
# Texts that can still become expressions

Whatever the calculator has pushed, some text behind it makes it an expression. In every
parsing state some rule has been begun, and what is on its stack is the beginning of a form of
the expression in which the head of that rule is followed by tokens only. A transition leads
on in the same rule, or begins one whose head stands, perhaps after some rules for a single
symbol, where the first rule goes on.
-/

namespace TableDriven.Calculator

/-- The heads that a symbol can be rewritten into by itself. -/
def alone (symbol : SymbolId) : List SymbolId :=
  if symbol = Symbols.expr then [Symbols.expr, Symbols.term, Symbols.factor]
  else if symbol = Symbols.term then [Symbols.term, Symbols.factor]
  else [symbol]

/-- A symbol can be rewritten into these heads. -/
theorem derives_alone {symbol other : SymbolId} (member : other ∈ alone symbol) :
    grammar.Derives [symbol] [other] := by
  have term : grammar.Derives [Symbols.expr] [Symbols.term] :=
    .of_rule (rule_of_mem ⟨Rules.exprOfTerm, Symbols.expr, [Symbols.term]⟩ (by decide)) []
  have factor : grammar.Derives [Symbols.term] [Symbols.factor] :=
    .of_rule (rule_of_mem ⟨Rules.termOfFactor, Symbols.term, [Symbols.factor]⟩ (by decide)) []
  unfold alone at member
  split at member
  · rename_i expr
    subst expr
    simp only [List.mem_cons, List.not_mem_nil, or_false] at member
    rcases member with rfl | rfl | rfl
    · exact .refl
    · exact term
    · exact term.trans factor
  · split at member
    · rename_i same
      subst same
      simp only [List.mem_cons, List.not_mem_nil, or_false] at member
      rcases member with rfl | rfl
      · exact .refl
      · exact factor
    · obtain rfl := List.mem_singleton.mp member
      exact .refl

/-- Every form can be rewritten into tokens. -/
theorem exists_word (form : List SymbolId) :
    ∃ word, grammar.Derives form word ∧ ∀ symbol ∈ word, ¬ IsHead symbol := by
  induction form with
  | nil => exact ⟨[], .refl, by simp⟩
  | cons symbol form inductionHypothesis =>
    obtain ⟨word, derives, tokens⟩ := inductionHypothesis
    have own : ∃ token, grammar.Derives [symbol] [token] ∧ ¬ IsHead token := by
      by_cases head : IsHead symbol
      · have number : grammar.Derives [Symbols.factor] [Symbols.number] :=
          .of_rule (rule_of_mem ⟨Rules.number, Symbols.factor, [Symbols.number]⟩ (by decide)) []
        have factor : Symbols.factor ∈ alone symbol := by
          rcases head with rfl | rfl | rfl
          · decide
          · decide
          · decide
        exact ⟨Symbols.number, (derives_alone factor).trans number, by decide⟩
      · exact ⟨symbol, .refl, head⟩
    obtain ⟨token, single, terminal⟩ := own
    refine ⟨token :: word, single.append derives, ?_⟩
    intro other member
    rcases List.mem_cons.mp member with rfl | later
    · exact terminal
    · exact tokens other later

/-- The head of the rule that has been begun in a parsing state. -/
def goal (state : LalrStateId) : SymbolId :=
  [Symbols.expr, Symbols.expr, Symbols.expr, Symbols.term, Symbols.factor, Symbols.factor,
   Symbols.factor, Symbols.factor, Symbols.expr, Symbols.expr, Symbols.term, Symbols.term,
   Symbols.factor, Symbols.factor, Symbols.expr, Symbols.expr, Symbols.term, Symbols.term,
   Symbols.factor].getD state Symbols.expr

/-- What has been read in a parsing state is the beginning of a rule for its goal. -/
theorem recent_prefix : ∀ state ∈ List.range 19, ∃ rule ∈ rules, rule.head = goal state ∧
    recent state <+: rule.body := by
  decide

/-- The symbols that have been read before the rule that a transition leads to was begun. -/
def kept (state : LalrStateId) (symbol : SymbolId) (target : LalrStateId) : List SymbolId :=
  (recent state ++ [symbol]).take ((recent state).length + 1 - (recent target).length)

/-- A transition leads on in the same rule or begins another one within it. -/
def LeadsOn (state : LalrStateId) (symbol : SymbolId) (target : LalrStateId) : Prop :=
  recent state ++ [symbol] = kept state symbol target ++ recent target ∧
    ((kept state symbol target = [] ∧ goal target ∈ alone (goal state)) ∨
      ∃ rule ∈ rules, rule.head = goal state ∧ kept state symbol target <+: rule.body ∧
        ∃ inner ∈ (rule.body.drop (kept state symbol target).length).head?,
          goal target ∈ alone inner)

/-- Whether a transition leads on in this way can be decided. -/
instance (state : LalrStateId) (symbol : SymbolId) (target : LalrStateId) :
    Decidable (LeadsOn state symbol target) :=
  inferInstanceAs (Decidable (_ ∧ (_ ∨ _)))

/-- All transitions lead on in this way. -/
theorem leadsOn_of_transition {state target : LalrStateId} {symbol : SymbolId}
    (moved : grammar.Transition state symbol target) : LeadsOn state symbol target := by
  have listed : ∀ state ∈ lalrStates, ∀ entry ∈ state.actions, ∀ target ∈ entry.action.target?,
      LeadsOn state.id entry.symbol target := by
    decide
  obtain ⟨found, placed, rfl, entry, member, rfl, leads⟩ :=
    Grammar.entry_of_transition wellFormed_tables moved
  exact listed found (List.mem_toArray.mp placed) entry member target leads

/-- Where a transition leads on, the goal of the state can be rewritten into the goal of the
target between other symbols. -/
theorem LeadsOn.derives {state target : LalrStateId} {symbol : SymbolId}
    (leads : LeadsOn state symbol target) :
    ∃ behind, grammar.Derives [goal state]
      (kept state symbol target ++ goal target :: behind) := by
  obtain ⟨-, ⟨none, alone⟩ | ⟨rule, member, head, ⟨back, split⟩, inner, next, alone⟩⟩ := leads
  · rw [none]
    exact ⟨[], derives_alone alone⟩
  · rw [← split, List.drop_left] at next
    obtain ⟨behind, rfl⟩ : ∃ behind, back = inner :: behind := by
      cases back with
      | nil => contradiction
      | cons first behind =>
        obtain rfl := Option.some.inj next
        exact ⟨behind, rfl⟩
    have body : grammar.Derives [goal state] rule.body := by
      have whole := Grammar.Derives.of_rule (rule_of_mem rule member) []
      rwa [List.append_nil, head] at whole
    have inside : grammar.Derives (kept state symbol target ++ inner :: behind)
        (kept state symbol target ++ goal target :: behind) := by
      simpa using (derives_alone alone).within (kept state symbol target) behind
    rw [← split] at body
    exact ⟨behind, body.trans inside⟩

/-- The symbols of a path are the beginning of a form of an expression. Induct on the path: each
transition leads on from the form that it starts with. -/
theorem exists_form {labels : List SymbolId} {state : LalrStateId}
    (path : grammar.Path labels state) :
    ∃ prior rest, labels = prior ++ recent state ∧
      grammar.Derives [Symbols.expr] (prior ++ goal state :: rest) := by
  induction path with
  | start => exact ⟨[], [], rfl, .refl⟩
  | extend labels state label target path moved inductionHypothesis =>
    obtain ⟨prior, rest, rfl, derives⟩ := inductionHypothesis
    have leads := leadsOn_of_transition moved
    obtain ⟨behind, inside⟩ := leads.derives
    refine ⟨prior ++ kept state label target, behind ++ rest, ?_, ?_⟩
    · rw [List.append_assoc, leads.1, List.append_assoc]
    · have within : grammar.Derives (prior ++ goal state :: rest)
          (prior ++ kept state label target ++ goal target :: (behind ++ rest)) := by
        simpa using inside.within prior rest
      exact derives.trans within

/-- The symbols of a path can be completed to a form of an expression. -/
theorem exists_completion {labels : List SymbolId} {state : LalrStateId}
    (path : grammar.Path labels state) (inside : state < grammar.tables.count .lalrState) :
    ∃ rest, grammar.Derives [Symbols.expr] (labels ++ rest) := by
  obtain ⟨prior, rest, rfl, derives⟩ := exists_form path
  obtain ⟨rule, member, head, back, split⟩ := recent_prefix state (List.mem_range.mpr inside)
  have body := Grammar.Derives.of_rule (rule_of_mem rule member) []
  rw [List.append_nil, head, ← split] at body
  have within : grammar.Derives (prior ++ goal state :: rest)
      (prior ++ recent state ++ (back ++ rest)) := by
    simpa using body.within prior rest
  exact ⟨back ++ rest, derives.trans within⟩

/-- Some symbols are the beginning of the tokens of an expression and the end of the text
behind them. -/
def Viable (symbols : List SymbolId) : Prop :=
  ∃ sentence, grammar.Derives [Symbols.expr] sentence ∧ (∀ symbol ∈ sentence, ¬ IsHead symbol) ∧
    symbols <+: sentence ++ [Symbols.endOfInput]

/-- What comes before other symbols is viable if all are. -/
theorem Viable.of_prefix {before symbols : List SymbolId} (viable : Viable symbols)
    (front : before <+: symbols) : Viable before := by
  obtain ⟨sentence, derives, tokens, begun⟩ := viable
  exact ⟨sentence, derives, tokens, front.trans begun⟩

/-- What the calculator has pushed is viable. -/
theorem viable_of_pushes {options : Options} {tokens : List Token} {after : Machine}
    (pushes : (automatonOf options).Pushes initialMachine tokens after)
    (terminal : ∀ token ∈ tokens, ¬ IsHead token.symbol.id) :
    Viable (tokens.map fun token => token.symbol.id) := by
  have path : StackPath grammar after.state after.stack := pushes.path path_initialMachine
  obtain ⟨rest, derives⟩ := exists_completion path.labelled (path.state_lt wellFormed_tables)
  obtain ⟨word, behind, words⟩ := exists_word rest
  have pushed : grammar.Derives after.stack.labels (tokens.map fun token => token.symbol.id) :=
    Automaton.Pushes.derives settling_grammar pushes path_initialMachine
  refine ⟨_, derives.trans (pushed.append behind), ?_, ?_⟩
  · intro symbol member
    rcases List.mem_append.mp member with among | later
    · obtain ⟨token, listed, rfl⟩ := List.mem_map.mp among
      exact terminal token listed
    · exact words symbol later
  · rw [List.append_assoc]
    exact List.prefix_append _ _

end TableDriven.Calculator
