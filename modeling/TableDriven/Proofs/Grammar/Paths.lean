import TableDriven.Proofs.Grammar.WellFormed

/-!
# Paths of the parsing automaton

A path leads from the initial state along transitions, each labelled by a symbol.
Tables are consistent if every path to a state that reduces by a rule ends with
the body of that rule, and if only the start symbol leads from the initial state
to one that accepts.

There are infinitely many paths. It suffices to know for each state some symbols
that every path to it ends with: none for the initial state, and along every
transition no more than those of the state before and the label. If these symbols
end with the body of every rule that their state reduces by, and with the start
symbol where it accepts, the tables are consistent.
-/

namespace TableDriven

/-- Where an action moves the automaton when it pushes a symbol. -/
def Action.target? : Action → Option LalrStateId
  | .shift target => some target
  | .goto target => some target
  | .reduce _ => none
  | .accept => none
  | .error => none

/-- A parsing state has a transition on a symbol, of either kind. -/
inductive Grammar.Transition (grammar : Grammar) (state : LalrStateId) (symbol : SymbolId)
    (target : LalrStateId) : Prop where
  | shift (listed : grammar.actionOn state symbol = .ok (some (.shift target)))
  | goto (listed : grammar.actionOn state symbol = .ok (some (.goto target)))

/-- The parsing automaton gets from its initial state to another along some
labels. -/
inductive Grammar.Path (grammar : Grammar) : List SymbolId → LalrStateId → Prop where
  | start : Path grammar [] grammar.tables.lalrInitial
  | extend (labels : List SymbolId) (state : LalrStateId) (label : SymbolId)
      (target : LalrStateId) (path : Path grammar labels state)
      (moved : grammar.Transition state label target) :
      Path grammar (labels ++ [label]) target

/-- The parsing automaton agrees with the rules and the start symbol. -/
structure Grammar.Consistent (grammar : Grammar) : Prop where
  /-- A path to a state that reduces by a rule ends with the rule's body. -/
  handles : ∀ labels state symbol id rule, grammar.Path labels state →
    grammar.actionOn state symbol = .ok (some (.reduce id)) → grammar.rule id = .ok rule →
    rule.body <:+ labels
  /-- A transition to a state that accepts is along the start symbol if it starts
  in the initial state. -/
  accepts : ∀ label state symbol,
    grammar.Transition grammar.tables.lalrInitial label state →
    grammar.actionOn state symbol = .ok (some .accept) → label = grammar.tables.startSymbol

namespace Tables

/-- What an entry of a parsing state asks of the symbols that paths to the states
end with. -/
def EntryRecent (tables : Tables) (recent : LalrStateId → List SymbolId) (state : LalrStateId)
    (entry : ActionEntry) : Prop :=
  match entry.action with
  | .shift target => recent target <:+ recent state ++ [entry.symbol]
  | .goto target => recent target <:+ recent state ++ [entry.symbol]
  | .reduce id => ∀ rule ∈ tables.rules[id]?, rule.body <:+ recent state
  | .accept => [tables.startSymbol] <:+ recent state
  | .error => True

/-- Whether an entry agrees with known symbols can be decided. -/
instance (tables : Tables) (recent : LalrStateId → List SymbolId) (state : LalrStateId)
    (entry : ActionEntry) : Decidable (tables.EntryRecent recent state entry) :=
  match entry with
  | ⟨symbol, .shift target⟩ =>
    inferInstanceAs (Decidable (recent target <:+ recent state ++ [symbol]))
  | ⟨symbol, .goto target⟩ =>
    inferInstanceAs (Decidable (recent target <:+ recent state ++ [symbol]))
  | ⟨_, .reduce id⟩ =>
    inferInstanceAs (Decidable (∀ rule ∈ tables.rules[id]?, rule.body <:+ recent state))
  | ⟨_, .accept⟩ => inferInstanceAs (Decidable ([tables.startSymbol] <:+ recent state))
  | ⟨_, .error⟩ => inferInstanceAs (Decidable True)

/-- Symbols that are known of every state agree with all entries. -/
structure Recent (tables : Tables) (recent : LalrStateId → List SymbolId) : Prop where
  fresh : recent tables.lalrInitial = []
  entries : ∀ state ∈ tables.lalrStates, ∀ entry ∈ state.actions,
    tables.EntryRecent recent state.id entry

end Tables

namespace Grammar

variable {grammar : Grammar} {recent : LalrStateId → List SymbolId}

/-- An action that a state has is listed in an entry of that state. -/
theorem entry_of_actionOn (well : grammar.tables.WellFormed) {state : LalrStateId}
    {symbol : SymbolId} {action : Action}
    (listed : grammar.actionOn state symbol = .ok (some action)) :
    ∃ found ∈ grammar.tables.lalrStates, found.id = state ∧ ⟨symbol, action⟩ ∈ found.actions := by
  obtain ⟨found, looked, answer⟩ := actionOn_eq_ok.mp listed
  have placed : grammar.tables.lalrStates[state]? = some found := (entry_eq_ok _ _ _ _).mp looked
  exact ⟨found, Array.mem_of_getElem? placed, well.lalrStatesPlaced state found placed,
    (LalrState.actionOn_eq_some answer).1⟩

/-- A transition is listed in an entry of the state that it starts from. -/
theorem entry_of_transition (well : grammar.tables.WellFormed) {state target : LalrStateId}
    {symbol : SymbolId} (moved : grammar.Transition state symbol target) :
    ∃ found ∈ grammar.tables.lalrStates, found.id = state ∧
      ∃ entry ∈ found.actions, entry.symbol = symbol ∧ entry.action.target? = some target := by
  rcases moved with listed | listed
  · obtain ⟨found, member, same, entry⟩ := entry_of_actionOn well listed
    exact ⟨found, member, same, _, entry, rfl, rfl⟩
  · obtain ⟨found, member, same, entry⟩ := entry_of_actionOn well listed
    exact ⟨found, member, same, _, entry, rfl, rfl⟩

/-- What the entries ask of the known symbols they ask of every action. -/
theorem entryRecent_of_actionOn (well : grammar.tables.WellFormed)
    (known : grammar.tables.Recent recent) {state : LalrStateId} {symbol : SymbolId}
    {action : Action} (listed : grammar.actionOn state symbol = .ok (some action)) :
    grammar.tables.EntryRecent recent state ⟨symbol, action⟩ := by
  obtain ⟨found, member, rfl, entry⟩ := entry_of_actionOn well listed
  exact known.entries found member _ entry

/-- Every path ends with the symbols known of the state it leads to. -/
theorem Path.recent_suffix (well : grammar.tables.WellFormed)
    (known : grammar.tables.Recent recent) {labels : List SymbolId} {state : LalrStateId}
    (path : grammar.Path labels state) : recent state <:+ labels := by
  induction path with
  | start => exact known.fresh ▸ List.nil_suffix
  | extend labels state label target path moved inductionHypothesis =>
    have step : recent target <:+ recent state ++ [label] := by
      rcases moved with listed | listed
      · exact entryRecent_of_actionOn well known listed
      · exact entryRecent_of_actionOn well known listed
    exact step.trans (List.suffix_append_self_iff.mpr inductionHypothesis)

/-- Known symbols that agree with all entries make tables consistent. -/
theorem consistent_of_recent (well : grammar.tables.WellFormed)
    (known : grammar.tables.Recent recent) : grammar.Consistent where
  handles labels state symbol id rule path listed looked := by
    have body : ∀ rule ∈ grammar.tables.rules[id]?, rule.body <:+ recent state :=
      entryRecent_of_actionOn well known listed
    exact (body rule ((entry_eq_ok _ _ _ _).mp looked)).trans (path.recent_suffix well known)
  accepts label state symbol moved listed := by
    have ends : [grammar.tables.startSymbol] <:+ recent state :=
      entryRecent_of_actionOn well known listed
    have path : grammar.Path [label] state := .extend [] _ label state .start moved
    have same : [grammar.tables.startSymbol] = [label] :=
      (ends.trans (path.recent_suffix well known)).eq_of_length rfl
    exact (List.singleton_inj.mp same).symm

end Grammar

end TableDriven
