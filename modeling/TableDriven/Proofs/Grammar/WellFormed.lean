import TableDriven.Grammar.Basic

/-!
# Well-formed tables

Tables are well formed if every entry is numbered by its position and every
reference leads to an entry. Validation finds no fault exactly in well-formed
tables with a symbol for the end of input, so every lookup made on behalf of a
validated grammar succeeds, and it answers with the entry of that number.
-/

namespace TableDriven

namespace Tables

/-- Every entry stands at the position that it is numbered by. -/
def Placed {α : Type} (table : Array α) (number : α → Nat) : Prop :=
  ∀ (index : Nat) (entry : α), table[index]? = some entry → number entry = index

/-- What an action leads to exists. -/
def Leads (tables : Tables) : Action → Prop
  | .shift target => target < tables.count .lalrState
  | .goto target => target < tables.count .lalrState
  | .reduce rule => rule < tables.count .rule
  | .accept => True
  | .error => True

/-- The references of a lexical state lead to entries. -/
structure DfaStateLeads (tables : Tables) (state : DfaState) : Prop where
  accept : ∀ symbol ∈ state.accept, symbol < tables.count .symbol
  edges : ∀ edge ∈ state.edges,
    edge.charSet < tables.count .charSet ∧ edge.target < tables.count .dfaState

/-- Entries stand where they are numbered, and references lead to entries. -/
structure WellFormed (tables : Tables) : Prop where
  symbolsPlaced : Placed tables.symbols Symbol.id
  charSetsPlaced : Placed tables.charSets CharSet.id
  dfaStatesPlaced : Placed tables.dfaStates DfaState.id
  lalrStatesPlaced : Placed tables.lalrStates LalrState.id
  rulesPlaced : Placed tables.rules Rule.id
  dfaStates : ∀ state ∈ tables.dfaStates, tables.DfaStateLeads state
  actions : ∀ state ∈ tables.lalrStates, ∀ entry ∈ state.actions,
    entry.symbol < tables.count .symbol ∧ tables.Leads entry.action
  rules : ∀ rule ∈ tables.rules, ∀ symbol ∈ rule.head :: rule.body,
    symbol < tables.count .symbol
  startSymbol : tables.startSymbol < tables.count .symbol
  dfaInitial : tables.dfaInitial < tables.count .dfaState
  lalrInitial : tables.lalrInitial < tables.count .lalrState

/-- A position has no fault if it is the number of its entry. -/
theorem positionFaults_eq_nil (part : Section) (id index : Nat) :
    positionFaults part id index = [] ↔ id = index := by
  simp [positionFaults]

/-- A reference has no fault if it leads to an entry. -/
theorem referenceFaults_eq_nil (tables : Tables) (part : Section) (referent : Referent)
    (id : Nat) : tables.referenceFaults part referent id = [] ↔ id < tables.count referent := by
  simp [referenceFaults]

/-- An action has no fault if what it leads to exists. -/
theorem actionFaults_eq_nil (tables : Tables) (action : Action) :
    tables.actionFaults action = [] ↔ tables.Leads action := by
  cases action <;> simp [actionFaults, Leads, referenceFaults_eq_nil]

/-- A table whose entries are checked one by one has no fault if every entry is
placed and has the property that the check is about. -/
theorem indexed_flatMap_eq_nil {α : Type} (table : Array α) (number : α → Nat)
    (property : α → Prop) (check : α → Nat → List GrammarError)
    (exact : ∀ entry index, check entry index = [] ↔ number entry = index ∧ property entry) :
    ((indexed table).flatMap fun pair => check pair.1 pair.2) = [] ↔
      Placed table number ∧ ∀ entry ∈ table, property entry := by
  have listed (entry : α) (index : Nat) :
      (entry, index) ∈ indexed table ↔ table[index]? = some entry := by
    simp [indexed, List.mem_zipIdx_iff_getElem?]
  simp only [List.flatMap_eq_nil_iff, Prod.forall, exact, listed, Placed,
    Array.mem_iff_getElem?]
  constructor
  · intro all
    exact ⟨fun index entry found => (all entry index found).1,
      fun entry ⟨index, found⟩ => (all entry index found).2⟩
  · intro ⟨placed, holds⟩ entry index found
    exact ⟨placed index entry found, holds entry ⟨index, found⟩⟩

/-- The faults of a lexical state. -/
theorem dfaStateFaults_eq_nil (tables : Tables) (state : DfaState) (index : Nat) :
    tables.dfaStateFaults state index = [] ↔
      state.id = index ∧ tables.DfaStateLeads state := by
  have leads : tables.DfaStateLeads state ↔
      (∀ symbol ∈ state.accept, symbol < tables.count .symbol) ∧ ∀ edge ∈ state.edges,
        edge.charSet < tables.count .charSet ∧ edge.target < tables.count .dfaState :=
    ⟨fun ⟨accept, edges⟩ => ⟨accept, edges⟩, fun ⟨accept, edges⟩ => ⟨accept, edges⟩⟩
  simp [dfaStateFaults, leads, positionFaults_eq_nil, referenceFaults_eq_nil]

/-- The faults of a parsing state. -/
theorem lalrStateFaults_eq_nil (tables : Tables) (state : LalrState) (index : Nat) :
    tables.lalrStateFaults state index = [] ↔
      state.id = index ∧ ∀ entry ∈ state.actions,
        entry.symbol < tables.count .symbol ∧ tables.Leads entry.action := by
  simp [lalrStateFaults, positionFaults_eq_nil, referenceFaults_eq_nil, actionFaults_eq_nil]

/-- The faults of a rule. -/
theorem ruleFaults_eq_nil (tables : Tables) (rule : Rule) (index : Nat) :
    tables.ruleFaults rule index = [] ↔
      rule.id = index ∧ ∀ symbol ∈ rule.head :: rule.body, symbol < tables.count .symbol := by
  simp [ruleFaults, positionFaults_eq_nil, referenceFaults_eq_nil]

/-- Validation passes exactly well-formed tables with a symbol for the end of
input. Each part of the list of faults is empty if its entries are placed and
their references lead to entries. -/
theorem faults_eq_nil (tables : Tables) :
    tables.faults = [] ↔ tables.WellFormed ∧ tables.endSymbol?.isSome := by
  have symbols := indexed_flatMap_eq_nil tables.symbols Symbol.id (fun _ => True)
    (fun symbol index => positionFaults .symbols symbol.id index)
    (by simp [positionFaults_eq_nil])
  have charSets := indexed_flatMap_eq_nil tables.charSets CharSet.id (fun _ => True)
    (fun set index => positionFaults .charSets set.id index)
    (by simp [positionFaults_eq_nil])
  have dfaStates := indexed_flatMap_eq_nil tables.dfaStates DfaState.id tables.DfaStateLeads
    tables.dfaStateFaults tables.dfaStateFaults_eq_nil
  have lalrStates := indexed_flatMap_eq_nil tables.lalrStates LalrState.id
    (fun state => ∀ entry ∈ state.actions,
      entry.symbol < tables.count .symbol ∧ tables.Leads entry.action)
    tables.lalrStateFaults tables.lalrStateFaults_eq_nil
  have rules := indexed_flatMap_eq_nil tables.rules Rule.id
    (fun rule => ∀ symbol ∈ rule.head :: rule.body, symbol < tables.count .symbol)
    tables.ruleFaults tables.ruleFaults_eq_nil
  have header : tables.headerFaults = [] ↔ tables.startSymbol < tables.count .symbol ∧
      tables.dfaInitial < tables.count .dfaState ∧
      tables.lalrInitial < tables.count .lalrState := by
    simp [headerFaults, referenceFaults_eq_nil]
  have marked : (if tables.endSymbol?.isSome then [] else [GrammarError.missingEndSymbol]) = [] ↔
      tables.endSymbol?.isSome := by
    cases tables.endSymbol? <;> simp
  have parts : tables.faults =
      ((indexed tables.symbols).flatMap fun pair => positionFaults .symbols pair.1.id pair.2)
        ++ ((indexed tables.charSets).flatMap fun pair => positionFaults .charSets pair.1.id pair.2)
        ++ ((indexed tables.dfaStates).flatMap fun pair => tables.dfaStateFaults pair.1 pair.2)
        ++ ((indexed tables.lalrStates).flatMap fun pair => tables.lalrStateFaults pair.1 pair.2)
        ++ ((indexed tables.rules).flatMap fun pair => tables.ruleFaults pair.1 pair.2)
        ++ tables.headerFaults
        ++ (if tables.endSymbol?.isSome then [] else [.missingEndSymbol]) := rfl
  simp only [parts, List.append_eq_nil_iff, symbols, charSets, dfaStates, lalrStates, rules,
    header, marked]
  constructor
  · rintro ⟨⟨⟨⟨⟨⟨⟨symbolsPlaced, -⟩, charSetsPlaced, -⟩, dfaStatesPlaced, dfaStates⟩,
      lalrStatesPlaced, actions⟩, rulesPlaced, rules⟩, startSymbol, dfaInitial, lalrInitial⟩, ends⟩
    exact ⟨{ symbolsPlaced, charSetsPlaced, dfaStatesPlaced, lalrStatesPlaced, rulesPlaced,
             dfaStates, actions, rules, startSymbol, dfaInitial, lalrInitial }, ends⟩
  · rintro ⟨well, ends⟩
    exact ⟨⟨⟨⟨⟨⟨⟨well.symbolsPlaced, fun _ _ => trivial⟩, well.charSetsPlaced, fun _ _ => trivial⟩,
      well.dfaStatesPlaced, well.dfaStates⟩, well.lalrStatesPlaced, well.actions⟩,
      well.rulesPlaced, well.rules⟩, well.startSymbol, well.dfaInitial, well.lalrInitial⟩, ends⟩

end Tables

/-- The action of a state on a symbol is listed for that symbol and is not an
error. -/
theorem LalrState.actionOn_eq_some {state : LalrState} {symbol : SymbolId} {action : Action}
    (listed : state.actionOn symbol = some action) :
    (⟨symbol, action⟩ : ActionEntry) ∈ state.actions ∧ action ≠ .error := by
  obtain ⟨entry, found, rfl⟩ := Option.map_eq_some_iff.mp listed
  have member := List.mem_of_find?_eq_some found
  have suits := List.find?_some found
  obtain ⟨same, proper⟩ : entry.symbol = symbol ∧ entry.action ≠ .error := by
    simpa using suits
  exact ⟨same ▸ member, proper⟩

namespace Grammar

/-- A lookup answers with the entry at the position. -/
theorem entry_eq_ok {α : Type} (referent : Referent) (table : Array α) (id : Nat) (found : α) :
    entry referent table id = .ok found ↔ table[id]? = some found := by
  unfold entry
  cases table[id]? <;> simp

/-- A lookup below the size of the table succeeds. -/
theorem entry_of_lt {α : Type} (referent : Referent) (table : Array α) (id : Nat)
    (inside : id < table.size) : ∃ found, entry referent table id = .ok found :=
  ⟨table[id], (entry_eq_ok referent table id _).mpr (Array.getElem?_eq_getElem inside)⟩

/-- A lookup that answers was made below the size of the table. -/
theorem lt_of_entry_eq_ok {α : Type} {referent : Referent} {table : Array α} {id : Nat}
    {found : α} (looked : entry referent table id = .ok found) : id < table.size := by
  have placed := (entry_eq_ok referent table id found).mp looked
  exact (Array.getElem?_eq_some_iff.mp placed).1

/-- A grammar consists of tables without faults and of their own marks. -/
theorem ofTables_eq_ok {tables : Tables} {grammar : Grammar} :
    ofTables tables = .ok grammar ↔
      tables.faults = [] ∧ grammar.tables = tables ∧
        tables.endSymbol? = some grammar.endSymbol ∧
        grammar.lexicalError = tables.lexicalErrorSymbol?.getD unlistedError := by
  obtain ⟨own, endSymbol, lexicalError⟩ := grammar
  unfold ofTables
  cases faults : tables.faults with
  | cons fault rest => simp
  | nil =>
    cases marked : tables.endSymbol? with
    | none => simp
    | some symbol => simp [eq_comm]

/-- The tables of a grammar are well formed. -/
theorem wellFormed_of_ofTables {tables : Tables} {grammar : Grammar}
    (accepted : ofTables tables = .ok grammar) : grammar.tables.WellFormed := by
  obtain ⟨faultless, same, -⟩ := ofTables_eq_ok.mp accepted
  rw [same]
  exact (tables.faults_eq_nil.mp faultless).1

variable {grammar : Grammar}

/-- A symbol below the number of symbols is found. -/
theorem symbol_of_lt {id : SymbolId} (inside : id < grammar.tables.count .symbol) :
    ∃ found, grammar.symbol id = .ok found :=
  entry_of_lt .symbol grammar.tables.symbols id inside

/-- A rule below the number of rules is found. -/
theorem rule_of_lt {id : RuleId} (inside : id < grammar.tables.count .rule) :
    ∃ found, grammar.rule id = .ok found :=
  entry_of_lt .rule grammar.tables.rules id inside

/-- A parsing state below the number of parsing states is found. -/
theorem lalrState_of_lt {id : LalrStateId} (inside : id < grammar.tables.count .lalrState) :
    ∃ found, grammar.lalrState id = .ok found :=
  entry_of_lt .lalrState grammar.tables.lalrStates id inside

/-- A lexical state below the number of lexical states is found, and it is one of
the tables. -/
theorem dfaState_of_lt {id : DfaStateId} (inside : id < grammar.tables.count .dfaState) :
    ∃ found, grammar.dfaState id = .ok found ∧ found ∈ grammar.tables.dfaStates := by
  obtain ⟨found, looked⟩ := entry_of_lt .dfaState grammar.tables.dfaStates id inside
  exact ⟨found, looked, Array.mem_of_getElem? ((entry_eq_ok _ _ _ _).mp looked)⟩

/-- A symbol that is looked up has the number it was looked up by. -/
theorem symbol_id (well : grammar.tables.WellFormed) {id : SymbolId} {found : Symbol}
    (looked : grammar.symbol id = .ok found) : found.id = id :=
  well.symbolsPlaced id found ((entry_eq_ok _ _ _ _).mp looked)

/-- A symbol of the tables is found by its number. -/
theorem symbol_of_mem (well : grammar.tables.WellFormed) {symbol : Symbol}
    (member : symbol ∈ grammar.tables.symbols) : grammar.symbol symbol.id = .ok symbol := by
  obtain ⟨index, placed⟩ := Array.mem_iff_getElem?.mp member
  rw [well.symbolsPlaced index symbol placed]
  exact (entry_eq_ok _ _ _ _).mpr placed

/-- The head of a rule and the symbols of its body exist. -/
theorem symbol_of_rule (well : grammar.tables.WellFormed) {id : RuleId} {rule : Rule}
    (looked : grammar.rule id = .ok rule) {symbol : SymbolId}
    (member : symbol ∈ rule.head :: rule.body) : ∃ found, grammar.symbol symbol = .ok found := by
  have placed : grammar.tables.rules[id]? = some rule := (entry_eq_ok _ _ _ _).mp looked
  exact symbol_of_lt (well.rules rule (Array.mem_of_getElem? placed) symbol member)

/-- A state that answers exists. -/
theorem actionOn_eq_ok {state : LalrStateId} {symbol : SymbolId} {action : Option Action} :
    grammar.actionOn state symbol = .ok action ↔
      ∃ found, grammar.lalrState state = .ok found ∧ found.actionOn symbol = action := by
  unfold actionOn
  cases grammar.lalrState state <;> simp [Except.map]

/-- A state that exists answers. -/
theorem actionOn_of_lt {state : LalrStateId} (inside : state < grammar.tables.count .lalrState)
    (symbol : SymbolId) : ∃ action, grammar.actionOn state symbol = .ok action := by
  obtain ⟨found, looked⟩ := lalrState_of_lt inside
  exact ⟨found.actionOn symbol, actionOn_eq_ok.mpr ⟨found, looked, rfl⟩⟩

/-- A state that has an action exists, and so does what the action leads to. The
action is not an error. -/
theorem actionOn_eq_some (well : grammar.tables.WellFormed) {state : LalrStateId}
    {symbol : SymbolId} {action : Action}
    (listed : grammar.actionOn state symbol = .ok (some action)) :
    state < grammar.tables.count .lalrState ∧ grammar.tables.Leads action ∧ action ≠ .error := by
  obtain ⟨found, looked, answer⟩ := actionOn_eq_ok.mp listed
  obtain ⟨member, proper⟩ := LalrState.actionOn_eq_some answer
  have placed : grammar.tables.lalrStates[state]? = some found := (entry_eq_ok _ _ _ _).mp looked
  exact ⟨lt_of_entry_eq_ok looked,
    (well.actions found (Array.mem_of_getElem? placed) _ member).2, proper⟩

end Grammar
end TableDriven
