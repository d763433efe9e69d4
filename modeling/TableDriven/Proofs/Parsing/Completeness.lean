import TableDriven.Proofs.Parsing.Derivation
import TableDriven.Proofs.Parsing.Yields

/-!
# Certified tables parse every derivation

An item says what a parsing state has yet to read of the body of a rule, which
symbols may come next after that, and what is done when one of them does. A
certificate gives each state its items and each symbol the symbols that its tokens
can begin with. It holds if the items are kept up by the transitions, if wherever
a symbol is to be read the rules for it can be begun, and if every item that is
read to its end is acted upon.

With a certificate that holds, the automaton parses whatever has a derivation tree
and ends with that very tree. So no form has two derivation trees over the same
tokens: the automaton would have to end with both.
-/

namespace TableDriven

/-- What is left to read, the symbols that may come next after it, and what is then
done. -/
structure Item where
  left : List SymbolId
  ahead : List SymbolId
  action : Action
deriving DecidableEq

/-- Items for each parsing state, and for each symbol the symbols that its tokens
can begin with. -/
structure Certificate where
  items : LalrStateId → List Item
  first : SymbolId → List SymbolId

/-- The symbols that can come next where a form is to be read. -/
def Certificate.leading (certificate : Certificate) (form ahead : List SymbolId) : List SymbolId :=
  match form with
  | [] => ahead
  | symbol :: _ => certificate.first symbol

/-- The action of a state on a symbol, if both exist. -/
def Grammar.actionOn? (grammar : Grammar) (state : LalrStateId) (symbol : SymbolId) :
    Option Action :=
  (grammar.actionOn state symbol).toOption.join

/-- The action that exists is the one that is found. -/
theorem Grammar.actionOn?_eq_some {grammar : Grammar} {state : LalrStateId} {symbol : SymbolId}
    {action : Action} : grammar.actionOn? state symbol = some action ↔
      grammar.actionOn state symbol = .ok (some action) := by
  unfold actionOn?
  rcases grammar.actionOn state symbol with defect | _ | found <;> simp [Except.toOption]

/-- What has to be so of an item in a state. If nothing is left to read, it is acted
upon on all symbols that may come next. Otherwise the rules for the symbol to be
read are begun in the same state, and there is a transition along that symbol to
where the rest is to be read. -/
def Certificate.Keeps (certificate : Certificate) (grammar : Grammar) (state : LalrStateId) :
    Item → Prop
  | ⟨[], ahead, action⟩ => ∀ symbol ∈ ahead, grammar.actionOn? state symbol = some action
  | ⟨symbol :: form, ahead, action⟩ =>
    (∀ rule ∈ grammar.tables.rules, rule.head = symbol → ∃ begun ∈ certificate.items state,
      begun.left = rule.body ∧ begun.action = .reduce rule.id ∧
        ∀ next ∈ certificate.leading form ahead, next ∈ begun.ahead) ∧
      ∃ target ∈ (grammar.actionOn? state symbol).bind Action.target?,
        ⟨form, ahead, action⟩ ∈ certificate.items target

/-- Whether an item is kept can be found out. -/
instance (certificate : Certificate) (grammar : Grammar) (state : LalrStateId) (item : Item) :
    Decidable (certificate.Keeps grammar state item) :=
  match item with
  | ⟨[], ahead, action⟩ =>
    inferInstanceAs (Decidable (∀ symbol ∈ ahead, grammar.actionOn? state symbol = some action))
  | ⟨symbol :: form, ahead, action⟩ =>
    inferInstanceAs (Decidable ((∀ rule ∈ grammar.tables.rules, rule.head = symbol →
      ∃ begun ∈ certificate.items state, begun.left = rule.body ∧
        begun.action = .reduce rule.id ∧
          ∀ next ∈ certificate.leading form ahead, next ∈ begun.ahead) ∧
      ∃ target ∈ (grammar.actionOn? state symbol).bind Action.target?,
        (⟨form, ahead, action⟩ : Item) ∈ certificate.items target))

/-- A certificate describes the tables of a grammar. -/
structure Certificate.Holds (certificate : Certificate) (grammar : Grammar) : Prop where
  own : ∀ symbol, symbol ∈ certificate.first symbol
  bodies : ∀ rule ∈ grammar.tables.rules, rule.body ≠ [] ∧
    ∀ symbol ∈ rule.body.head?, ∀ next ∈ certificate.first symbol,
      next ∈ certificate.first rule.head
  items : ∀ state, ∀ item ∈ certificate.items state, certificate.Keeps grammar state item
  start : ⟨[grammar.tables.startSymbol], [grammar.endSymbol.id], .accept⟩ ∈
    certificate.items grammar.tables.lalrInitial

namespace Certificate.Holds

variable {certificate : Certificate} {grammar : Grammar}

/-- The body of a rule begins with a symbol, and its tokens as the head's may. -/
theorem body (holds : certificate.Holds grammar) {id : RuleId} {rule : Rule}
    (looked : grammar.rule id = .ok rule) :
    ∃ symbol form, rule.body = symbol :: form ∧
      ∀ next ∈ certificate.first symbol, next ∈ certificate.first rule.head := by
  have placed : grammar.tables.rules[id]? = some rule := (Grammar.entry_eq_ok _ _ _ _).mp looked
  obtain ⟨nonempty, firsts⟩ := holds.bodies rule (Array.mem_of_getElem? placed)
  obtain ⟨symbol, form, spelled⟩ := List.exists_cons_of_ne_nil nonempty
  exact ⟨symbol, form, spelled, firsts symbol (by simp [spelled])⟩

variable {state : LalrStateId} {item : Item}

/-- Where a symbol is to be read, every rule for it is begun, with what may come
next after the symbol. -/
theorem closed (holds : certificate.Holds grammar) (well : grammar.tables.WellFormed)
    (member : item ∈ certificate.items state) {symbol : SymbolId} {form : List SymbolId}
    (spelled : item.left = symbol :: form) {id : RuleId} {rule : Rule}
    (looked : grammar.rule id = .ok rule) (heads : rule.head = symbol) :
    ∃ ahead, ⟨rule.body, ahead, .reduce id⟩ ∈ certificate.items state ∧
      ∀ next ∈ certificate.leading form item.ahead, next ∈ ahead := by
  have placed : grammar.tables.rules[id]? = some rule := (Grammar.entry_eq_ok _ _ _ _).mp looked
  obtain ⟨left, ahead, action⟩ := item
  obtain rfl : left = symbol :: form := spelled
  obtain ⟨⟨_, following, _⟩, among, rfl, rfl, covers⟩ :=
    (holds.items state _ member).1 rule (Array.mem_of_getElem? placed) heads
  have numbered : rule.id = id := well.rulesPlaced id rule placed
  exact ⟨following, numbered ▸ among, covers⟩

/-- Where a symbol is to be read, there is a transition to where the rest is. -/
theorem advances (holds : certificate.Holds grammar) (member : item ∈ certificate.items state)
    {symbol : SymbolId} {form : List SymbolId} (spelled : item.left = symbol :: form) :
    ∃ target, grammar.Transition state symbol target ∧
      { item with left := form } ∈ certificate.items target := by
  obtain ⟨left, ahead, action⟩ := item
  obtain rfl : left = symbol :: form := spelled
  obtain ⟨target, moves, advanced⟩ := (holds.items state _ member).2
  obtain ⟨found, answer, leads⟩ := Option.bind_eq_some_iff.mp moves
  have listed := Grammar.actionOn?_eq_some.mp answer
  refine ⟨target, ?_, advanced⟩
  cases found with
  | shift own =>
    obtain rfl := Option.some.inj leads
    exact .shift listed
  | goto own =>
    obtain rfl := Option.some.inj leads
    exact .goto listed
  | reduce => contradiction
  | accept => contradiction
  | error => contradiction

/-- Where everything has been read, it is acted upon. -/
theorem acts (holds : certificate.Holds grammar) (member : item ∈ certificate.items state)
    (read : item.left = []) {symbol : SymbolId} (next : symbol ∈ item.ahead) :
    grammar.actionOn state symbol = .ok (some item.action) := by
  obtain ⟨left, ahead, action⟩ := item
  obtain rfl : left = [] := read
  exact Grammar.actionOn?_eq_some.mp (holds.items state _ member symbol next)

end Certificate.Holds

/-- Trees have been pushed one after the other on the stack of a machine, the first
of them from its state. -/
def Machine.Pushed (machine : Machine) (forest : List Node) (after : Machine) : Prop :=
  ∃ entries : List Entry, after.stack = entries.reverse ++ machine.stack ∧
    entries.map Entry.node = forest.map some ∧ ∀ entry ∈ entries.head?, entry.origin = machine.state

namespace Machine.Pushed

variable {machine next after : Machine} {forest rest : List Node} {first : Node}

/-- Nothing has been pushed. -/
theorem nil (machine : Machine) : machine.Pushed [] machine :=
  ⟨[], rfl, rfl, by simp⟩

/-- A tree is pushed before others. -/
theorem cons {token : Token} {node : Node}
    (stacked : next.stack = ⟨machine.state, token, some node⟩ :: machine.stack)
    (pushed : next.Pushed forest after) : machine.Pushed (node :: forest) after := by
  obtain ⟨entries, above, carried, -⟩ := pushed
  refine ⟨⟨machine.state, token, some node⟩ :: entries, ?_, ?_, ?_⟩
  · rw [above, stacked, List.reverse_cons, List.append_assoc, List.singleton_append]
  · rw [List.map_cons, List.map_cons, carried]
  · intro entry same
    obtain rfl := Option.some.inj same
    rfl

/-- Trees that have been pushed for the body of a rule are replaced by a branch when
the rule is reduced, and the head is pushed from where the first of them was. -/
theorem reduce {automaton : Automaton} {id : RuleId} {rule : Rule} {head : Symbol}
    {lookahead : Token} {target : LalrStateId} (pushed : machine.Pushed (first :: rest) after)
    (left : machine.stack ≠ []) (untrimmed : automaton.trim = false)
    (looked : automaton.grammar.rule id = .ok rule)
    (named : automaton.grammar.symbol rule.head = .ok head)
    (fits : (first :: rest).length = rule.body.length)
    (listed : automaton.grammar.actionOn after.state lookahead.symbol.id = .ok (some (.reduce id)))
    (moved : automaton.grammar.Transition machine.state head.id target) :
    ∃ reduced, automaton.step after lookahead = ⟨reduced, lookahead, .ok .reduce⟩ ∧
      reduced.state = target ∧
      reduced.stack = ⟨machine.state, ⟨head, first.label.line, ""⟩,
        some (Node.branch id head.name first.label.line (first :: rest))⟩ :: machine.stack := by
  obtain ⟨entries, above, carried, origin⟩ := pushed
  have planned : automaton.plan id = .ok (rule, head, false) :=
    Automaton.plan_eq_ok.mpr ⟨looked, named, by simp [Automaton.trims, untrimmed]⟩
  cases entries with
  | nil => simp at carried
  | cons lowest others =>
    have lengths := congrArg List.length carried
    rw [List.length_map, List.length_map] at lengths
    have taken : Automaton.BodyTaken after id rule head lookahead false _ _ :=
      .handle lowest others machine.stack (first :: rest) above (lengths.trans fits) left carried
    have same := origin lowest rfl
    rw [← same] at moved
    have reduced := Automaton.Reduced.intro rule head false _ _ target planned taken moved
    refine ⟨_, Automaton.step_eq_of_effect (.reduce id _ listed reduced), rfl, ?_⟩
    rw [← same]
    rfl

end Machine.Pushed

/-- A token for which there is a transition is pushed. -/
theorem Automaton.step_of_transition {automaton : Automaton} {machine : Machine} {token : Token}
    {target : LalrStateId}
    (moved : automaton.grammar.Transition machine.state token.symbol.id target) :
    ∃ next signal, automaton.step machine token = ⟨next, token, .ok signal⟩ ∧
      (signal = .shift ∨ signal = .goto) ∧ next.state = target ∧
      next.stack = ⟨machine.state, token, some token.leaf⟩ :: machine.stack := by
  cases moved with
  | shift listed =>
    exact ⟨_, .shift, step_eq_of_effect (.shift target listed), .inl rfl, rfl, rfl⟩
  | goto listed =>
    exact ⟨_, .goto, step_eq_of_effect (.goto target listed), .inr rfl, rfl, rfl⟩

/-- The end of the input need not be in the list, as it is scanned when the list is
used up. -/
theorem Automaton.Yields.without_last {automaton : Automaton} {last : Token} {machine : Machine}
    {tokens : List Token} {result : Except Halt Node}
    (yields : automaton.Yields (.complete last) machine (tokens ++ [last]) result) :
    automaton.Yields (.complete last) machine tokens result := by
  by_cases empty : tokens = []
  · subst empty
    exact .refilled rfl yields
  · obtain ⟨token, others, rfl⟩ := List.exists_cons_of_ne_nil empty
    clear empty
    generalize listed : token :: others ++ [last] = all at yields
    induction yields generalizing token others with
    | pushed stepped pushed rest inductionHypothesis =>
      obtain ⟨rfl, rfl⟩ := List.cons.inj listed
      cases others with
      | nil => exact .pushed stepped pushed (.refilled rfl rest)
      | cons second others => exact .pushed stepped pushed (inductionHypothesis second others rfl)
    | again stepped rest inductionHypothesis =>
      obtain ⟨rfl, rfl⟩ := List.cons.inj listed
      exact .again stepped (inductionHypothesis _ others rfl)
    | accepted stepped =>
      obtain ⟨rfl, -⟩ := List.cons.inj listed
      exact .accepted stepped
    | rejected stepped =>
      obtain ⟨rfl, -⟩ := List.cons.inj listed
      exact .rejected stepped
    | halted stepped =>
      obtain ⟨rfl, -⟩ := List.cons.inj listed
      exact .halted stepped
    | refilled => contradiction
    | stopped => contradiction

variable {grammar : Grammar} {certificate : Certificate}

/-- The tokens of a form that begins with a symbol begin with one that the symbol can
begin with. No body of a rule is empty, so the symbol has a token. -/
theorem Derivation.first (holds : certificate.Holds grammar) {symbol : SymbolId}
    {remaining : List SymbolId} {tokens : List Token} {forest : List Node}
    (derived : Derivation grammar (symbol :: remaining) tokens forest) :
    ∃ next others, tokens = next :: others ∧ next.symbol.id ∈ certificate.first symbol := by
  generalize spelled : symbol :: remaining = form at derived
  induction derived generalizing symbol remaining with
  | nil => contradiction
  | leaf token others =>
    obtain ⟨rfl, -⟩ := List.cons.inj spelled
    exact ⟨token, _, rfl, holds.own token.symbol.id⟩
  | branch id rule head looked named body others ofBody =>
    obtain ⟨rfl, -⟩ := List.cons.inj spelled
    obtain ⟨leading, form, begun, firsts⟩ := holds.body looked
    obtain ⟨next, rest, rfl, among⟩ := ofBody begun.symm
    exact ⟨next, rest ++ _, rfl, firsts _ among⟩
  | empty id rule head name line text looked named bodiless =>
    obtain ⟨leading, form, begun, -⟩ := holds.body looked
    rw [bodiless] at begun
    contradiction

/-- What comes next where a form is to be read is one of the symbols that can. -/
theorem Derivation.leading (holds : certificate.Holds grammar) {form : List SymbolId}
    {tokens : List Token} {forest : List Node} (derived : Derivation grammar form tokens forest)
    {lookahead : Token} {ahead : List SymbolId} (follows : lookahead.symbol.id ∈ ahead)
    (rest : List Token) :
    ∃ next others, tokens ++ lookahead :: rest = next :: others ∧
      next.symbol.id ∈ certificate.leading form ahead := by
  cases form with
  | nil =>
    cases derived
    exact ⟨lookahead, rest, rfl, follows⟩
  | cons symbol remaining =>
    obtain ⟨next, others, rfl, among⟩ := derived.first holds
    exact ⟨next, others ++ lookahead :: rest, rfl, among⟩

/-- A machine that has an item for a form reads the tokens of the form and pushes
their trees. What it then yields from the tokens behind, it yields from all.
Induct on the derivation. A leaf is pushed by the transition that the item has. For
a branch the item of its rule is begun in the same state; once the body has been
read, the next token is one on which the rule is reduced, and the head is pushed
by the transition that the first item has. -/
theorem Certificate.Holds.reads {automaton : Automaton} (ending : Ending)
    (holds : certificate.Holds automaton.grammar) (well : automaton.grammar.tables.WellFormed)
    (untrimmed : automaton.trim = false) {form : List SymbolId} {tokens : List Token}
    {forest : List Node} (derived : Derivation automaton.grammar form tokens forest) :
    ∀ (machine : Machine) (item : Item) (lookahead : Token) (rest : List Token),
      machine.stack ≠ [] → item ∈ certificate.items machine.state → item.left = form →
      lookahead.symbol.id ∈ item.ahead →
      ∃ after, machine.Pushed forest after ∧
        { item with left := [] } ∈ certificate.items after.state ∧
        ∀ result, automaton.Yields ending after (lookahead :: rest) result →
          automaton.Yields ending machine (tokens ++ lookahead :: rest) result := by
  induction derived with
  | nil =>
    rintro machine ⟨left, ahead, action⟩ lookahead rest - member rfl follows
    exact ⟨machine, .nil machine, member, fun result yields => yields⟩
  | @leaf token form tokens forest others inductionHypothesis =>
    intro machine item lookahead rest stacked member spelled follows
    obtain ⟨target, moved, advanced⟩ := holds.advances member spelled
    obtain ⟨next, signal, stepped, pushes, state, above⟩ := Automaton.step_of_transition moved
    obtain ⟨after, onward, done, ofRest⟩ := inductionHypothesis next { item with left := form }
      lookahead rest (by rw [above]; simp) (state ▸ advanced) rfl follows
    refine ⟨after, .cons above onward, done, ?_⟩
    intro result yields
    exact .pushed stepped pushes (ofRest result yields)
  | @branch id rule head form below tokens first siblings forest looked named body others ofBody
      ofOthers =>
    intro machine item lookahead rest stacked member spelled follows
    obtain ⟨ahead, begun, covers⟩ := holds.closed well member spelled looked rfl
    obtain ⟨target, moved, advanced⟩ := holds.advances member spelled
    obtain ⟨next, remaining, split, among⟩ := others.leading holds follows rest
    obtain ⟨read, pushed, complete, ofRead⟩ := ofBody machine ⟨rule.body, ahead, .reduce id⟩ next
      remaining stacked begun rfl (covers _ among)
    have listed := holds.acts complete rfl (covers _ among)
    have own := Grammar.symbol_id well named
    obtain ⟨reduced, stepped, state, above⟩ :=
      pushed.reduce stacked untrimmed looked named body.length_eq listed (own ▸ moved)
    obtain ⟨after, onward, done, ofRest⟩ := ofOthers reduced { item with left := form } lookahead
      rest (by rw [above]; simp) (state ▸ advanced) rfl follows
    refine ⟨after, .cons above onward, done, ?_⟩
    intro result yields
    have again := Automaton.Yields.again stepped (split ▸ ofRest result yields)
    rw [List.append_assoc, split]
    exact ofRead result again
  | empty id rule head name line text looked named bodiless =>
    obtain ⟨leading, form, spelled, -⟩ := holds.body looked
    rw [bodiless] at spelled
    contradiction

/-- From the start of a parse the automaton accepts every list of tokens that has a
derivation tree of the start symbol, with that tree. -/
theorem Certificate.Holds.accepts {automaton : Automaton} {machine : Machine} {lowest : Entry}
    {last : Token} {tokens : List Token} {tree : Node}
    (holds : certificate.Holds automaton.grammar) (well : automaton.grammar.tables.WellFormed)
    (untrimmed : automaton.trim = false)
    (initial : machine.state = automaton.grammar.tables.lalrInitial)
    (alone : machine.stack = [lowest]) (ends : last.symbol.id = automaton.grammar.endSymbol.id)
    (derived : Derivation automaton.grammar [automaton.grammar.tables.startSymbol] tokens [tree]) :
    automaton.Yields (.complete last) machine tokens (.ok tree) := by
  obtain ⟨after, pushed, done, yields⟩ := holds.reads (.complete last) well untrimmed derived
    machine _ last [] (by simp [alone]) (initial ▸ holds.start) rfl (by simp [ends])
  have listed : automaton.grammar.actionOn after.state last.symbol.id = .ok (some .accept) :=
    holds.acts done rfl (by simp [ends])
  have stepped := Automaton.step_eq_of_effect (Automaton.Effect.accept listed)
  have root : after.root = .ok tree := by
    obtain ⟨entries, above, carried, -⟩ := pushed
    obtain ⟨entry, rfl, own⟩ := List.map_eq_singleton_iff.mp carried
    rw [alone] at above
    simp [Machine.root, above, own]
  have accepted := yields _ (.accepted stepped)
  rw [root] at accepted
  exact accepted.without_last

end TableDriven
