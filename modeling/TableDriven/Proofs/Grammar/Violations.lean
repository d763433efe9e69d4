import TableDriven.Proofs.Grammar.Sums

/-!
# The first violation

What tables promise is stated here place by place, without the checks that validation makes.
An entry is to be numbered by its position, and what it refers to is to exist. Places are ordered
as they are listed: by the part of the tables, the entry, and within an entry its position before
its references. Validation refuses tables exactly if some promise is broken, and the fault that it
reports is that of the first place where one is.
-/

namespace TableDriven

/-- What an entry of the tables says of itself and of others: its number, and what it refers to,
in order. -/
structure Stated where
  number : Nat
  references : List (Referent × Nat)

/-- What an action refers to. -/
def Action.references : Action → List (Referent × Nat)
  | .shift target => [(.lalrState, target)]
  | .goto target => [(.lalrState, target)]
  | .reduce rule => [(.rule, rule)]
  | .accept => []
  | .error => []

/-- What a lexical state says. -/
def DfaState.stated (state : DfaState) : Stated where
  number := state.id
  references := state.accept.toList.map (fun symbol => (.symbol, symbol))
    ++ state.edges.flatMap fun edge => [(.charSet, edge.charSet), (.dfaState, edge.target)]

/-- What a parsing state says. -/
def LalrState.stated (state : LalrState) : Stated where
  number := state.id
  references := state.actions.flatMap fun entry =>
    (.symbol, entry.symbol) :: entry.action.references

/-- What a rule says. -/
def Rule.stated (rule : Rule) : Stated where
  number := rule.id
  references := (rule.head :: rule.body).map fun symbol => (.symbol, symbol)

/-- The place of a part of the tables among the others. -/
def Section.rank : Section → Nat
  | .symbols => 0
  | .charSets => 1
  | .dfaStates => 2
  | .lalrStates => 3
  | .rules => 4
  | .header => 5

/-- No two parts have the same rank. -/
theorem Section.eq_of_rank {one other : Section} (same : one.rank = other.rank) :
    one = other := by
  revert same
  cases one <;> cases other <;> decide

/-- The parts of the tables, in order. -/
def Section.all : List Section :=
  [.symbols, .charSets, .dfaStates, .lalrStates, .rules, .header]

/-- There are no other parts. -/
theorem Section.mem_all (part : Section) : part ∈ Section.all := by
  cases part <;> decide

/-- What can be right or wrong: the position of an entry, which is its item zero, or one of its
references, which are counted from one. -/
structure Place where
  part : Section
  entry : Nat
  item : Nat

/-- The order of places. -/
def Place.Before (one other : Place) : Prop :=
  one.part.rank < other.part.rank ∨ one.part.rank = other.part.rank ∧
    (one.entry < other.entry ∨ one.entry = other.entry ∧ one.item < other.item)

/-- Of two places that are not the same one comes first. -/
theorem Place.eq_of_not_before {one other : Place} (notBefore : ¬ one.Before other)
    (notAfter : ¬ other.Before one) : one = other := by
  obtain ⟨part, entry, item⟩ := one
  obtain ⟨otherPart, otherEntry, otherItem⟩ := other
  simp only [Before] at notBefore notAfter
  have ranks : part.rank = otherPart.rank := by omega
  have parts := Section.eq_of_rank ranks
  have entries : entry = otherEntry := by omega
  have items : item = otherItem := by omega
  rw [parts, entries, items]

namespace Tables

/-- What the entries of a part say. The entry points are one entry of a part of their own. -/
def stated (tables : Tables) : Section → List Stated
  | .symbols => tables.symbols.toList.map fun symbol => ⟨symbol.id, []⟩
  | .charSets => tables.charSets.toList.map fun set => ⟨set.id, []⟩
  | .dfaStates => tables.dfaStates.toList.map DfaState.stated
  | .lalrStates => tables.lalrStates.toList.map LalrState.stated
  | .rules => tables.rules.toList.map Rule.stated
  | .header => [⟨0, [(.symbol, tables.startSymbol), (.dfaState, tables.dfaInitial),
      (.lalrState, tables.lalrInitial)]⟩]

/-- What is broken of an entry: its position, or one of its references. -/
inductive EntryViolates (tables : Tables) (part : Section) (index : Nat) (entry : Stated) :
    Place → GrammarError → Prop where
  /-- The entry is not numbered by its position. -/
  | misnumbered (wrong : entry.number ≠ index) :
      EntryViolates tables part index entry ⟨part, index, 0⟩
        (.misnumbered part entry.number index)
  /-- A reference does not lead to an entry of the table it is meant for. -/
  | dangling (item : Nat) (referent : Referent) (id : Nat)
      (refers : entry.references[item]? = some (referent, id))
      (beyond : tables.count referent ≤ id) :
      EntryViolates tables part index entry ⟨part, index, item + 1⟩
        (.dangling part referent id (tables.count referent))

/-- What is broken of an entry is at a place of that entry. -/
theorem EntryViolates.place_eq {tables : Tables} {part : Section} {index : Nat} {entry : Stated}
    {place : Place} {fault : GrammarError}
    (broken : tables.EntryViolates part index entry place fault) :
    ∃ item, place = ⟨part, index, item⟩ := by
  cases broken with
  | misnumbered wrong => exact ⟨0, rfl⟩
  | dangling item referent id refers beyond => exact ⟨item + 1, rfl⟩

/-- A promise is broken at a place, and the fault that says so. -/
inductive Violates (tables : Tables) : Place → GrammarError → Prop where
  /-- Something is broken of an entry. -/
  | entry (part : Section) (index : Nat) (entry : Stated)
      (listed : (tables.stated part)[index]? = some entry) (place : Place) (fault : GrammarError)
      (broken : tables.EntryViolates part index entry place fault) : Violates tables place fault
  /-- No symbol marks the end of input. This shows when all entries have been seen. -/
  | unended (unmarked : ∀ symbol ∈ tables.symbols, symbol.kind ≠ .endOfInput) :
      Violates tables ⟨.header, 1, 0⟩ .missingEndSymbol

end Tables

/-- Some faults at places: none is there, or this one is and none at a place before it. -/
def Reports (violates : Place → GrammarError → Prop) : Option GrammarError → Prop
  | none => ∀ place fault, ¬ violates place fault
  | some fault => ∃ place, violates place fault ∧
      ∀ earlier other, violates earlier other → ¬ earlier.Before place

namespace Reports

variable {violates others : Place → GrammarError → Prop}

/-- What is reported of faults depends on nothing but where they are. -/
theorem congr {report : Option GrammarError} (reports : Reports violates report)
    (same : ∀ place fault, violates place fault ↔ others place fault) :
    Reports others report := by
  have equal : violates = others := by
    funext place fault
    exact propext (same place fault)
  exact equal ▸ reports

/-- A single check reports the fault of its place. -/
theorem check (place : Place) (fault : GrammarError) (wrong : Prop) [Decidable wrong] :
    Reports (fun found other => found = place ∧ other = fault ∧ wrong)
      (if wrong then [fault] else []).head? := by
  by_cases broken : wrong
  · rw [if_pos broken]
    refine ⟨place, ⟨rfl, rfl, broken⟩, ?_⟩
    rintro earlier other ⟨rfl, -, -⟩
    simp [Place.Before]
  · rw [if_neg broken]
    rintro found other ⟨-, -, wrong⟩
    exact broken wrong

/-- Of two lists of faults the first is reported, if all its places come first. -/
theorem append {first second : List GrammarError} (one : Reports violates first.head?)
    (two : Reports others second.head?)
    (ordered : ∀ place fault later other, violates place fault → others later other →
      place.Before later) :
    Reports (fun place fault => violates place fault ∨ others place fault)
      (first ++ second).head? := by
  cases first with
  | nil =>
    refine two.congr fun place fault => ?_
    exact (or_iff_right (one place fault)).symm
  | cons fault rest =>
    obtain ⟨place, broken, least⟩ := one
    refine ⟨place, .inl broken, ?_⟩
    rintro earlier other (own | behind)
    · exact least earlier other own
    · have after := ordered place fault earlier other broken behind
      unfold Place.Before at after ⊢
      omega

/-- Of many lists of faults the first fault is reported, if the places of each come before those
of the next. -/
theorem flatMap {α : Type} (members : List α) (check : α → List GrammarError)
    (violates : α → Place → GrammarError → Prop)
    (each : ∀ member ∈ members, Reports (violates member) (check member).head?)
    (ordered : members.Pairwise fun one other => ∀ place fault later second,
      violates one place fault → violates other later second → place.Before later) :
    Reports (fun place fault => ∃ member ∈ members, violates member place fault)
      (members.flatMap check).head? := by
  induction members with
  | nil =>
    rintro place fault ⟨member, none, -⟩
    contradiction
  | cons first rest inductionHypothesis =>
    obtain ⟨before, ordered⟩ := List.pairwise_cons.mp ordered
    have own := each first List.mem_cons_self
    have later := inductionHypothesis
      (fun member listed => each member (List.mem_cons_of_mem first listed)) ordered
    rw [List.flatMap_cons]
    refine (own.append later ?_).congr fun place fault => ?_
    · rintro place fault later other broken ⟨member, listed, behind⟩
      exact before member listed place fault later other broken behind
    · simp

/-- The same of the members of a list with their indices. -/
theorem indexed {α : Type} (members : List α) (check : α → Nat → List GrammarError)
    (violates : α → Nat → Place → GrammarError → Prop)
    (each : ∀ (index : Nat) (member : α), members[index]? = some member →
      Reports (violates member index) (check member index).head?)
    (ordered : ∀ index next one other place fault later second, index < next →
      violates one index place fault → violates other next later second → place.Before later) :
    Reports (fun place fault => ∃ index member, members[index]? = some member ∧
        violates member index place fault)
      (members.zipIdx.flatMap fun pair => check pair.1 pair.2).head? := by
  have reports := flatMap members.zipIdx (fun pair => check pair.1 pair.2)
    (fun pair => violates pair.1 pair.2)
    (fun pair listed => each pair.2 pair.1 (List.mem_zipIdx_iff_getElem?.mp listed)) ?_
  · refine reports.congr fun place fault => ?_
    constructor
    · rintro ⟨⟨member, index⟩, listed, broken⟩
      exact ⟨index, member, List.mem_zipIdx_iff_getElem?.mp listed, broken⟩
    · rintro ⟨index, member, listed, broken⟩
      exact ⟨(member, index), List.mem_zipIdx_iff_getElem?.mpr listed, broken⟩
  · rw [List.pairwise_iff_getElem]
    intro index next inside within earlier place fault later second broken behind
    rw [List.getElem_zipIdx] at broken behind
    exact ordered _ _ _ _ place fault later second (by omega) broken behind

end Reports

namespace Tables

variable (tables : Tables)

/-- The faults of an entry of which it is known what it says. -/
def statedFaults (part : Section) (entry : Stated) (index : Nat) : List GrammarError :=
  positionFaults part entry.number index
    ++ entry.references.flatMap fun reference =>
      tables.referenceFaults part reference.1 reference.2

/-- The faults of a part of the tables. -/
def partFaults (part : Section) : List GrammarError :=
  (tables.stated part).zipIdx.flatMap fun (entry, index) => tables.statedFaults part entry index

/-- The faults of an action are those of its references. -/
theorem actionFaults_eq (action : Action) :
    tables.actionFaults action =
      action.references.flatMap fun reference =>
        tables.referenceFaults .lalrStates reference.1 reference.2 := by
  cases action <;> simp [actionFaults, Action.references]

/-- The faults of a lexical state are those of what it says. -/
theorem dfaStateFaults_eq (state : DfaState) (index : Nat) :
    tables.dfaStateFaults state index = tables.statedFaults .dfaStates state.stated index := by
  simp [dfaStateFaults, statedFaults, DfaState.stated, List.flatMap_map, List.flatMap_assoc]

/-- The faults of a parsing state are those of what it says. -/
theorem lalrStateFaults_eq (state : LalrState) (index : Nat) :
    tables.lalrStateFaults state index = tables.statedFaults .lalrStates state.stated index := by
  simp [lalrStateFaults, statedFaults, LalrState.stated, List.flatMap_assoc, actionFaults_eq]

/-- The faults of a rule are those of what it says. -/
theorem ruleFaults_eq (rule : Rule) (index : Nat) :
    tables.ruleFaults rule index = tables.statedFaults .rules rule.stated index := by
  simp [ruleFaults, statedFaults, Rule.stated, List.flatMap_map]

/-- A symbol that marks the end of input is found if there is one. -/
theorem endSymbol?_isSome :
    tables.endSymbol?.isSome ↔ ∃ symbol ∈ tables.symbols, symbol.kind = .endOfInput := by
  simp [endSymbol?]

/-- The faults are those of the parts, one after the other, and that of the missing mark. -/
theorem faults_eq :
    tables.faults = Section.all.flatMap tables.partFaults
      ++ (if ∀ symbol ∈ tables.symbols, symbol.kind ≠ .endOfInput then [.missingEndSymbol]
          else []) := by
  have listed {α : Type} (part : Section) (table : Array α) (entryOf : α → Stated)
      (same : tables.stated part = table.toList.map entryOf) :
      tables.partFaults part = (Tables.indexed table).flatMap fun pair =>
        tables.statedFaults part (entryOf pair.1) pair.2 := by
    rw [partFaults, same, List.zipIdx_map, List.flatMap_map]
    rfl
  have marked : (if tables.endSymbol?.isSome then [] else [GrammarError.missingEndSymbol]) =
      if ∀ symbol ∈ tables.symbols, symbol.kind ≠ .endOfInput then [.missingEndSymbol]
      else [] := by
    have none : (∀ symbol ∈ tables.symbols, symbol.kind ≠ .endOfInput) ↔
        ¬ tables.endSymbol?.isSome := by
      rw [endSymbol?_isSome]
      simp only [not_exists, not_and, ne_eq]
    simp only [none, ite_not]
  have symbols := listed .symbols tables.symbols (fun symbol => ⟨symbol.id, []⟩) rfl
  have charSets := listed .charSets tables.charSets (fun set => ⟨set.id, []⟩) rfl
  have dfaStates := listed .dfaStates tables.dfaStates DfaState.stated rfl
  have lalrStates := listed .lalrStates tables.lalrStates LalrState.stated rfl
  have rules := listed .rules tables.rules Rule.stated rfl
  have header : tables.partFaults .header = tables.headerFaults := by
    simp [partFaults, stated, statedFaults, positionFaults, headerFaults]
  simp only [Section.all, List.flatMap_cons, List.flatMap_nil, symbols, charSets, dfaStates,
    lalrStates, rules, header, faults, marked, dfaStateFaults_eq, lalrStateFaults_eq, ruleFaults_eq]
  simp [statedFaults]

/-- The first of the faults of an entry is that of the first thing broken of it. -/
theorem statedFaults_reports (part : Section) (entry : Stated) (index : Nat) :
    Reports (tables.EntryViolates part index entry)
      (tables.statedFaults part entry index).head? := by
  have numbered := Reports.check ⟨part, index, 0⟩ (.misnumbered part entry.number index)
    (entry.number ≠ index)
  have referring := Reports.indexed entry.references
    (fun reference _ => tables.referenceFaults part reference.1 reference.2)
    (fun reference item found fault => found = ⟨part, index, item + 1⟩ ∧
      fault = .dangling part reference.1 reference.2 (tables.count reference.1) ∧
      tables.count reference.1 ≤ reference.2) ?_ ?_
  · have split : tables.statedFaults part entry index =
        (if entry.number ≠ index then [.misnumbered part entry.number index] else []) ++
          entry.references.zipIdx.flatMap fun pair =>
            tables.referenceFaults part pair.1.1 pair.1.2 := by
      have listed := List.flatMap_map Prod.fst (fun reference =>
        tables.referenceFaults part reference.1 reference.2) entry.references.zipIdx
      rw [List.zipIdx_map_fst] at listed
      rw [statedFaults, positionFaults, ite_not, listed]
    rw [split]
    refine (numbered.append referring ?_).congr fun place fault => ?_
    · rintro place fault later other ⟨rfl, -⟩ ⟨item, reference, -, rfl, -⟩
      simp [Place.Before]
    · constructor
      · rintro (⟨rfl, rfl, wrong⟩ | ⟨item, ⟨referent, id⟩, refers, rfl, rfl, beyond⟩)
        · exact .misnumbered wrong
        · exact .dangling item referent id refers beyond
      · rintro (⟨wrong⟩ | ⟨item, referent, id, refers, beyond⟩)
        · exact .inl ⟨rfl, rfl, wrong⟩
        · exact .inr ⟨item, (referent, id), refers, rfl, rfl, beyond⟩
  · intro item reference _
    have single := Reports.check ⟨part, index, item + 1⟩
      (.dangling part reference.1 reference.2 (tables.count reference.1))
      (tables.count reference.1 ≤ reference.2)
    rw [referenceFaults, ← ite_not]
    simpa using single
  · rintro item next one other place fault later second earlier ⟨rfl, -⟩ ⟨rfl, -⟩
    simp [Place.Before, earlier]

/-- The first of the faults of a part is that of the first thing broken in it. -/
theorem partFaults_reports (part : Section) :
    Reports (fun place fault => ∃ index entry, (tables.stated part)[index]? = some entry ∧
        tables.EntryViolates part index entry place fault)
      (tables.partFaults part).head? := by
  refine Reports.indexed _ _ _
    (fun index entry _ => tables.statedFaults_reports part entry index) ?_
  rintro index next one other place fault later second earlier broken behind
  obtain ⟨item, rfl⟩ := broken.place_eq
  obtain ⟨other, rfl⟩ := behind.place_eq
  exact .inr ⟨rfl, .inl earlier⟩

/-- Every entry is seen before a symbol for the end of input is missed. -/
theorem before_unended {part : Section} {index : Nat} {entry : Stated}
    (listed : (tables.stated part)[index]? = some entry) (item : Nat) :
    Place.Before ⟨part, index, item⟩ ⟨.header, 1, 0⟩ := by
  cases part with
  | header =>
    have inside := (List.getElem?_eq_some_iff.mp listed).1
    exact .inr ⟨rfl, .inl inside⟩
  | _ => exact .inl (Nat.lt_of_lt_of_le (by simp [Section.rank]) (Nat.le_refl 5))

/-- The first of all faults is that of the first violation. -/
theorem faults_reports : Reports tables.Violates tables.faults.head? := by
  have parts := Reports.flatMap Section.all _ _
    (fun part _ => tables.partFaults_reports part) ?_
  · have missing := Reports.check ⟨.header, 1, 0⟩ .missingEndSymbol
      (∀ symbol ∈ tables.symbols, symbol.kind ≠ .endOfInput)
    rw [faults_eq]
    refine (parts.append missing ?_).congr fun place fault => ?_
    · rintro place fault later other ⟨part, -, index, entry, listed, broken⟩ ⟨rfl, -⟩
      obtain ⟨item, rfl⟩ := broken.place_eq
      exact tables.before_unended listed item
    · constructor
      · rintro (⟨part, -, index, entry, listed, broken⟩ | ⟨rfl, rfl, unmarked⟩)
        · exact .entry part index entry listed place fault broken
        · exact .unended unmarked
      · rintro (⟨part, index, entry, listed, _, _, broken⟩ | ⟨unmarked⟩)
        · exact .inl ⟨part, part.mem_all, index, entry, listed, broken⟩
        · exact .inr ⟨rfl, rfl, unmarked⟩
  · have ranked : Section.all.Pairwise fun one other => one.rank < other.rank := by decide
    refine ranked.imp ?_
    rintro one other below place fault later second ⟨index, entry, -, broken⟩
      ⟨next, following, -, behind⟩
    obtain ⟨item, rfl⟩ := broken.place_eq
    obtain ⟨after, rfl⟩ := behind.place_eq
    exact .inl below

variable {tables}

/-- At each place there is one fault. -/
theorem Violates.unique {place : Place} {fault other : GrammarError}
    (broken : tables.Violates place fault) (again : tables.Violates place other) :
    fault = other := by
  cases broken with
  | entry part index entry listed place fault broken =>
    cases again with
    | entry other next following found place second again =>
      cases broken with
      | misnumbered wrong =>
        cases again with
        | misnumbered different =>
          obtain rfl := Option.some.inj (listed.symm.trans found)
          rfl
      | dangling item referent id refers beyond =>
        cases again with
        | dangling _ _ _ same _ =>
          obtain rfl := Option.some.inj (listed.symm.trans found)
          obtain ⟨rfl, rfl⟩ := Prod.mk.inj (Option.some.inj (refers.symm.trans same))
          rfl
    | unended unmarked =>
      obtain ⟨item, same⟩ := broken.place_eq
      obtain ⟨rfl, rfl, rfl⟩ := Place.mk.inj same
      simp [stated] at listed
  | unended unmarked =>
    generalize same : (⟨.header, 1, 0⟩ : Place) = place at again
    cases again with
    | entry part index entry listed place second broken =>
      obtain ⟨item, own⟩ := broken.place_eq
      obtain ⟨rfl, rfl, rfl⟩ := Place.mk.inj (same.trans own)
      simp [stated] at listed
    | unended => rfl

/-- The first of all faults is that of the first violation, and that of no other. -/
theorem head?_faults_eq_some {fault : GrammarError} :
    tables.faults.head? = some fault ↔
      ∃ place, tables.Violates place fault ∧
        ∀ earlier other, tables.Violates earlier other → ¬ earlier.Before place := by
  have reports := tables.faults_reports
  constructor
  · intro reported
    rwa [reported] at reports
  · rintro ⟨place, broken, first⟩
    cases reported : tables.faults.head? with
    | none =>
      rw [reported] at reports
      exact absurd broken (reports place fault)
    | some other =>
      rw [reported] at reports
      obtain ⟨own, again, least⟩ := reports
      obtain rfl := Place.eq_of_not_before (least place fault broken) (first own other again)
      rw [again.unique broken]

/-- A symbol is the first of its kind in the tables. -/
def FirstOfKind (tables : Tables) (kind : SymbolKind) (symbol : Symbol) : Prop :=
  symbol.kind = kind ∧ ∃ index : Nat, tables.symbols[index]? = some symbol ∧
    ∀ (earlier : Nat) (other : Symbol), earlier < index →
      tables.symbols[earlier]? = some other → other.kind ≠ kind

/-- What is found by its kind is the first of that kind. -/
theorem firstOfKind_of_find? {kind : SymbolKind} {symbol : Symbol}
    (found : tables.symbols.find? (fun symbol => symbol.kind = kind) = some symbol) :
    tables.FirstOfKind kind symbol := by
  obtain ⟨own, index, inside, placed, before⟩ := Array.find?_eq_some_iff_getElem.mp found
  refine ⟨by simpa using own, index, ?_, ?_⟩
  · rw [Array.getElem?_eq_getElem inside, placed]
  · intro earlier other below listed same
    obtain ⟨within, rfl⟩ := Array.getElem?_eq_some_iff.mp listed
    have differs := before earlier below
    simp [same] at differs

/-- What serves as the symbol for text that is no token is the first of its kind, or there is
none of that kind and it is unlisted. -/
theorem lexicalErrorSymbol?_cases :
    tables.FirstOfKind .error (tables.lexicalErrorSymbol?.getD Grammar.unlistedError) ∨
      (∀ symbol ∈ tables.symbols, symbol.kind ≠ .error) ∧
        tables.lexicalErrorSymbol?.getD Grammar.unlistedError = Grammar.unlistedError := by
  cases found : tables.lexicalErrorSymbol? with
  | some symbol => exact .inl (firstOfKind_of_find? found)
  | none =>
    refine .inr ⟨fun symbol listed same => ?_, rfl⟩
    have differs := Array.find?_eq_none.mp found symbol listed
    simp [same] at differs

end Tables

namespace Grammar

/-- Tables are refused with the first of their faults. -/
theorem ofTables_eq_error {tables : Tables} {fault : GrammarError} :
    ofTables tables = .error fault ↔ tables.faults.head? = some fault := by
  unfold ofTables
  cases faults : tables.faults with
  | cons first rest => simp
  | nil =>
    obtain ⟨symbol, marked⟩ := Option.isSome_iff_exists.mp (tables.faults_eq_nil.mp faults).2
    simp [marked]

end Grammar

/-- Validation is exact. Tables make a grammar exactly if every entry is numbered by its position,
every reference leads to an entry, and some symbol marks the end of input. The grammar has the
tables as they are and the first symbols of the two kinds it needs to know, with one of its own
where the tables have none for text that is no token. Tables that make no grammar are refused
with the fault of the first place where something is broken, and with no other. -/
theorem validation_is_exact (tables : Tables) :
    ((∃ grammar, Grammar.ofTables tables = .ok grammar) ↔
      tables.WellFormed ∧ ∃ symbol ∈ tables.symbols, symbol.kind = .endOfInput) ∧
    (∀ grammar, Grammar.ofTables tables = .ok grammar →
      grammar.tables = tables ∧ tables.FirstOfKind .endOfInput grammar.endSymbol ∧
      (tables.FirstOfKind .error grammar.lexicalError ∨
        (∀ symbol ∈ tables.symbols, symbol.kind ≠ .error) ∧
          grammar.lexicalError = ⟨65535, .error, "Error"⟩)) ∧
    ∀ fault, Grammar.ofTables tables = .error fault ↔
      ∃ place, tables.Violates place fault ∧
        ∀ earlier other, tables.Violates earlier other → ¬ earlier.Before place := by
  refine ⟨?_, ?_, ?_⟩
  · rw [← tables.endSymbol?_isSome, ← tables.faults_eq_nil]
    constructor
    · rintro ⟨grammar, accepted⟩
      exact (Grammar.ofTables_eq_ok.mp accepted).1
    · intro faultless
      obtain ⟨-, found⟩ := tables.faults_eq_nil.mp faultless
      obtain ⟨symbol, marked⟩ := Option.isSome_iff_exists.mp found
      exact ⟨⟨tables, symbol, tables.lexicalErrorSymbol?.getD Grammar.unlistedError⟩,
        Grammar.ofTables_eq_ok.mpr ⟨faultless, rfl, marked, rfl⟩⟩
  · intro grammar accepted
    obtain ⟨-, same, marked, own⟩ := Grammar.ofTables_eq_ok.mp accepted
    refine ⟨same, Tables.firstOfKind_of_find? marked, ?_⟩
    rw [own]
    exact Tables.lexicalErrorSymbol?_cases
  · intro fault
    rw [Grammar.ofTables_eq_error, Tables.head?_faults_eq_some]

/-- The tables of sums with one more lexical state, whose edge leads nowhere, and with a start
symbol that does not exist. -/
def Sums.strayTables : Tables :=
  { tables with
    dfaStates := tables.dfaStates.push ⟨7, none, [⟨5, 8⟩]⟩
    startSymbol := 11 }

open Sums in
/-- The tables of sums make a grammar. With a stray edge and a stray start symbol they are
refused for the edge, and not for the start symbol, which is just as wrong. -/
theorem validation_reports_edge_before_start :
    Grammar.ofTables tables = .ok grammar ∧
      tables.FirstOfKind .endOfInput ⟨Symbols.endOfInput, .endOfInput, "EOF"⟩ ∧
      Grammar.ofTables strayTables = .error (.dangling .dfaStates .dfaState 8 8) ∧
      strayTables.Violates ⟨.header, 0, 1⟩ (.dangling .header .symbol 11 11) ∧
      ∃ place, strayTables.Violates place (.dangling .dfaStates .dfaState 8 8) ∧
        ¬ Place.Before ⟨.header, 0, 1⟩ place := by
  obtain ⟨-, keeps, -⟩ := validation_is_exact tables
  obtain ⟨-, -, refuses⟩ := validation_is_exact strayTables
  obtain ⟨-, marked, -⟩ := keeps grammar ofTables_tables
  have refused : Grammar.ofTables strayTables = .error (.dangling .dfaStates .dfaState 8 8) := rfl
  have start : strayTables.Violates ⟨.header, 0, 1⟩ (.dangling .header .symbol 11 11) :=
    .entry .header 0 _ rfl _ _ (.dangling 0 .symbol 11 rfl (by decide))
  obtain ⟨place, broken, first⟩ := (refuses _).mp refused
  exact ⟨ofTables_tables, marked, refused, start, place, broken, first _ _ start⟩

end TableDriven
