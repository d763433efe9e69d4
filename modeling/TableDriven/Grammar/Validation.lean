import TableDriven.Grammar.Tables

/-!
# Validation of tables

Tables describe a grammar if every entry stands at the position it is numbered
by, every reference is below the size of the table it leads to, and some symbol
marks the end of input. All faults are listed in a fixed order, table by table
and entry by entry, an entry's position before its references; the first of them
is the one reported.
-/

namespace TableDriven

/-- The parts of the tables, as faults name them. -/
inductive Section where
  | symbols
  | charSets
  | dfaStates
  | lalrStates
  | rules
  | header
deriving DecidableEq, Repr

/-- The word for a part of the tables. -/
def Section.title : Section → String
  | .symbols => "symbol"
  | .charSets => "char-set"
  | .dfaStates => "DFA"
  | .lalrStates => "LALR"
  | .rules => "rule"
  | .header => "grammar"

/-- The word for what a reference leads to. -/
def Referent.title : Referent → String
  | .symbol => "symbol"
  | .charSet => "char-set"
  | .dfaState => "DFA state"
  | .lalrState => "LALR state"
  | .rule => "rule"

/-- Why tables describe no grammar. -/
inductive GrammarError where
  /-- A reference to entry `id` of a table with `count` entries. -/
  | dangling (part : Section) (referent : Referent) (id count : Nat)
  /-- The entry at `index` is numbered `id`. -/
  | misnumbered (part : Section) (id index : Nat)
  /-- No symbol marks the end of input. -/
  | missingEndSymbol
deriving DecidableEq, Repr

/-- The text of a fault. -/
def GrammarError.message : GrammarError → String
  | .dangling part referent id count =>
    s!"{part.title} table references {referent.title} {id}, but only {count} exist"
  | .misnumbered part id index =>
    s!"{part.title} table entry at index {index} carries id {id}"
  | .missingEndSymbol => "symbol table has no end-of-stream symbol"

namespace Tables

/-- The fault of an entry at `index` that is numbered `id`, if there is one. -/
def positionFaults (part : Section) (id index : Nat) : List GrammarError :=
  if id = index then [] else [.misnumbered part id index]

/-- The fault of a reference, if there is one. -/
def referenceFaults (tables : Tables) (part : Section) (referent : Referent) (id : Nat) :
    List GrammarError :=
  if id < tables.count referent then []
  else [.dangling part referent id (tables.count referent)]

/-- The faults of one lexical state. -/
def dfaStateFaults (tables : Tables) (state : DfaState) (index : Nat) : List GrammarError :=
  positionFaults .dfaStates state.id index
    ++ state.accept.toList.flatMap (tables.referenceFaults .dfaStates .symbol)
    ++ state.edges.flatMap fun edge =>
      tables.referenceFaults .dfaStates .charSet edge.charSet
        ++ tables.referenceFaults .dfaStates .dfaState edge.target

/-- The faults of what an action refers to. -/
def actionFaults (tables : Tables) : Action → List GrammarError
  | .shift target => tables.referenceFaults .lalrStates .lalrState target
  | .goto target => tables.referenceFaults .lalrStates .lalrState target
  | .reduce rule => tables.referenceFaults .lalrStates .rule rule
  | .accept => []
  | .error => []

/-- The faults of one parsing state. -/
def lalrStateFaults (tables : Tables) (state : LalrState) (index : Nat) : List GrammarError :=
  positionFaults .lalrStates state.id index
    ++ state.actions.flatMap fun entry =>
      tables.referenceFaults .lalrStates .symbol entry.symbol ++ tables.actionFaults entry.action

/-- The faults of one rule. -/
def ruleFaults (tables : Tables) (rule : Rule) (index : Nat) : List GrammarError :=
  positionFaults .rules rule.id index
    ++ (rule.head :: rule.body).flatMap (tables.referenceFaults .rules .symbol)

/-- The faults of the entry points. -/
def headerFaults (tables : Tables) : List GrammarError :=
  tables.referenceFaults .header .symbol tables.startSymbol
    ++ tables.referenceFaults .header .dfaState tables.dfaInitial
    ++ tables.referenceFaults .header .lalrState tables.lalrInitial

/-- The first symbol that marks the end of input. -/
def endSymbol? (tables : Tables) : Option Symbol :=
  tables.symbols.find? fun symbol => symbol.kind = .endOfInput

/-- The first symbol that marks text which is no token. -/
def lexicalErrorSymbol? (tables : Tables) : Option Symbol :=
  tables.symbols.find? fun symbol => symbol.kind = .error

/-- Every entry of a table with its position. -/
def indexed {α : Type} (table : Array α) : List (α × Nat) := table.toList.zipIdx

/-- All faults, in the order in which they are reported. -/
def faults (tables : Tables) : List GrammarError :=
  (indexed tables.symbols).flatMap (fun (symbol, index) =>
      positionFaults .symbols symbol.id index)
    ++ (indexed tables.charSets).flatMap (fun (set, index) =>
      positionFaults .charSets set.id index)
    ++ (indexed tables.dfaStates).flatMap (fun (state, index) =>
      tables.dfaStateFaults state index)
    ++ (indexed tables.lalrStates).flatMap (fun (state, index) =>
      tables.lalrStateFaults state index)
    ++ (indexed tables.rules).flatMap (fun (rule, index) => tables.ruleFaults rule index)
    ++ tables.headerFaults
    ++ (if tables.endSymbol?.isSome then [] else [.missingEndSymbol])

end Tables

end TableDriven
