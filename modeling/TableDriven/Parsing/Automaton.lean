import TableDriven.Lexing.Scan
import TableDriven.Parsing.Stack

/-!
# The parsing automaton

The automaton is offered one token at a time. It shifts the token, or changes
the top of its stack and asks for the token again, or accepts, or rejects. A
reduction replaces the entries of a rule's body by one entry for its head, with
a branch above their trees. With trimming, a rule whose body is a single
nonterminal adds no branch and the tree below is taken over.

With an error terminal, a token that has no action is first turned into that
terminal. If the terminal has no action either, entries are taken off until a
state is exposed that has one.
-/

namespace TableDriven

/-- Totals over the steps of the automaton. -/
structure StepTally where
  shifts : Nat
  reductions : Nat
  trims : Nat
  recoveries : Nat
deriving DecidableEq, Repr

/-- No step was taken. -/
def StepTally.zero : StepTally := ⟨0, 0, 0, 0⟩

/-- What does not change during a parse. -/
structure Automaton where
  grammar : Grammar
  errorSymbol : Option SymbolId
  trim : Bool

/-- What does. -/
structure Machine where
  state : LalrStateId
  stack : Stack
  tally : StepTally

/-- How the automaton answers to a token. -/
inductive Signal where
  /-- The token was pushed by a shift. -/
  | shift
  /-- The stack or the token was changed; the token is to be offered again. -/
  | reduce
  /-- The token was pushed by a transition meant for heads of rules. -/
  | goto
  /-- The stack holds the tree of the whole input. -/
  | accept
  /-- There is no action and no way to recover. -/
  | reject
deriving DecidableEq, Repr

/-- The machine after a step, the token as it now stands, and the answer. -/
structure Advance where
  machine : Machine
  token : Token
  result : Except Halt Signal

/-- The leaf of a token. -/
def Token.leaf (token : Token) : Node :=
  Node.leaf token.symbol.id token.symbol.name token.line token.text

namespace Machine

/-- Push a token with its tree and move to a state. -/
def enter (machine : Machine) (target : LalrStateId) (token : Token) (node : Node) : Machine :=
  { machine with
    state := target
    stack := machine.stack.push machine.state token (some node) }

/-- The tree of the input once it has been accepted: the only entry above the
lowest one carries it. -/
def root (machine : Machine) : Except Defect Node :=
  match machine.stack with
  | [entry, _] =>
    match entry.node with
    | some node => .ok node
    | none => .error .missingRoot
  | _ => .error .acceptDepth

end Machine

namespace Automaton

/-- The trees of a handle, all of which must be there. -/
def handleNodes (rule : RuleId) : List Entry → Except TableFault (List Node)
  | [] => .ok []
  | entry :: rest =>
    match entry.node with
    | none => .error (.missingNode rule entry.token.symbol.name)
    | some node => (handleNodes rule rest).map fun nodes => node :: nodes

/-- Whether applications of a rule are left out of the tree. -/
def trims (automaton : Automaton) (rule : Rule) : Except Defect Bool :=
  match automaton.trim, rule.body with
  | true, [only] =>
    (automaton.grammar.symbol only).map fun symbol => decide (symbol.kind = .nonterminal)
  | _, _ => .ok false

/-- The branch of a rule with an empty body. Its only child is a marker that
shows before which token the rule was applied. -/
def emptyBranch (rule : RuleId) (head : Symbol) (lookahead : Token) : Node :=
  Node.branch rule head.name lookahead.line
    [Node.leaf 0 lookahead.symbol.name lookahead.line lookahead.text]

/-- The tree that stands for the head of a rule above the trees of its body, and
how many branches were saved. -/
def assemble (rule : RuleId) (head : Symbol) (lookahead : Token) (trimmed : Bool)
    (children : List Node) : Node × Nat :=
  match trimmed, children with
  | true, [child] => (child, 1)
  | _, _ =>
    let line := (children.head?.map fun child => child.label.line).getD lookahead.line
    (Node.branch rule head.name line children, 0)

/-- Take the body of a rule off the stack and put its tree together. The machine
is left in the state below the body. -/
def takeBody (machine : Machine) (id : RuleId) (rule : Rule) (head : Symbol) (lookahead : Token)
    (trimmed : Bool) : Except TableFault (Node × Machine) :=
  let tally := machine.tally
  match rule.body.length with
  | 0 =>
    .ok (emptyBranch id head lookahead,
      { machine with tally := { tally with reductions := tally.reductions + 1 } })
  | length + 1 =>
    match machine.stack.takeHandle? (length + 1) with
    | none => .error (.shortStack id (length + 1) (machine.stack.length - 1))
    | some (handle, rest) =>
      match handleNodes id handle with
      | .error fault => .error fault
      | .ok children =>
        let (node, saved) := assemble id head lookahead trimmed children
        let state := (handle.head?.map Entry.origin).getD machine.state
        let tally := { tally with
          trims := tally.trims + saved
          reductions := tally.reductions + 1 }
        .ok (node, ⟨state, rest, tally⟩)

/-- The token of a rule's head. It has no text and starts where its tree does. -/
def headToken (head : Symbol) (node : Node) : Token := ⟨head, node.label.line, ""⟩

/-- Push the head of a rule along the transition out of the exposed state. -/
def follow (automaton : Automaton) (machine : Machine) (head : Symbol) (node : Node) :
    Machine × Except Halt Unit :=
  match automaton.grammar.actionOn machine.state head.id with
  | .error defect => (machine, .error (.defect defect))
  | .ok (some (.goto target)) => (machine.enter target (headToken head node) node, .ok ())
  | .ok (some (.shift target)) => (machine.enter target (headToken head node) node, .ok ())
  | .ok found =>
    (machine, .error (.error (.malformedTable (.missingGoto machine.state found head.name))))

/-- A rule, its head, and whether its application is left out of the tree. -/
def plan (automaton : Automaton) (id : RuleId) : Except Defect (Rule × Symbol × Bool) :=
  match automaton.grammar.rule id with
  | .error defect => .error defect
  | .ok rule =>
    match automaton.grammar.symbol rule.head with
    | .error defect => .error defect
    | .ok head => (automaton.trims rule).map fun trimmed => (rule, head, trimmed)

/-- Reduce by a rule. -/
def reduce (automaton : Automaton) (machine : Machine) (id : RuleId) (lookahead : Token) :
    Machine × Except Halt Unit :=
  match automaton.plan id with
  | .error defect => (machine, .error (.defect defect))
  | .ok (rule, head, trimmed) =>
    match takeBody machine id rule head lookahead trimmed with
    | .error fault => (machine, .error (.error (.malformedTable fault)))
    | .ok (node, machine) => automaton.follow machine head node

/-- Turn a token into the error terminal. -/
def substitute (automaton : Automaton) (machine : Machine) (error : SymbolId) (token : Token) :
    Advance :=
  match automaton.grammar.errorTerminal error with
  | .error defect => ⟨machine, token, .error (.defect defect)⟩
  | .ok symbol =>
    let tally := machine.tally
    ⟨{ machine with tally := { tally with recoveries := tally.recoveries + 1 } },
      ⟨symbol, token.line, "error"⟩, .ok .reduce⟩

/-- Take entries off until a state is exposed that has an action for the error
terminal. The lowest entry stays. -/
def unwind (grammar : Grammar) (error : SymbolId) (state : LalrStateId) :
    Stack → LalrStateId × Stack × Except Defect Bool
  | [] => (state, [], .ok false)
  | [lowest] => (state, [lowest], .ok false)
  | entry :: below :: rest =>
    match grammar.actionOn entry.origin error with
    | .error defect => (entry.origin, below :: rest, .error defect)
    | .ok (some _) => (entry.origin, below :: rest, .ok true)
    | .ok none => unwind grammar error entry.origin (below :: rest)

/-- Recover from a token without an action. -/
def recover (automaton : Automaton) (machine : Machine) (token : Token) : Advance :=
  match automaton.errorSymbol with
  | none => ⟨machine, token, .ok .reject⟩
  | some error =>
    if token.symbol.id ≠ error then automaton.substitute machine error token
    else
      let (state, stack, resumed) := unwind automaton.grammar error machine.state machine.stack
      let result : Except Halt Signal := match resumed with
        | .ok true => .ok .reduce
        | .ok false => .error (.error (.unrecoverable token.line))
        | .error defect => .error (.defect defect)
      ⟨{ machine with state, stack }, token, result⟩

/-- Offer a token. -/
def step (automaton : Automaton) (machine : Machine) (token : Token) : Advance :=
  match automaton.grammar.actionOn machine.state token.symbol.id with
  | .error defect => ⟨machine, token, .error (.defect defect)⟩
  | .ok none => automaton.recover machine token
  | .ok (some (.shift target)) =>
    let entered := machine.enter target token token.leaf
    let tally := entered.tally
    ⟨{ entered with tally := { tally with shifts := tally.shifts + 1 } }, token, .ok .shift⟩
  | .ok (some (.goto target)) => ⟨machine.enter target token token.leaf, token, .ok .goto⟩
  | .ok (some (.reduce rule)) =>
    let (machine, result) := automaton.reduce machine rule token
    ⟨machine, token, result.map fun () => .reduce⟩
  | .ok (some .accept) => ⟨machine, token, .ok .accept⟩
  | .ok (some .error) => ⟨machine, token, .error (.defect .errorEntry)⟩

/-- The names of the symbols that a state has an action for, apart from those
that only reductions push. -/
def expected (automaton : Automaton) (state : LalrStateId) : Except Defect (List String) :=
  match automaton.grammar.lalrState state with
  | .error defect => .error defect
  | .ok found =>
    let offered := found.actions.filter fun entry =>
      match entry.action with
      | .goto _ => false
      | .error => false
      | _ => true
    offered.mapM fun entry => (automaton.grammar.symbol entry.symbol).map Symbol.name

/-- Why a rejected token ends the parse. -/
def rejection (automaton : Automaton) (state : LalrStateId) (token : Token) : Halt :=
  match automaton.expected state with
  | .error defect => .defect defect
  | .ok names => .error (.unexpected token.line token.symbol.name names)

end Automaton

end TableDriven
