import TableDriven.Proofs.Parsing.Safety
import TableDriven.Proofs.Tree.Collapse

/-!
# Trimming collapses the full tree

A trimming parse and a full one do the same steps. At any time the stack of the
one is the stack of the other with its trees collapsed: a reduction by a unit
takes over the tree below, and that is what collapsing does to the branch that
the full parse puts above it. The line of a head is that of its tree, so it must
also be seen that the trees on the stack keep their lines when they collapse.
Nothing else of a step depends on the trees.
-/

namespace TableDriven

/-- An entry with its tree collapsed. -/
def Entry.collapse (grammar : Grammar) (entry : Entry) : Entry :=
  { entry with node := entry.node.map (Node.collapse grammar) }

/-- A machine with the trees on its stack collapsed, and a number of trims. -/
def Machine.collapse (grammar : Grammar) (trims : Nat) (machine : Machine) : Machine :=
  { state := machine.state
    stack := machine.stack.map (Entry.collapse grammar)
    tally := { machine.tally with trims } }

/-- Pushing a collapsed tree is collapsing after the push. -/
theorem Machine.enter_collapse {grammar : Grammar} {trims : Nat} (machine : Machine)
    (target : LalrStateId) (token : Token) (node : Node) :
    (machine.enter target token node).collapse grammar trims =
      (machine.collapse grammar trims).enter target token (node.collapse grammar) := rfl

/-- The leaf of a token stays as it is. -/
theorem Token.collapse_leaf (grammar : Grammar) (token : Token) :
    token.leaf.collapse grammar = token.leaf :=
  Node.collapse_leaf token.symbol.id token.symbol.name token.line token.text

/-- Collapsing a tree does not change its line. -/
def Node.KeepsLine (grammar : Grammar) (node : Node) : Prop :=
  (node.collapse grammar).label.line = node.label.line

/-- Collapsing the trees of some entries does not change their lines. -/
def Stack.KeepsLines (grammar : Grammar) (stack : Stack) : Prop :=
  ∀ entry ∈ stack, ∀ node ∈ entry.node, node.KeepsLine grammar

/-- The branch of a rule keeps its line if the first of its children, from which
it has it, keeps its own. -/
theorem Node.keepsLine_branch {grammar : Grammar} {first : Node} (id : RuleId) (name : String)
    (rest : List Node) (kept : first.KeepsLine grammar) :
    (Node.branch id name first.label.line (first :: rest)).KeepsLine grammar := by
  cases unit : grammar.isUnit id with
  | false => rw [KeepsLine, collapse_branch unit]; rfl
  | true =>
    cases rest with
    | nil => rw [KeepsLine, collapse_unit unit]; exact kept
    | cons second others => simp [KeepsLine, branch, collapse, collapseAll]

namespace Stack

variable {grammar : Grammar} {stack : Stack}

/-- A handle of changed entries is a changed handle. -/
theorem takeHandle?_map (change : Entry → Entry) (stack : Stack) (count : Nat) :
    takeHandle? (stack.map change) count =
      (stack.takeHandle? count).map fun (handle, rest) => (handle.map change, rest.map change) := by
  unfold takeHandle?
  rw [← List.map_drop, ← List.map_take]
  cases stack.drop count <;> simp

/-- An entry whose tree keeps its line can be pushed. -/
theorem KeepsLines.push (kept : KeepsLines grammar stack) (state : LalrStateId) (token : Token)
    {node : Node} (own : node.KeepsLine grammar) :
    KeepsLines grammar (stack.push state token (some node)) := by
  intro entry member
  rcases List.mem_cons.mp member with rfl | below
  · intro other same
    obtain rfl : node = other := by simpa using same
    exact own
  · exact kept entry below

/-- The trees of a handle on top keep their lines. -/
theorem KeepsLines.of_handle {handle rest : List Entry} {children : List Node}
    (kept : KeepsLines grammar stack) (stacked : stack = handle.reverse ++ rest)
    (carried : handle.map Entry.node = children.map some) :
    ∀ child ∈ children, child.KeepsLine grammar := by
  intro child member
  have among : some child ∈ handle.map Entry.node := by
    rw [carried]
    exact List.mem_map_of_mem member
  obtain ⟨entry, inside, own⟩ := List.mem_map.mp among
  refine kept entry ?_ child own
  rw [stacked]
  exact List.mem_append_left rest (List.mem_reverse.mpr inside)

/-- Recovery takes entries off and leaves the others as they are. -/
theorem KeepsLines.unwind {error : SymbolId} {state resumed : LalrStateId} {rest : Stack}
    {found : Bool} (kept : KeepsLines grammar stack)
    (unwound : Automaton.unwind grammar error state stack = (resumed, rest, .ok found)) :
    KeepsLines grammar rest := by
  rcases Automaton.unwind_split unwound with ⟨-, rfl⟩ | ⟨above, entry, split, -, -⟩
  · exact kept
  · intro other member
    refine kept other ?_
    rw [split]
    exact List.mem_append_right above (List.mem_cons_of_mem entry member)

end Stack

namespace Automaton

variable {grammar : Grammar} {machine : Machine} {id : RuleId} {rule : Rule} {head : Symbol}
  {lookahead : Token}

/-- The trees of a collapsed handle are the collapsed trees of the handle. -/
theorem handleNodes_collapse (grammar : Grammar) (id : RuleId) (handle : List Entry) :
    handleNodes id (handle.map (Entry.collapse grammar)) =
      (handleNodes id handle).map (List.map (Node.collapse grammar)) := by
  induction handle with
  | nil => rfl
  | cons entry rest inductionHypothesis =>
    rw [List.map_cons, handleNodes, handleNodes, inductionHypothesis]
    cases carried : entry.node with
    | none => simp [Entry.collapse, carried, Except.map]
    | some node =>
      cases nodes : handleNodes id rest <;> simp [Entry.collapse, carried, Except.map]

/-- The tree that a trimming parse puts together from collapsed trees is the
collapsed tree of the full parse. For a unit both have the tree below; for any
other rule the line of the branch is taken from a child that keeps its own. -/
theorem assemble_collapse {children : List Node} (looked : grammar.rule id = .ok rule)
    (fits : children.length = rule.body.length)
    (kept : ∀ child ∈ children, child.KeepsLine grammar) (head : Symbol) (lookahead : Token) :
    (assemble id head lookahead (grammar.isUnit id) (children.map (Node.collapse grammar))).1 =
      (assemble id head lookahead false children).1.collapse grammar := by
  cases unit : grammar.isUnit id with
  | true =>
    have single : rule.body.length = 1 := by
      unfold Grammar.isUnit at unit
      rw [looked] at unit
      dsimp only at unit
      split at unit
      · rename_i only alone
        rw [alone]
        rfl
      · contradiction
    obtain ⟨child, rfl⟩ := List.length_eq_one_iff.mp (fits.trans single)
    exact (Node.collapse_unit unit head.name _ child).symm
  | false =>
    unfold assemble
    dsimp only
    rw [Node.collapse_branch unit]
    cases children with
    | nil => rfl
    | cons first others =>
      have line : (first.collapse grammar).label.line = first.label.line :=
        kept first List.mem_cons_self
      simp [line]

/-- Taking the body of a rule off a collapsed stack leaves a collapsed tree and a
collapsed machine, or fails as it does on the stack itself. -/
theorem takeBody_collapse (looked : grammar.rule id = .ok rule)
    (kept : machine.stack.KeepsLines grammar) (head : Symbol) (lookahead : Token) (trims : Nat) :
    ∃ saved, takeBody (machine.collapse grammar trims) id rule head lookahead (grammar.isUnit id) =
      (takeBody machine id rule head lookahead false).map fun (node, below) =>
        (node.collapse grammar, below.collapse grammar saved) := by
  unfold takeBody
  cases long : rule.body.length with
  | zero =>
    have bodiless : rule.body = [] := List.length_eq_zero_iff.mp long
    have kept : grammar.isUnit id = false := by simp [Grammar.isUnit, looked, bodiless]
    exact ⟨trims, by
      simp [Except.map, emptyBranch, Node.collapse_branch kept, Node.collapse_leaf,
        Machine.collapse]⟩
  | succ length =>
    have moved : (machine.collapse grammar trims).stack.takeHandle? (length + 1) =
        (machine.stack.takeHandle? (length + 1)).map fun (handle, rest) =>
          (handle.map (Entry.collapse grammar), rest.map (Entry.collapse grammar)) :=
      Stack.takeHandle?_map (Entry.collapse grammar) machine.stack (length + 1)
    simp only [moved]
    cases found : machine.stack.takeHandle? (length + 1) with
    | none => exact ⟨trims, by simp [Except.map, Machine.collapse]⟩
    | some pair =>
      obtain ⟨handle, rest⟩ := pair
      obtain ⟨stacked, counted, -⟩ := Stack.takeHandle?_eq_some.mp found
      simp only [Option.map_some, handleNodes_collapse]
      cases nodes : handleNodes id handle with
      | error fault => exact ⟨trims, rfl⟩
      | ok children =>
        have carried := handleNodes_eq_ok.mp nodes
        have fits : children.length = rule.body.length := by
          have lengths := congrArg List.length carried
          rw [List.length_map, List.length_map] at lengths
          omega
        have keep : ∀ child ∈ children, child.KeepsLine grammar :=
          kept.of_handle stacked carried
        have same := assemble_collapse looked fits keep head lookahead
        have origins : ((handle.map (Entry.collapse grammar)).head?.map Entry.origin) =
            handle.head?.map Entry.origin := by
          cases handle <;> rfl
        refine ⟨trims + (assemble id head lookahead (grammar.isUnit id)
          (children.map (Node.collapse grammar))).2, ?_⟩
        simp only [Except.map, same, origins]
        rfl

/-- A body that is taken off leaves trees that keep their lines, and its own tree is
one of them. -/
theorem BodyTaken.keepsLines {node : Node} {below : Machine}
    (kept : machine.stack.KeepsLines grammar)
    (taken : BodyTaken machine id rule head lookahead false node below) :
    node.KeepsLine grammar ∧ below.stack.KeepsLines grammar := by
  cases taken with
  | empty bodiless =>
    have leaf : (Node.leaf 0 lookahead.symbol.name lookahead.line lookahead.text).KeepsLine
        grammar := by
      rw [Node.KeepsLine, Node.collapse_leaf]
    exact ⟨Node.keepsLine_branch id head.name [] leaf, kept⟩
  | handle first others rest children stacked fits left carried =>
    constructor
    · cases children with
      | nil => simp at carried
      | cons child siblings =>
        have own := kept.of_handle stacked carried child List.mem_cons_self
        exact Node.keepsLine_branch id head.name siblings own
    · intro entry member
      refine kept entry ?_
      rw [stacked]
      exact List.mem_append_right _ member

/-- The head of a rule is pushed with the collapsed tree as it is with the tree. -/
theorem follow_collapse (automaton : Automaton) {node : Node}
    (kept : node.KeepsLine automaton.grammar) (machine : Machine) (head : Symbol) (trims : Nat) :
    automaton.follow (machine.collapse automaton.grammar trims) head
        (node.collapse automaton.grammar) =
      ((automaton.follow machine head node).1.collapse automaton.grammar trims,
        (automaton.follow machine head node).2) := by
  have token : headToken head (node.collapse automaton.grammar) = headToken head node := by
    rw [headToken, kept]
    rfl
  unfold follow
  rw [show (machine.collapse automaton.grammar trims).state = machine.state from rfl, token]
  rcases automaton.grammar.actionOn machine.state head.id with
    defect | _ | (_ | _ | _ | _ | _) <;> rfl

/-- Recovery takes the same entries off a collapsed stack. -/
theorem unwind_collapse (grammar : Grammar) (error : SymbolId) (state : LalrStateId)
    (stack : Stack) :
    unwind grammar error state (stack.map (Entry.collapse grammar)) =
      ((unwind grammar error state stack).1,
        (unwind grammar error state stack).2.1.map (Entry.collapse grammar),
        (unwind grammar error state stack).2.2) := by
  induction stack generalizing state with
  | nil => rfl
  | cons entry below inductionHypothesis =>
    cases below with
    | nil => rfl
    | cons next others =>
      have origin : (entry.collapse grammar).origin = entry.origin := rfl
      rw [List.map_cons, List.map_cons, unwind, unwind, origin]
      cases grammar.actionOn entry.origin error with
      | error defect => rfl
      | ok action =>
        cases action with
        | some action => rfl
        | none => exact inductionHypothesis entry.origin

end Automaton

namespace Parser

variable {parser : Parser} {machine : Machine}

/-- The rule, its head, and in a trimming parse whether it is a unit. -/
theorem plan_trimming (well : parser.grammar.tables.WellFormed) {id : RuleId} {rule : Rule}
    {head : Symbol} (looked : parser.grammar.rule id = .ok rule)
    (named : parser.grammar.symbol rule.head = .ok head) :
    (parser.automaton true).plan id = .ok (rule, head, parser.grammar.isUnit id) := by
  refine Automaton.plan_eq_ok.mpr ⟨looked, named, ?_⟩
  unfold Automaton.trims Grammar.isUnit
  rw [looked]
  dsimp only [automaton]
  split
  · rename_i only _ single
    obtain ⟨symbol, found⟩ : ∃ symbol, parser.grammar.symbol only = .ok symbol :=
      Grammar.symbol_of_rule well looked (by simp [single])
    simp [single, found, Except.map]
  · rename_i several
    split
    · rename_i only single
      exact absurd single (several only rfl)
    · rfl

/-- A trimming parse reduces a collapsed stack as the full parse reduces the stack. -/
theorem reduce_collapse (well : parser.grammar.tables.WellFormed)
    (kept : machine.stack.KeepsLines parser.grammar) (id : RuleId) (lookahead : Token)
    (trims : Nat) :
    ∃ saved, (parser.automaton true).reduce (machine.collapse parser.grammar trims) id lookahead =
      (((parser.automaton false).reduce machine id lookahead).1.collapse parser.grammar saved,
        ((parser.automaton false).reduce machine id lookahead).2) := by
  unfold Automaton.reduce
  cases looked : parser.grammar.rule id with
  | error defect =>
    have missing (trim : Bool) : (parser.automaton trim).plan id = .error defect := by
      simp [Automaton.plan, automaton, looked]
    exact ⟨trims, by rw [missing, missing]⟩
  | ok rule =>
    obtain ⟨head, named⟩ := Grammar.symbol_of_rule well looked List.mem_cons_self
    have full : (parser.automaton false).plan id = .ok (rule, head, false) :=
      Automaton.plan_eq_ok.mpr ⟨looked, named, rfl⟩
    rw [full, plan_trimming well looked named]
    obtain ⟨saved, taken⟩ := Automaton.takeBody_collapse looked kept head lookahead trims
    dsimp only
    rw [taken]
    cases body : Automaton.takeBody machine id rule head lookahead false with
    | error fault => exact ⟨trims, rfl⟩
    | ok pair =>
      obtain ⟨node, below⟩ := pair
      have own := ((Automaton.bodyTaken_of_takeBody body).keepsLines kept).1
      exact ⟨saved, Automaton.follow_collapse (parser.automaton false) own below head saved⟩

/-- Recovery does not look at the trees. -/
theorem recover_collapse (machine : Machine) (token : Token) (trims : Nat) :
    (parser.automaton true).recover (machine.collapse parser.grammar trims) token =
      { (parser.automaton false).recover machine token with
        machine := ((parser.automaton false).recover machine token).machine.collapse
          parser.grammar trims } := by
  unfold Automaton.recover
  dsimp only [automaton]
  cases parser.errorSymbol with
  | none => rfl
  | some error =>
    dsimp only
    by_cases ordinary : token.symbol.id ≠ error
    · rw [if_pos ordinary, if_pos ordinary]
      unfold Automaton.substitute
      dsimp only
      cases parser.grammar.errorTerminal error <;> rfl
    · rw [if_neg ordinary, if_neg ordinary]
      dsimp only [Machine.collapse]
      rw [Automaton.unwind_collapse]

/-- What a trimming parse makes of a step is what the full parse makes of it, with
the trees of the machine collapsed. -/
theorem step_collapse (well : parser.grammar.tables.WellFormed)
    (kept : machine.stack.KeepsLines parser.grammar) (token : Token) (trims : Nat) :
    ∃ saved, (parser.automaton true).step (machine.collapse parser.grammar trims) token =
      { (parser.automaton false).step machine token with
        machine := ((parser.automaton false).step machine token).machine.collapse
          parser.grammar saved } := by
  unfold Automaton.step
  dsimp only [automaton]
  rw [show (machine.collapse parser.grammar trims).state = machine.state from rfl]
  rcases parser.grammar.actionOn machine.state token.symbol.id with
    defect | _ | (target | target | id | _ | _)
  · exact ⟨trims, rfl⟩
  · exact ⟨trims, recover_collapse machine token trims⟩
  · refine ⟨trims, ?_⟩
    dsimp only
    rw [← token.collapse_leaf parser.grammar, ← machine.enter_collapse, token.collapse_leaf]
    rfl
  · refine ⟨trims, ?_⟩
    dsimp only
    rw [← token.collapse_leaf parser.grammar, ← machine.enter_collapse, token.collapse_leaf]
  · obtain ⟨saved, reduced⟩ := reduce_collapse well kept id token trims
    refine ⟨saved, ?_⟩
    dsimp only [automaton] at reduced ⊢
    rw [reduced]
  · exact ⟨trims, rfl⟩
  · exact ⟨trims, rfl⟩

/-- Every answered step of a full parse leaves trees that keep their lines. -/
theorem keepsLines_of_effect {after : Machine} {token next : Token} {signal : Signal}
    (effect : (parser.automaton false).Effect machine token after next signal)
    (kept : machine.stack.KeepsLines parser.grammar) :
    after.stack.KeepsLines parser.grammar := by
  have leaf : token.leaf.KeepsLine parser.grammar := by
    rw [Node.KeepsLine, token.collapse_leaf]
  cases effect with
  | shift target listed => exact kept.push machine.state token leaf
  | goto target listed => exact kept.push machine.state token leaf
  | reduce id after listed reduced =>
    obtain ⟨rule, head, trimmed, node, below, target, planned, taken, moved⟩ := reduced
    obtain ⟨-, -, verdict⟩ := Automaton.plan_eq_ok.mp planned
    obtain rfl : false = trimmed := Except.ok.inj verdict
    obtain ⟨own, rest⟩ := taken.keepsLines kept
    exact rest.push below.state (Automaton.headToken head node) own
  | substitute => exact kept
  | unwind error state stack unlisted recovers substituted unwound => exact kept.unwind unwound
  | accept => exact kept
  | reject => exact kept

end Parser

namespace Run

variable {σ : Type}

/-- A run with the trees of its machine collapsed. -/
def collapse (grammar : Grammar) (trims : Nat) (run : Run σ) : Run σ :=
  { run with machine := run.machine.collapse grammar trims }

end Run

/-- The progress of a run, its tree included, with all trees collapsed. -/
def Progress.collapse {σ : Type} (grammar : Grammar) (trims : Nat) : Progress σ → Progress σ
  | .running run => .running (run.collapse grammar trims)
  | .ended result last => .ended (result.map (Node.collapse grammar)) (last.collapse grammar trims)

/-- The root of a collapsed machine is the collapsed root. -/
theorem Machine.root_collapse (grammar : Grammar) (trims : Nat) (machine : Machine) :
    (machine.collapse grammar trims).root = machine.root.map (Node.collapse grammar) := by
  obtain ⟨state, stack, tally⟩ := machine
  unfold root collapse
  rcases stack with _ | ⟨entry, _ | ⟨lowest, _ | ⟨next, others⟩⟩⟩
  · rfl
  · rfl
  · cases carried : entry.node <;> simp [Entry.collapse, carried, Except.map]
  · rfl

namespace Run

variable {σ : Type} [Source σ] {parser : Parser} {run : Run σ}

omit [Source σ] in
/-- Offering a token to a trimming parse and to the full parse. -/
theorem offer_collapse (well : parser.grammar.tables.WellFormed)
    (kept : run.machine.stack.KeepsLines parser.grammar) (token : Token) (trims : Nat) :
    ∃ saved, (run.collapse parser.grammar trims).offer (parser.automaton true) token =
      (run.offer (parser.automaton false) token).collapse parser.grammar saved := by
  obtain ⟨saved, stepped⟩ := Parser.step_collapse well kept token trims
  refine ⟨saved, ?_⟩
  unfold offer
  rw [show (run.collapse parser.grammar trims).machine =
    run.machine.collapse parser.grammar trims from rfl, stepped]
  dsimp only
  cases (((parser.automaton false).step run.machine token)).result with
  | error halt => rfl
  | ok signal =>
    cases signal with
    | accept =>
      dsimp only [Progress.collapse]
      rw [Machine.root_collapse]
      cases ((parser.automaton false).step run.machine token).machine.root <;> rfl
    | shift => rfl
    | reduce => rfl
    | goto => rfl
    | reject => rfl

/-- A step of a trimming parse and of the full parse. -/
theorem step_collapse (well : parser.grammar.tables.WellFormed)
    (kept : run.machine.stack.KeepsLines parser.grammar) (trims : Nat) :
    ∃ saved, (run.collapse parser.grammar trims).step (parser.automaton true) =
      (run.step (parser.automaton false)).collapse parser.grammar saved := by
  unfold step
  rw [show (run.collapse parser.grammar trims).pending = run.pending from rfl,
    show (run.collapse parser.grammar trims).commentDepth = run.commentDepth from rfl]
  cases run.pending with
  | none =>
    refine ⟨trims, ?_⟩
    dsimp only [fetch]
    rw [show Scan.next (parser.automaton true).grammar (parser.automaton true).errorSymbol
        (run.collapse parser.grammar trims).scanned (run.collapse parser.grammar trims).source =
      Scan.next (parser.automaton false).grammar (parser.automaton false).errorSymbol
        run.scanned run.source from rfl]
    cases (Scan.next (parser.automaton false).grammar (parser.automaton false).errorSymbol
      run.scanned run.source).result <;> rfl
  | some token =>
    by_cases outside : run.commentDepth = 0
    · simp only [if_pos outside]
      unfold outsideComment
      cases token.symbol.kind with
      | whitespace => exact ⟨trims, rfl⟩
      | commentStart => exact ⟨trims, rfl⟩
      | commentLine => exact ⟨trims, rfl⟩
      | error => exact ⟨trims, rfl⟩
      | endOfInput => exact offer_collapse well kept token trims
      | terminal => exact offer_collapse well kept token trims
      | nonterminal => exact offer_collapse well kept token trims
      | commentEnd => exact offer_collapse well kept token trims
    · simp only [if_neg outside]
      unfold insideComment
      refine ⟨trims, ?_⟩
      cases token.symbol.kind <;> rfl

/-- A step of a full parse leaves trees that keep their lines. -/
theorem keepsLines_of_step {next : Run σ}
    (stepped : run.step (parser.automaton false) = .running next)
    (kept : run.machine.stack.KeepsLines parser.grammar) :
    next.machine.stack.KeepsLines parser.grammar :=
  invariant_of_reaches (fun machine => machine.stack.KeepsLines parser.grammar)
    (fun _ _ _ _ _ effect => Parser.keepsLines_of_effect effect) (.single stepped) kept

/-- A trimming run ends where and when the full run does, with the tree collapsed. -/
theorem finish_collapse (well : parser.grammar.tables.WellFormed) (limit : Nat)
    (kept : run.machine.stack.KeepsLines parser.grammar) (trims : Nat) :
    ∃ saved, (run.collapse parser.grammar trims).finish (parser.automaton true) limit =
      (run.finish (parser.automaton false) limit).map fun (result, last) =>
        (result.map (Node.collapse parser.grammar), last.collapse parser.grammar saved) := by
  induction limit generalizing run trims with
  | zero => exact ⟨trims, rfl⟩
  | succ limit inductionHypothesis =>
    obtain ⟨saved, same⟩ := step_collapse well kept trims
    unfold finish
    rw [same]
    cases stepped : run.step (parser.automaton false) with
    | ended result last => exact ⟨saved, rfl⟩
    | running next => exact inductionHypothesis (keepsLines_of_step stepped kept) saved

/-- A trimming run gets the answers that the full run gets. -/
theorem answers_collapse (well : parser.grammar.tables.WellFormed) (limit : Nat)
    (kept : run.machine.stack.KeepsLines parser.grammar) (trims : Nat) :
    (run.collapse parser.grammar trims).answers (parser.automaton true) limit =
      run.answers (parser.automaton false) limit := by
  induction limit generalizing run trims with
  | zero => rfl
  | succ limit inductionHypothesis =>
    obtain ⟨saved, same⟩ := step_collapse well kept trims
    have answer : (run.collapse parser.grammar trims).answer? (parser.automaton true) =
        run.answer? (parser.automaton false) := by
      unfold answer?
      rw [show (run.collapse parser.grammar trims).pending = run.pending from rfl]
      cases run.pending with
      | none => rfl
      | some token =>
        obtain ⟨_, offered⟩ := Parser.step_collapse well kept token trims
        dsimp only [collapse]
        rw [offered]
        rcases (parser.automaton false).step run.machine token with ⟨after, next, _ | _⟩ <;> rfl
    unfold answers
    rw [same, answer]
    cases stepped : run.step (parser.automaton false) with
    | ended result last => rfl
    | running next =>
      dsimp only [Progress.collapse]
      rw [inductionHypothesis (keepsLines_of_step stepped kept) saved]

end Run

/-- The outcome of a full parse and that of a trimming parse. -/
inductive Outcome.Collapsed (grammar : Grammar) :
    Outcome ParseError Node → Outcome ParseError Node → Prop where
  /-- Neither ends within the steps it was given. -/
  | unfinished : Collapsed grammar .unfinished .unfinished
  /-- Both accept while more or less than one tree is on the stack. -/
  | broken : Collapsed grammar (.broken .acceptDepth) (.broken .acceptDepth)
  /-- Both end with the same error. -/
  | failed (error : ParseError) : Collapsed grammar (.failed error) (.failed error)
  /-- Both end with a tree, and the trimming parse has the collapsed one. -/
  | done (tree : Node) : Collapsed grammar (.done tree) (.done (tree.collapse grammar))

/-- A result without other defects than that of accepting too early or too late,
and the same with its tree collapsed. -/
theorem Outcome.collapsed_ofResult {grammar : Grammar} {result : Except Halt Node}
    (sound : ∀ defect, result = .error (.defect defect) → defect = .acceptDepth) :
    Collapsed grammar (ofResult result) (ofResult (result.map (Node.collapse grammar))) := by
  rcases result with (error | defect) | tree
  · exact .failed error
  · obtain rfl := sound defect rfl
    exact .broken
  · exact .done tree

/-- A trimming parse reports the error that a full one reports. -/
theorem Outcome.Collapsed.failed_iff {grammar : Grammar} {full trimming : Outcome ParseError Node}
    (collapsed : Collapsed grammar full trimming) (error : ParseError) :
    trimming = .failed error ↔ full = .failed error := by
  cases collapsed with
  | unfinished => simp
  | broken => simp
  | failed => rfl
  | done => simp

/-- A trimming parse finds the collapsed tree of a full one. -/
theorem Outcome.Collapsed.eq_done {grammar : Grammar} {tree : Node}
    {trimming : Outcome ParseError Node} (collapsed : Collapsed grammar (.done tree) trimming) :
    trimming = .done (tree.collapse grammar) := by
  cases collapsed with
  | done => rfl

/-- What a trimming parse has in common with a full one: the outcome but for
collapsing the tree, the source, and all totals but the number of trims. -/
structure Parsed.Collapsed {σ : Type} (grammar : Grammar) (full trimming : Parsed σ) : Prop where
  outcome : Outcome.Collapsed grammar full.outcome trimming.outcome
  source : trimming.source = full.source
  tokens : trimming.parser.stats.tokens = full.parser.stats.tokens
  scans : trimming.parser.stats.scans = full.parser.stats.scans
  steps : ∃ trims, trimming.parser.stats.steps = { full.parser.stats.steps with trims }

/-- A parse begins with no tree on the stack, so there is nothing to collapse. -/
theorem Parser.begin?_collapse {σ : Type} {parser : Parser} {source : σ} {first : Run σ}
    (begun : parser.begin? source = .ok first) :
    first.machine.stack.KeepsLines parser.grammar ∧
      first.collapse parser.grammar parser.stats.steps.trims = first := by
  obtain ⟨start, -, rfl⟩ := begin?_eq_ok.mp begun
  refine ⟨?_, rfl⟩
  intro entry member node carried
  obtain rfl := List.mem_singleton.mp member
  contradiction

/-- A trimming parse has all this in common with the full parse of an equal source. -/
theorem Parser.collapsed_parse {σ : Type} [Source σ] {parser : Parser}
    (well : parser.grammar.tables.WellFormed) (made : parser.Made) (source : σ) (limit : Nat) :
    Parsed.Collapsed parser.grammar (parser.parse source false limit)
      (parser.parse source true limit) := by
  obtain ⟨first, begun⟩ := Parser.exists_begin? well source
  obtain ⟨bare, unchanged⟩ := Parser.begin?_collapse begun
  obtain ⟨saved, ends⟩ := Run.finish_collapse well limit bare parser.stats.steps.trims
  rw [unchanged] at ends
  unfold Parser.parse
  simp only [begun, ends]
  cases ended : first.finish (parser.automaton false) limit with
  | none => exact ⟨.unfinished, rfl, rfl, rfl, _, rfl⟩
  | some pair =>
    obtain ⟨result, last⟩ := pair
    obtain ⟨before, reached, stopped⟩ := Run.reaches_of_finish ended
    have path := StackPath.of_reaches begun reached
    have sound : ∀ defect, result = .error (.defect defect) → defect = .acceptDepth := by
      rintro defect rfl
      exact Run.step_defect well (made.errorSymbol_lt well) path stopped
    have outcome : Outcome.Collapsed parser.grammar _ _ := Outcome.collapsed_ofResult sound
    rcases result with (error | defect) | tree
    · exact ⟨outcome, rfl, rfl, rfl, _, rfl⟩
    · exact ⟨outcome, rfl, rfl, rfl, _, rfl⟩
    · exact ⟨outcome, rfl, rfl, rfl, _, rfl⟩

/-- Whatever a parser has been used for and whether or not it recovers, a trimming
parse does what the full parse of an equal source does: it ends within the same
limits, over the same defect, with the same error or with the collapsed tree, and
on the way the automaton gives the same answers to the same tokens. -/
theorem trimming_collapses_full_tree {σ : Type} [Source σ] {tables : Tables} (parser : Parser)
    (accepted : Grammar.ofTables tables = .ok parser.grammar) (made : parser.Made) (source : σ)
    (limit : Nat) :
    Parsed.Collapsed parser.grammar (parser.parse source false limit)
        (parser.parse source true limit) ∧
      parser.answers source true limit = parser.answers source false limit := by
  have well := Grammar.wellFormed_of_ofTables accepted
  refine ⟨Parser.collapsed_parse well made source limit, ?_⟩
  obtain ⟨first, begun⟩ := Parser.exists_begin? well source
  obtain ⟨bare, unchanged⟩ := Parser.begin?_collapse begun
  have answers := Run.answers_collapse well limit bare parser.stats.steps.trims
  rw [unchanged] at answers
  unfold Parser.answers
  simp only [begun, answers]

open Sums in
/-- The tree of a single number has a branch for each of two rules. The upper one is a unit, so
trimming leaves the branch above the number. -/
theorem trimming_collapses_tree_of_number :
    Grammar.ofTables tables = .ok (Parser.ofGrammar grammar).grammar ∧
      (Parser.ofGrammar grammar).Made ∧
      ((Parser.ofGrammar grammar).parse (ByteSource.ofBytes #[49]) true 40).outcome =
        .done (Node.branch Rules.number "Term" 1 [Node.leaf Symbols.number "Num" 1 "1"]) := by
  have accepted : Grammar.ofTables tables = .ok (Parser.ofGrammar grammar).grammar :=
    ofTables_tables
  have made : (Parser.ofGrammar grammar).Made := .strict rfl
  have full : ((Parser.ofGrammar grammar).parse (ByteSource.ofBytes #[49]) false 40).outcome =
      .done (Node.branch Rules.sumOfTerm "Sum" 1
        [Node.branch Rules.number "Term" 1 [Node.leaf Symbols.number "Num" 1 "1"]]) := rfl
  have unit : grammar.isUnit Rules.sumOfTerm = true := by decide
  have proper : grammar.isUnit Rules.number = false := by decide
  obtain ⟨collapsed, -⟩ := trimming_collapses_full_tree (Parser.ofGrammar grammar) accepted made
    (ByteSource.ofBytes #[49]) 40
  have outcome := collapsed.outcome
  rw [full] at outcome
  generalize ((Parser.ofGrammar grammar).parse (ByteSource.ofBytes #[49]) true 40).outcome =
    trimmed at outcome ⊢
  cases outcome with
  | done =>
    refine ⟨accepted, made, ?_⟩
    dsimp only [Parser.ofGrammar]
    rw [Node.collapse_unit unit, Node.collapse_branch proper, List.map_singleton,
      Node.collapse_leaf]

end TableDriven
