import TableDriven.Proofs.Parsing.Conservation
import TableDriven.Proofs.Parsing.Independence
import TableDriven.Proofs.Parsing.LeafLines

/-!
# The totals of a parse count its tree

A token that is pushed brings one leaf. A reduction brings one branch, unless it is left out of the
tree, and then it counts as saved; for an empty body it brings a leaf more, the marker. Without
recovery nothing else touches the trees on the stack, so the totals say at every moment how many
nodes these have together, and how many leaves. An accepted tree is the only one on its stack.
-/

namespace TableDriven

namespace Node

/-- How many nodes of some trees are of some kind. -/
def countAll (kind : Node → Bool) (nodes : List Node) : Nat := (nodes.flatMap preorder).countP kind

/-- How many nodes of a tree are of some kind. -/
def count (kind : Node → Bool) (root : Node) : Nat := root.preorder.countP kind

/-- Whether a node is the branch of a rule with an empty body. -/
def isBodiless (grammar : Grammar) (node : Node) : Bool :=
  node.text.isNone && grammar.isBodiless node.label.id

/-- Trees are counted together or apart. -/
theorem countAll_append (kind : Node → Bool) (before after : List Node) :
    countAll kind (before ++ after) = countAll kind before + countAll kind after := by
  rw [countAll, List.flatMap_append, List.countP_append]
  rfl

/-- A single tree is counted as such. -/
theorem countAll_singleton (kind : Node → Bool) (node : Node) :
    countAll kind [node] = node.count kind := by
  rw [countAll, List.flatMap_singleton]
  rfl

/-- A tree has what its children have, and itself. -/
theorem count_eq (kind : Node → Bool) (node : Node) :
    node.count kind = countAll kind node.children + if kind node then 1 else 0 := by
  rw [count, preorder_eq, List.countP_cons]
  rfl

/-- A leaf has itself. -/
theorem count_leaf (kind : Node → Bool) (id : Nat) (name : String) (line : Nat) (text : String) :
    (leaf id name line text).count kind = if kind (leaf id name line text) then 1 else 0 := by
  rw [count_eq]
  exact Nat.zero_add _

/-- A tree has as many nodes as a walk over it meets. -/
theorem count_all (root : Node) : root.count (fun _ => true) = root.preorder.length := by
  rw [count, List.countP_true]

/-- A tree has as many texts as nodes with text. -/
theorem count_isTerminal (root : Node) : root.count isTerminal = root.leaves.length := by
  rw [leaves, List.length_filterMap_eq_countP]
  rfl

/-- Where all rules have bodies, no branch is that of a rule without. -/
theorem count_isBodiless {grammar : Grammar} (bodied : ∀ id, grammar.isBodiless id = false)
    (root : Node) : root.count (isBodiless grammar) = 0 := by
  refine List.countP_eq_zero.mpr ?_
  intro node member
  rw [isBodiless, bodied, Bool.and_false]
  exact Bool.false_ne_true

end Node

/-- How many nodes of the trees on a stack are of some kind. -/
def Stack.count (kind : Node → Bool) (stack : Stack) : Nat := Node.countAll kind stack.trees

/-- A pushed tree adds what it has. -/
theorem Stack.count_push (kind : Node → Bool) (stack : Stack) (state : LalrStateId) (token : Token)
    (node : Node) :
    (stack.push state token (some node)).count kind = stack.count kind + node.count kind := by
  rw [count, trees_push, Node.countAll_append, Node.countAll_singleton]
  rfl

/-- A handle has what its trees have. -/
theorem Stack.count_handle (kind : Node → Bool) {handle : List Entry} {children : List Node}
    (carried : handle.map Entry.node = children.map some) (rest : Stack) :
    Stack.count kind (handle.reverse ++ rest) =
      rest.count kind + Node.countAll kind children := by
  rw [count, trees_append, trees_handle carried, Node.countAll_append]
  rfl

/-- The trees on a stack have a leaf for each token that was pushed and a branch for each reduction
that was not saved. Besides, they have a marker for each branch of an empty body. -/
structure Stack.Balances (grammar : Grammar) (pushed reductions trims : Nat) (stack : Stack) :
    Prop where
  nodes : stack.count (fun _ => true) + trims =
    pushed + reductions + stack.count (Node.isBodiless grammar)
  leaves : stack.count Node.isTerminal = pushed + stack.count (Node.isBodiless grammar)

/-- A token that is pushed brings its leaf. -/
theorem Stack.Balances.push {grammar : Grammar} {pushed reductions trims : Nat} {stack : Stack}
    (balances : stack.Balances grammar pushed reductions trims) (state : LalrStateId)
    (token : Token) :
    (stack.push state token (some token.leaf)).Balances grammar (pushed + 1) reductions trims := by
  obtain ⟨nodes, leaves⟩ := balances
  have leaf (kind : Node → Bool) : token.leaf.count kind = if kind token.leaf then 1 else 0 :=
    Node.count_leaf kind _ _ _ _
  have all : token.leaf.count (fun _ => true) = 1 := leaf _
  have terminal : token.leaf.count Node.isTerminal = 1 := leaf _
  have bodied : token.leaf.count (Node.isBodiless grammar) = 0 := leaf _
  constructor
  · rw [count_push, count_push, all, bodied]
    omega
  · rw [count_push, count_push, terminal, bodied]
    omega

/-- The totals of a machine that began with earlier ones agree with the answers that it has given
and with the trees on its stack. -/
structure Machine.Counted (grammar : Grammar) (earlier increase : StepTally)
    (answers : List (Token × Signal)) (machine : Machine) : Prop where
  ahead : machine.tally = earlier.add increase
  shifts : increase.shifts = answers.countP fun answer => answer.2 = .shift
  saved : increase.trims ≤ increase.reductions
  balances : machine.stack.Balances grammar (pushedTokens answers).length increase.reductions
    increase.trims

namespace Automaton

variable {automaton : Automaton} {machine after below : Machine} {token next lookahead : Token}
  {signal : Signal} {id : RuleId} {rule : Rule} {head : Symbol} {trimmed : Bool} {node : Node}

/-- The tree that is put together for a rule with a body has the nodes of the trees of the body
and a branch, unless this is saved. -/
theorem count_assemble {grammar : Grammar} (bodied : grammar.isBodiless id = false)
    (head : Symbol) (lookahead : Token) (trimmed : Bool) (children : List Node) :
    (assemble id head lookahead trimmed children).2 ≤ 1 ∧
      (assemble id head lookahead trimmed children).1.count (fun _ => true) +
          (assemble id head lookahead trimmed children).2 =
        Node.countAll (fun _ => true) children + 1 ∧
      (assemble id head lookahead trimmed children).1.count Node.isTerminal =
        Node.countAll Node.isTerminal children ∧
      (assemble id head lookahead trimmed children).1.count (Node.isBodiless grammar) =
        Node.countAll (Node.isBodiless grammar) children := by
  unfold assemble
  split
  · simp [Node.countAll_singleton]
  · have ordinary (line : Nat) :
        (Node.branch id head.name line children).isBodiless grammar = false := by
      rw [Node.isBodiless, show (Node.branch id head.name line children).label.id = id from rfl,
        bodied, Bool.and_false]
    refine ⟨Nat.zero_le 1, ?_, ?_, ?_⟩
    · rw [Node.count_eq]
      rfl
    · rw [Node.count_eq]
      rfl
    · rw [Node.count_eq, ordinary]
      rfl

/-- The branch of an empty body brings two nodes, of which one is the marker. -/
theorem count_emptyBranch {grammar : Grammar} (bodiless : grammar.isBodiless id = true)
    (head : Symbol) (lookahead : Token) :
    (emptyBranch id head lookahead).count (fun _ => true) = 2 ∧
      (emptyBranch id head lookahead).count Node.isTerminal = 1 ∧
      (emptyBranch id head lookahead).count (Node.isBodiless grammar) = 1 := by
  have counted (kind : Node → Bool) : (emptyBranch id head lookahead).count kind =
      (Node.leaf 0 lookahead.symbol.name lookahead.line lookahead.text).count kind +
        if kind (emptyBranch id head lookahead) then 1 else 0 := by
    rw [Node.count_eq, ← Node.countAll_singleton]
    rfl
  have own : (emptyBranch id head lookahead).isBodiless grammar = true := bodiless
  refine ⟨?_, ?_, ?_⟩
  · rw [counted, Node.count_leaf]
    rfl
  · rw [counted, Node.count_leaf]
    rfl
  · rw [counted, Node.count_leaf, own]
    rfl

/-- Taking a body off the stack and putting its tree back on brings a branch, or saves it. With an
empty body the branch has a marker. -/
theorem BodyTaken.balances {grammar : Grammar} {pushed reductions trims : Nat}
    (looked : grammar.rule id = .ok rule)
    (taken : BodyTaken machine id rule head lookahead trimmed node below)
    (balances : machine.stack.Balances grammar pushed reductions trims) (state : LalrStateId)
    (token : Token) :
    ∃ saved ≤ 1, below.tally = machine.tally.add ⟨0, 1, saved, 0⟩ ∧
      (below.stack.push state token (some node)).Balances grammar pushed (reductions + 1)
        (trims + saved) := by
  obtain ⟨nodes, leaves⟩ := balances
  have verdict := Grammar.isBodiless_of_rule looked
  cases taken with
  | empty bodiless =>
    rw [bodiless] at verdict
    obtain ⟨all, terminal, emptied⟩ := count_emptyBranch verdict head lookahead
    refine ⟨0, Nat.zero_le 1, rfl, ?_, ?_⟩
    · dsimp only
      rw [Stack.count_push, Stack.count_push, all, emptied]
      omega
    · dsimp only
      rw [Stack.count_push, Stack.count_push, terminal, emptied]
      omega
  | handle first others rest children stacked fits left carried =>
    have bodied : grammar.isBodiless id = false := by
      rw [verdict, List.isEmpty_eq_false_iff, ← List.length_pos_iff, ← fits]
      exact Nat.succ_pos _
    obtain ⟨few, all, terminal, emptied⟩ := count_assemble bodied head lookahead trimmed children
    rw [stacked, Stack.count_handle _ carried, Stack.count_handle _ carried] at nodes leaves
    refine ⟨(assemble id head lookahead trimmed children).2, few, rfl, ?_, ?_⟩
    · dsimp only
      rw [Stack.count_push, Stack.count_push, emptied]
      omega
    · dsimp only
      rw [Stack.count_push, Stack.count_push, terminal, emptied]
      omega

/-- An answered step keeps the totals of an automaton that does not recover in agreement with its
answers and its trees. -/
theorem Effect.counted {earlier increase : StepTally} {answers : List (Token × Signal)}
    (strict : automaton.errorSymbol = none)
    (effect : automaton.Effect machine token after next signal)
    (counted : machine.Counted automaton.grammar earlier increase answers) :
    ∃ larger, after.Counted automaton.grammar earlier larger (answers ++ [(next, signal)]) := by
  obtain ⟨ahead, shifts, saved, balances⟩ := counted
  have pushed : (pushedTokens (answers ++ [(next, signal)])).length =
      (pushedTokens answers).length + if signal = .shift ∨ signal = .goto then 1 else 0 := by
    rw [pushedTokens_append, List.length_append]
    by_cases pushes : signal = .shift ∨ signal = .goto
    · simp [pushedTokens, pushes]
    · simp [pushedTokens, pushes]
  have shifted : (answers ++ [(next, signal)]).countP (fun answer => answer.2 = .shift) =
      increase.shifts + if signal = .shift then 1 else 0 := by
    rw [List.countP_append, shifts, List.countP_singleton]
    simp
  cases effect with
  | shift target listed =>
    refine ⟨{ increase with shifts := increase.shifts + 1 }, ?_, shifted.symm, saved, ?_⟩
    · dsimp only
      rw [ahead]
      rfl
    · rw [pushed]
      exact balances.push machine.state token
  | goto target listed =>
    refine ⟨increase, ahead, shifted.symm, saved, ?_⟩
    rw [pushed]
    exact balances.push machine.state token
  | reduce id after listed reduced =>
    obtain ⟨rule, head, trimmed, node, below, target, planned, taken, moved⟩ := reduced
    obtain ⟨trims, few, tally, balanced⟩ := taken.balances (plan_eq_ok.mp planned).1 balances
      below.state (headToken head node)
    refine ⟨increase.add ⟨0, 1, trims, 0⟩, ?_, shifted.symm, ?_, ?_⟩
    · rw [show (below.enter target (headToken head node) node).tally = below.tally from rfl, tally,
        ahead]
      simp only [StepTally.add, Nat.add_assoc]
    · dsimp only [StepTally.add]
      omega
    · rw [pushed]
      exact balanced
  | substitute error symbol unlisted recovers =>
    rw [strict] at recovers
    contradiction
  | unwind error state stack unlisted recovers =>
    rw [strict] at recovers
    contradiction
  | accept =>
    refine ⟨increase, ahead, shifted.symm, saved, ?_⟩
    rw [pushed]
    exact balances
  | reject =>
    refine ⟨increase, ahead, shifted.symm, saved, ?_⟩
    rw [pushed]
    exact balances

end Automaton

namespace Run

variable {σ : Type} [Source σ] {automaton : Automaton}

/-- What is counted in a run agrees with its answers and with the trees on the stack when it ends
with a tree. Induct on the steps: an answer is counted when it is given. -/
theorem counted_of_finish {limit : Nat} {run last : Run σ} {tree : Node}
    {earlier increase : StepTally} {answers : List (Token × Signal)}
    (strict : automaton.errorSymbol = none)
    (counted : run.machine.Counted automaton.grammar earlier increase answers)
    (ended : run.finish automaton limit = some (.ok tree, last)) :
    ∃ total, last.machine.Counted automaton.grammar earlier total
      (answers ++ run.answers automaton limit) := by
  induction limit generalizing run increase answers with
  | zero => simp [finish] at ended
  | succ limit inductionHypothesis =>
    unfold finish at ended
    unfold Run.answers
    cases stepped : run.step automaton with
    | ended result final =>
      obtain ⟨rfl, rfl⟩ : result = .ok tree ∧ final = last := by simpa [stepped] using ended
      obtain ⟨token, held, listed, root, rfl⟩ := accepted_of_step stepped
      rw [List.append_nil]
      cases answered : final.answer? automaton with
      | none => exact ⟨increase, by simpa using counted⟩
      | some answer =>
        obtain ⟨own, same, -, effect⟩ := effect_of_answer answered
        obtain rfl := Option.some.inj (held.symm.trans same)
        rw [Automaton.step_eq_of_effect (.accept listed)] at effect
        exact effect.counted strict counted
    | running next =>
      rw [stepped] at ended
      dsimp only at ended ⊢
      rcases answer_of_step stepped with
        ⟨still, silent⟩ | ⟨token, after, signal, answered, -, effect, -⟩
      · rw [silent]
        rw [← still] at counted
        exact inductionHypothesis counted ended
      · obtain ⟨larger, further⟩ := effect.counted strict counted
        rw [answered, ← List.append_assoc]
        exact inductionHypothesis further ended

end Run

/-- The totals of a parser that does not recover agree with its answers and with the tree that it
ends with. -/
theorem Parser.counted_of_parse {σ : Type} [Source σ] {parser : Parser} {source : σ} {trim : Bool}
    {limit : Nat} {tree : Node} (strict : parser.errorSymbol = none)
    (parsed : (parser.parse source trim limit).outcome = .done tree) :
    ∃ (increase : StepTally) (last : Machine), last.stack.trees = [tree] ∧
      (parser.parse source trim limit).parser.stats.steps = last.tally ∧
      last.Counted parser.grammar parser.stats.steps increase
        (parser.answers source trim limit) := by
  obtain ⟨first, last, begun, ended, settled⟩ := Parser.finish_of_parse_eq_done parsed
  obtain ⟨before, reached, stopped⟩ := Run.reaches_of_finish ended
  obtain ⟨-, -, -, root, rfl⟩ := Run.accepted_of_step stopped
  have path := StackPath.of_reaches begun reached
  have none : first.machine.Counted parser.grammar parser.stats.steps .zero [] := by
    obtain ⟨start, -, rfl⟩ := Parser.begin?_eq_ok.mp begun
    exact ⟨rfl, rfl, Nat.le_refl 0, rfl, rfl⟩
  obtain ⟨increase, counted⟩ := Run.counted_of_finish strict none ended
  refine ⟨increase, last.machine, path.trees_root root, ?_, ?_⟩
  · rw [settled]
    rfl
  · rw [Parser.answers, begun]
    exact counted

/-- If no token was pushed otherwise, the shifts are the pushed tokens. -/
theorem length_pushedTokens {answers : List (Token × Signal)}
    (shifted : ∀ answer ∈ answers, answer.2 ≠ .goto) :
    (pushedTokens answers).length = answers.countP fun answer => answer.2 = .shift := by
  rw [pushedTokens, List.length_map, ← List.countP_eq_length_filter]
  refine List.countP_congr fun answer member => ?_
  simp [shifted answer member]

/-- Whatever the tables, whatever a parser without an error terminal has been used for, and whether
it trims: the tree of a parse has a leaf for each token that was pushed, a branch for each reduction
that was not saved, and a marker, which is a leaf as well, for each branch of an empty body. -/
theorem Parser.totals_of_parse {σ : Type} [Source σ] {parser : Parser} {source : σ} {trim : Bool}
    {limit : Nat} {tree : Node} (strict : parser.errorSymbol = none)
    (parsed : (parser.parse source trim limit).outcome = .done tree) :
    ∃ increase : StepTally,
      (parser.parse source trim limit).parser.stats.steps = parser.stats.steps.add increase ∧
      increase.shifts =
        (parser.answers source trim limit).countP (fun answer => answer.2 = .shift) ∧
      increase.trims ≤ increase.reductions ∧
      tree.preorder.length =
        (parser.pushed source trim limit).length + increase.reductions - increase.trims +
          tree.count (Node.isBodiless parser.grammar) ∧
      tree.leaves.length =
        (parser.pushed source trim limit).length +
          tree.count (Node.isBodiless parser.grammar) := by
  obtain ⟨increase, last, alone, totals, ahead, shifts, saved, nodes, leaves⟩ :=
    Parser.counted_of_parse strict parsed
  have only (kind : Node → Bool) : last.stack.count kind = tree.count kind := by
    rw [Stack.count, alone, Node.countAll_singleton]
  rw [only, only, Node.count_all] at nodes
  rw [only, only, Node.count_isTerminal] at leaves
  rw [totals, Parser.pushed]
  exact ⟨increase, ahead, shifts, saved, by omega, leaves⟩

end TableDriven
