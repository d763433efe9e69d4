import TableDriven.Proofs.Calculator.Recovered
import TableDriven.Proofs.Parsing.Counting

/-!
# The totals of a calculation

By the calculator's tables nothing is pushed by a transition that is meant for heads of rules,
unless it is the head of a rule, and no rule has an empty body. So the totals of a calculation that
ends with a tree say of themselves how many nodes the tree has, and how many leaves.
-/

namespace TableDriven

namespace Calculator

/-- A parser for the calculator that does not recover pushes no token by a transition that is meant
for heads of rules. -/
theorem not_goto_of_mem_answers {σ : Type} [Source σ] {parser : Parser}
    (own : parser.grammar = grammar) (strict : parser.errorSymbol = none) (source : σ)
    (trim : Bool) (limit : Nat) :
    ∀ answer ∈ parser.answers source trim limit, answer.2 ≠ .goto := by
  rintro ⟨after, signal⟩ member rfl
  have calculates : parser.automaton trim = automatonOf ⟨trim, false⟩ := by
    rw [Parser.automaton, own, strict]
    rfl
  unfold Parser.answers at member
  cases begun : parser.begin? source with
  | error defect =>
    rw [begun] at member
    exact absurd member List.not_mem_nil
  | ok first =>
    rw [begun, calculates] at member
    obtain ⟨start, -, rfl⟩ := Parser.begin?_eq_ok.mp begun
    obtain ⟨run, reached, answered⟩ := Run.reaches_of_mem_answers member
    obtain ⟨token, held, -, effect⟩ := Run.effect_of_answer answered
    generalize (Automaton.step _ run.machine token).machine = machine at effect
    cases effect with
    | goto target listed => exact not_head_of_reaches rfl reached _ held (head_of_goto listed)

end Calculator

/-- Whatever the tables, whatever a parser without an error terminal has been used for, and whether
it trims: the totals of a parse that ends with a tree count the tree. It has a leaf for each token
that was pushed, a branch for each reduction that was not saved, and a marker, which is a leaf as
well, for each branch of an empty body. What the totals call shifts are the pushed tokens but for
those that were pushed by a transition meant for heads of rules. A calculation pushes none that
way and has no empty bodies. -/
theorem totals_count_the_tree {σ : Type} [Source σ] (parser : Parser)
    (strict : parser.errorSymbol = none) (source : σ) (trim : Bool) (limit : Nat) (tree : Node)
    (parsed : (parser.parse source trim limit).outcome = .done tree) :
    ∃ increase : StepTally,
      (parser.parse source trim limit).parser.stats.steps = parser.stats.steps.add increase ∧
      increase.shifts =
        (parser.answers source trim limit).countP (fun answer => answer.2 = .shift) ∧
      increase.trims ≤ increase.reductions ∧
      tree.preorder.length =
        (parser.pushed source trim limit).length + increase.reductions - increase.trims +
          tree.count (Node.isBodiless parser.grammar) ∧
      tree.leaves.length =
        (parser.pushed source trim limit).length + tree.count (Node.isBodiless parser.grammar) ∧
      (parser.grammar = Calculator.grammar →
        tree.preorder.length = increase.shifts + increase.reductions - increase.trims ∧
          tree.leaves.length = increase.shifts) := by
  obtain ⟨increase, ahead, shifts, saved, nodes, leaves⟩ := Parser.totals_of_parse strict parsed
  refine ⟨increase, ahead, shifts, saved, nodes, leaves, ?_⟩
  intro calculator
  have bodied : tree.count (Node.isBodiless parser.grammar) = 0 := by
    rw [calculator]
    exact Node.count_isBodiless Calculator.bodied tree
  have plain : (parser.pushed source trim limit).length = increase.shifts := by
    rw [shifts]
    exact length_pushedTokens
      (Calculator.not_goto_of_mem_answers calculator strict source trim limit)
  omega

open Calculator in
/-- With trimming, the tree of `(1)` has a branch for the number, a branch for the parentheses and
three leaves: three pushed tokens and six reductions, of which four were saved. -/
theorem totals_count_parentheses :
    (Parser.ofGrammar grammar).errorSymbol = none ∧
      ∃ tree, ((Parser.ofGrammar grammar).parse
          (ByteSource.ofBytes #[40, 49, 41]) true 40).outcome = .done tree ∧
        ((Parser.ofGrammar grammar).parse
          (ByteSource.ofBytes #[40, 49, 41]) true 40).parser.stats.steps = ⟨3, 6, 4, 0⟩ ∧
        tree.preorder.length = 5 ∧ tree.leaves.length = 3 := by
  have parsed : ∃ tree, ((Parser.ofGrammar grammar).parse
      (ByteSource.ofBytes #[40, 49, 41]) true 40).outcome = .done tree := ⟨_, rfl⟩
  have totals : ((Parser.ofGrammar grammar).parse
      (ByteSource.ofBytes #[40, 49, 41]) true 40).parser.stats.steps = ⟨3, 6, 4, 0⟩ := by
    decide +kernel
  obtain ⟨tree, parsed⟩ := parsed
  obtain ⟨increase, ahead, -, -, -, -, calculation⟩ :=
    totals_count_the_tree (Parser.ofGrammar grammar) rfl
      (ByteSource.ofBytes #[40, 49, 41]) true 40 tree parsed
  obtain ⟨nodes, leaves⟩ := calculation rfl
  rw [totals] at ahead
  obtain ⟨shifts, reductions, trims, recoveries⟩ := increase
  obtain ⟨rfl, rfl, rfl, -⟩ : 3 = shifts ∧ 6 = reductions ∧ 4 = trims ∧ 0 = recoveries := by
    simpa [StepTally.add, Parser.ofGrammar, StepTally.zero] using ahead
  exact ⟨rfl, tree, parsed, totals, nodes, leaves⟩

end TableDriven
