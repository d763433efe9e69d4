import TableDriven.Proofs.Calculator.Outcomes
import TableDriven.Proofs.Parsing.Trimming

/-!
# Values of trimmed trees

A trimming calculation finds the collapsed tree of the full one. Collapsing takes out branches
that only pass on the value of their child, so it does not change the value of the tree. The
branches of operators stay, and their lines with them, so a tree without a value lacks it over
the same fault on the same line.
-/

namespace TableDriven.Calculator

/-- The parsers of calculations are made in one of the two ways. -/
theorem made_parserFor (recover : Bool) : (parserFor grammar recover).Made := by
  cases recover with
  | false => exact .strict rfl
  | true => exact .recovering errorTerminal rfl

/-- What a trimming calculation has in common with a full one. -/
theorem collapsed_parseWith (input : Array UInt8) (recover : Bool) (limit : Nat) :
    Parsed.Collapsed grammar (parseWith grammar input ⟨false, recover⟩ limit)
      (parseWith grammar input ⟨true, recover⟩ limit) := by
  have loaded : (parserFor grammar recover).grammar = grammar := by cases recover <;> rfl
  have well : (parserFor grammar recover).grammar.tables.WellFormed := by
    rw [loaded]
    exact wellFormed_tables
  have collapsed := Parser.collapsed_parse well (made_parserFor recover)
    (ByteSource.ofBytes input) limit
  rwa [loaded] at collapsed

/-- The branch of a unit has the value of its child. -/
theorem first_of_isUnit {id : RuleId} (unit : grammar.isUnit id = true) :
    Form.ofRule? id = some .first := by
  have units : ∀ rule ∈ rules, grammar.isUnit rule.id = true →
      Form.ofRule? rule.id = some .first := by
    decide
  cases looked : grammar.rule id with
  | error defect => simp [Grammar.isUnit, looked] at unit
  | ok rule =>
    obtain ⟨member, rfl⟩ := mem_of_rule looked
    exact units rule member unit

/-- A collapsed tree has the value of the tree. Induct on the tree: the value of a branch comes
from those of its children. -/
theorem valueOf_collapse (node : Node) : valueOf (node.collapse grammar) = valueOf node := by
  induction node using Node.children_induction with
  | combine label children inductionHypothesis =>
    have kept : valuesOf (Node.collapseAll grammar children) = valuesOf children := by
      induction children with
      | nil => rfl
      | cons child others rest =>
        rw [Node.collapseAll, valuesOf, valuesOf, inductionHypothesis child List.mem_cons_self,
          rest fun other member => inductionHypothesis other (List.mem_cons_of_mem _ member)]
    have labelled : valueOf ⟨label, Node.collapseAll grammar children⟩ =
        valueOf ⟨label, children⟩ := by
      rw [valueOf, valueOf, kept]
    rw [Node.collapse]
    split
    · rename_i only unit single
      rw [Bool.and_eq_true, Option.isNone_iff_eq_none] at unit
      rw [← labelled, single, valueOf, unit.1]
      simp only [branchValue, first_of_isUnit unit.2, valuesOf]
    · exact labelled

/-- A trimming calculation finds the collapsed tree of the full one within the same limit. -/
theorem parse_trimmed {input : Array UInt8} {recover : Bool} {limit : Nat} {full : Node}
    (parsed : parse input ⟨false, recover⟩ limit = .done full) :
    parse input ⟨true, recover⟩ limit = .done (full.collapse grammar) := by
  have collapsed := (collapsed_parseWith input recover limit).outcome
  rw [parse_eq_done.mp parsed] at collapsed
  exact parse_eq_done.mpr collapsed.eq_done

/-- Where a trimming calculation finds a tree, a full one finds one too. -/
theorem exists_parse_full {input : Array UInt8} {recover : Bool} {limit : Nat} {trimmed : Node}
    (parsed : parse input ⟨true, recover⟩ limit = .done trimmed) :
    ∃ full, parse input ⟨false, recover⟩ limit = .done full := by
  have collapsed := (collapsed_parseWith input recover limit).outcome
  rw [parse_eq_done.mp parsed] at collapsed
  generalize outcome : (parseWith grammar input ⟨false, recover⟩ limit).outcome = found
    at collapsed
  cases collapsed with
  | done full => exact ⟨full, parse_eq_done.mpr outcome⟩

/-- With and without recovery, a trimming calculation finds a tree exactly where a full one
does, and the two trees have the same value or lack it over the same fault: a literal, a
division by zero, a value out of range, or an error that was recovered from. -/
theorem trimming_keeps_value (input : Array UInt8) (recover : Bool) :
    ((∃ tree limit, parse input ⟨true, recover⟩ limit = .done tree) ↔
      ∃ tree limit, parse input ⟨false, recover⟩ limit = .done tree) ∧
    ∀ full trimmed limit enough, parse input ⟨false, recover⟩ limit = .done full →
      parse input ⟨true, recover⟩ enough = .done trimmed →
      evaluate trimmed = evaluate full ∧
        ∀ error, evaluate full = .error error → error.IsFault := by
  refine ⟨⟨?_, ?_⟩, ?_⟩
  · rintro ⟨trimmed, limit, parsed⟩
    obtain ⟨full, found⟩ := exists_parse_full parsed
    exact ⟨full, limit, found⟩
  · rintro ⟨full, limit, parsed⟩
    exact ⟨full.collapse grammar, limit, parse_trimmed parsed⟩
  · intro full trimmed limit enough parsed other
    obtain rfl := tree_unique (parse_trimmed parsed) other
    rw [evaluate_eq_valueOf, evaluate_eq_valueOf]
    exact ⟨valueOf_collapse full, fun error failed => (operand_of_parse parsed).isFault failed⟩

/-- A division by zero on the third line of an expression is reported there from both trees. -/
theorem trimming_keeps_division_by_zero :
    ∃ full trimmed,
      parse #[49, 10, 43, 10, 50, 47, 48] ⟨false, false⟩ 60 = .done full ∧
      parse #[49, 10, 43, 10, 50, 47, 48] ⟨true, false⟩ 60 = .done trimmed ∧
      evaluate full = .error (.divisionByZero 3) ∧
      evaluate trimmed = .error (.divisionByZero 3) := by
  have failed : (parse #[49, 10, 43, 10, 50, 47, 48] ⟨false, false⟩ 60).andThen evaluate =
      .failed (.divisionByZero 3) := by
    rw [funext evaluate_eq_valueOf]
    decide +kernel
  have found : ∃ full, parse #[49, 10, 43, 10, 50, 47, 48] ⟨false, false⟩ 60 = .done full :=
    ⟨_, rfl⟩
  obtain ⟨full, parsed⟩ := found
  have valued : evaluate full = .error (.divisionByZero 3) := by
    rw [parsed] at failed
    cases value : evaluate full <;> simp_all [Outcome.andThen]
  have trimmed := parse_trimmed parsed
  obtain ⟨-, same⟩ := trimming_keeps_value #[49, 10, 43, 10, 50, 47, 48] false
  obtain ⟨kept, -⟩ := same full _ 60 60 parsed trimmed
  exact ⟨full, _, parsed, trimmed, valued, kept.trans valued⟩

end TableDriven.Calculator
