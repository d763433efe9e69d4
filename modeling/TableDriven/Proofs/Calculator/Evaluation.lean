import Mathlib.Logic.Relation
import Mathlib.Tactic.IntervalCases
import TableDriven.Proofs.Calculator.Value

/-!
# Evaluation task by task

What the value of a tree is can be said by rules that mention no list of tasks and no list of
values: a node with text is a token, and a branch has its value from those of some of its
children, by the number of its rule. Evaluation finds exactly this value for every tree, whatever
its numbers, its texts and its children.

It gets there by doing one task after the other. A task needs as many values as it has operands,
and each task says how many values are there when it has been done. So it is known beforehand that
every task finds its operands and that one value is left when nothing is to be done any more.
-/

namespace TableDriven.Calculator

/-- The rules of branches that stand for an operator between the first and the third child. -/
def operatorRules : List (RuleId × Operator) :=
  [(Rules.add, .add), (Rules.subtract, .subtract), (Rules.multiply, .multiply),
   (Rules.divide, .divide)]

/-- The rules of branches that have the value of their first child. -/
def passingRules : List RuleId := [Rules.exprOfTerm, Rules.termOfFactor, Rules.number]

/-- The number of children that a branch of each rule has to have. -/
def requiredChildren : List (RuleId × Nat) :=
  [(Rules.add, 3), (Rules.subtract, 3), (Rules.multiply, 3), (Rules.divide, 3),
   (Rules.exprOfTerm, 1), (Rules.termOfFactor, 1), (Rules.number, 1), (Rules.parenthesized, 2),
   (Rules.negate, 2), (Rules.error, 0)]

/-- What an operator makes of two integers. A quotient drops the fraction, and there is none if
the divisor is zero. -/
def Operator.exactly? : Operator → Int → Int → Option Int
  | .add, left, right => some (left + right)
  | .subtract, left, right => some (left - right)
  | .multiply, left, right => some (left * right)
  | .divide, left, right => if right = 0 then none else some (left.tdiv right)

/-- An integer that 64 bits with a sign hold; any other one overflows. -/
def held (line : Nat) (value : Int) : Except CalculatorError Int :=
  if -2 ^ 63 ≤ value ∧ value ≤ 2 ^ 63 - 1 then .ok value else .error (.overflow line)

/-- The value of a tree, or why it has none. Whether a branch has the children it needs is settled
before any of them is looked at, and a left operand without a value before the right one is. -/
inductive HasValue : Node → Except CalculatorError Int → Prop where
  | number {label : Label} {children : List Node} {text : String}
      (written : label.text = some text) (own : label.id = Symbols.number) :
      HasValue ⟨label, children⟩ ((readLiteral text).mapError .literal)
  | errorToken {label : Label} {children : List Node} {text : String}
      (written : label.text = some text) (own : label.id = Symbols.error) :
      HasValue ⟨label, children⟩ (.error (.recovered label.line))
  | otherToken {label : Label} {children : List Node} {text : String}
      (written : label.text = some text) (other : label.id ∉ [Symbols.number, Symbols.error]) :
      HasValue ⟨label, children⟩ (.error (.unexpectedNode label.name label.line))
  | binary {label : Label} {left sign right : Node} {others : List Node} {operator : Operator}
      {first second value : Int} (bare : label.text = none)
      (own : (label.id, operator) ∈ operatorRules) (one : HasValue left (.ok first))
      (other : HasValue right (.ok second)) (made : operator.exactly? first second = some value) :
      HasValue ⟨label, left :: sign :: right :: others⟩ (held label.line value)
  | byZero {label : Label} {left sign right : Node} {others : List Node} {operator : Operator}
      {first second : Int} (bare : label.text = none)
      (own : (label.id, operator) ∈ operatorRules) (one : HasValue left (.ok first))
      (other : HasValue right (.ok second)) (made : operator.exactly? first second = none) :
      HasValue ⟨label, left :: sign :: right :: others⟩ (.error (.divisionByZero label.line))
  | leftFails {label : Label} {left sign right : Node} {others : List Node} {operator : Operator}
      {error : CalculatorError} (bare : label.text = none)
      (own : (label.id, operator) ∈ operatorRules) (one : HasValue left (.error error)) :
      HasValue ⟨label, left :: sign :: right :: others⟩ (.error error)
  | rightFails {label : Label} {left sign right : Node} {others : List Node} {operator : Operator}
      {first : Int} {error : CalculatorError} (bare : label.text = none)
      (own : (label.id, operator) ∈ operatorRules) (one : HasValue left (.ok first))
      (other : HasValue right (.error error)) :
      HasValue ⟨label, left :: sign :: right :: others⟩ (.error error)
  | passed {label : Label} {only : Node} {others : List Node}
      {result : Except CalculatorError Int} (bare : label.text = none)
      (own : label.id ∈ passingRules) (one : HasValue only result) :
      HasValue ⟨label, only :: others⟩ result
  | parenthesized {label : Label} {before inner : Node} {others : List Node}
      {result : Except CalculatorError Int} (bare : label.text = none)
      (own : label.id = Rules.parenthesized) (one : HasValue inner result) :
      HasValue ⟨label, before :: inner :: others⟩ result
  | negated {label : Label} {sign operand : Node} {others : List Node} {value : Int}
      (bare : label.text = none) (own : label.id = Rules.negate)
      (one : HasValue operand (.ok value)) :
      HasValue ⟨label, sign :: operand :: others⟩ (held label.line (-value))
  | negatedFails {label : Label} {sign operand : Node} {others : List Node}
      {error : CalculatorError} (bare : label.text = none) (own : label.id = Rules.negate)
      (one : HasValue operand (.error error)) :
      HasValue ⟨label, sign :: operand :: others⟩ (.error error)
  | recovered {label : Label} {children : List Node} (bare : label.text = none)
      (own : label.id = Rules.error) :
      HasValue ⟨label, children⟩ (.error (.recovered label.line))
  | lacking {label : Label} {children : List Node} {count : Nat} (bare : label.text = none)
      (own : (label.id, count) ∈ requiredChildren) (fewer : children.length < count) :
      HasValue ⟨label, children⟩ (.error (.unexpectedNode label.name label.line))
  | unlisted {label : Label} {children : List Node} (bare : label.text = none)
      (other : ∀ count, (label.id, count) ∉ requiredChildren) :
      HasValue ⟨label, children⟩ (.error (.unexpectedNode label.name label.line))

/-- A value is held if it is in the range of the calculator. -/
theorem checked_eq_held (line : Nat) (value : Int) : checked line value = held line value := by
  have bounds : (leastInt ≤ value ∧ value ≤ greatestInt) ↔
      (-2 ^ 63 ≤ value ∧ value ≤ 2 ^ 63 - 1) := Iff.rfl
  unfold checked inRange? held
  by_cases inside : leastInt ≤ value ∧ value ≤ greatestInt
  · rw [if_pos inside, if_pos (bounds.mp inside)]
  · rw [if_neg inside, if_neg fun other => inside (bounds.mpr other)]

/-- An operator is applied by exact arithmetic; only then is the range looked at. -/
theorem Operator.apply_eq_exact (operator : Operator) (line : Nat) (left right : Int) :
    operator.apply line left right =
      match operator.exactly? left right with
      | some value => held line value
      | none => .error (.divisionByZero line) := by
  cases operator with
  | add => exact checked_eq_held _ _
  | subtract => exact checked_eq_held _ _
  | multiply => exact checked_eq_held _ _
  | divide =>
    by_cases zero : right = 0
    · simp only [apply, exactly?, if_pos zero]
    · simp only [apply, exactly?, if_neg zero]
      exact checked_eq_held _ _

/-- The number of children that a form needs. -/
def Form.required : Form → Nat
  | .binary _ => 3
  | .first => 1
  | .second => 2
  | .negated => 2
  | .recovered => 0

/-- The branches of operators have the form of their operator. -/
theorem Form.ofRule?_of_operator {id : RuleId} {operator : Operator}
    (own : (id, operator) ∈ operatorRules) : Form.ofRule? id = some (.binary operator) := by
  have formed : ∀ pair ∈ operatorRules, Form.ofRule? pair.1 = some (.binary pair.2) := by decide
  exact formed _ own

/-- The branches that pass a value on have the form of doing so. -/
theorem Form.ofRule?_of_passing {id : RuleId} (own : id ∈ passingRules) :
    Form.ofRule? id = some .first := by
  have formed : ∀ id ∈ passingRules, Form.ofRule? id = some .first := by decide
  exact formed _ own

/-- The branch of a rule has a form if it is told how many children it needs. -/
theorem Form.ofRule?_of_required {id : RuleId} {count : Nat}
    (own : (id, count) ∈ requiredChildren) :
    ∃ form, Form.ofRule? id = some form ∧ form.required = count := by
  have formed : ∀ pair ∈ requiredChildren,
      (Form.ofRule? pair.1).map Form.required = some pair.2 := by
    decide
  exact Option.map_eq_some_iff.mp (formed _ own)

/-- The form of a branch goes with the number of its rule. -/
theorem Form.ofRule?_cases (id : Nat) :
    match Form.ofRule? id with
    | some (.binary operator) => (id, operator) ∈ operatorRules
    | some .first => id ∈ passingRules
    | some .second => id = Rules.parenthesized
    | some .negated => id = Rules.negate
    | some .recovered => id = Rules.error
    | none => True := by
  rcases Nat.lt_or_ge id 10 with listed | beyond
  · interval_cases id <;> simp [Form.ofRule?, operatorRules, passingRules]
  · obtain ⟨more, rfl⟩ := Nat.exists_eq_add_of_le' beyond
    exact trivial

/-- A form is that of a rule of which it is told how many children a branch needs. -/
theorem Form.required_of_ofRule? {id : Nat} {form : Form} (found : Form.ofRule? id = some form) :
    (id, form.required) ∈ requiredChildren := by
  have listed := Form.ofRule?_cases id
  rw [found] at listed
  cases form with
  | binary operator =>
    have three : ∀ pair ∈ operatorRules, (pair.1, 3) ∈ requiredChildren := by decide
    exact three _ listed
  | first =>
    have one : ∀ id ∈ passingRules, (id, 1) ∈ requiredChildren := by decide
    exact one _ listed
  | second => exact listed ▸ by decide
  | negated => exact listed ▸ by decide
  | recovered => exact listed ▸ by decide

/-- A node without text has the value of a branch. -/
theorem valueOf_of_none {label : Label} (bare : label.text = none) (children : List Node) :
    valueOf ⟨label, children⟩ = branchValue label (valuesOf children) := by
  rw [valueOf, bare]

/-- There are as many values as trees. -/
theorem length_valuesOf (nodes : List Node) : (valuesOf nodes).length = nodes.length := by
  induction nodes with
  | nil => rfl
  | cons node rest inductionHypothesis =>
    rw [valuesOf, List.length_cons, List.length_cons, inductionHypothesis]

/-- A branch that lacks a child is refused. -/
theorem branchValue_of_lacking {label : Label} {form : Form}
    {operands : List (Except CalculatorError Int)} (found : Form.ofRule? label.id = some form)
    (fewer : operands.length < form.required) :
    branchValue label operands = .error (unexpected label) := by
  have present {first second third : Except CalculatorError Int}
      {others : List (Except CalculatorError Int)} {count : Nat}
      (short : (first :: second :: third :: others).length < count) : 3 < count := by
    simp only [List.length_cons] at short
    omega
  unfold branchValue
  rw [found]
  rcases operands with _ | ⟨first, _ | ⟨second, _ | ⟨third, others⟩⟩⟩
  · cases form with
    | recovered => contradiction
    | _ => rfl
  · cases form with
    | first => contradiction
    | recovered => contradiction
    | _ => rfl
  · cases form with
    | binary operator => rfl
    | _ => contradiction
  · have more := present fewer
    cases form <;> contradiction

namespace HasValue

variable {node : Node} {result : Except CalculatorError Int}

/-- The value that a tree has is the one that recursion over it finds. Induct on the rules. -/
theorem valueOf_eq (has : HasValue node result) : valueOf node = result := by
  induction has with
  | number written own => simp only [valueOf, written, tokenValue, if_pos own]
  | errorToken written own =>
    have other : ¬ Symbols.error = Symbols.number := by decide
    simp only [valueOf, written, tokenValue, own, if_neg other, if_true]
  | otherToken written other =>
    simp only [List.mem_cons, List.not_mem_nil, or_false, not_or] at other
    simp only [valueOf, written, tokenValue, if_neg other.1, if_neg other.2, unexpected]
  | binary bare own one other made first second =>
    simp only [valueOf_of_none bare, branchValue, Form.ofRule?_of_operator own, valuesOf, first,
      second, Except.bind, Operator.apply_eq_exact, made]
  | byZero bare own one other made first second =>
    simp only [valueOf_of_none bare, branchValue, Form.ofRule?_of_operator own, valuesOf, first,
      second, Except.bind, Operator.apply_eq_exact, made]
  | leftFails bare own one first =>
    simp only [valueOf_of_none bare, branchValue, Form.ofRule?_of_operator own, valuesOf, first,
      Except.bind]
  | rightFails bare own one other first second =>
    simp only [valueOf_of_none bare, branchValue, Form.ofRule?_of_operator own, valuesOf, first,
      second, Except.bind]
  | passed bare own one first =>
    simp only [valueOf_of_none bare, branchValue, Form.ofRule?_of_passing own, valuesOf, first]
  | parenthesized bare own one inner =>
    simp only [valueOf_of_none bare, branchValue, own, Form.ofRule?, valuesOf, inner]
  | negated bare own one operand =>
    simp only [valueOf_of_none bare, branchValue, own, Form.ofRule?, valuesOf, operand,
      Except.bind, checked_eq_held]
  | negatedFails bare own one operand =>
    simp only [valueOf_of_none bare, branchValue, own, Form.ofRule?, valuesOf, operand,
      Except.bind]
  | recovered bare own => simp only [valueOf_of_none bare, branchValue, own, Form.ofRule?]
  | lacking bare own fewer =>
    obtain ⟨form, found, rfl⟩ := Form.ofRule?_of_required own
    rw [valueOf_of_none bare]
    exact branchValue_of_lacking found (by rwa [length_valuesOf])
  | @unlisted label children bare other =>
    cases found : Form.ofRule? label.id with
    | none => simp only [valueOf_of_none bare, branchValue, found, unexpected]
    | some form => exact absurd (Form.required_of_ofRule? found) (other _)

/-- Every tree has a value, or the rules say why it has none. Induct on the tree: the form of a
branch says which rule applies once its children have values. -/
theorem exists_result (node : Node) : ∃ result, HasValue node result := by
  induction node using Node.children_induction with
  | combine label children inductionHypothesis =>
    cases written : label.text with
    | some text =>
      by_cases numbered : label.id = Symbols.number
      · exact ⟨_, .number written numbered⟩
      · by_cases error : label.id = Symbols.error
        · exact ⟨_, .errorToken written error⟩
        · exact ⟨_, .otherToken written (by simp [numbered, error])⟩
    | none =>
      have listed := Form.ofRule?_cases label.id
      cases found : Form.ofRule? label.id with
      | none =>
        refine ⟨_, .unlisted written fun count member => ?_⟩
        obtain ⟨form, told, -⟩ := Form.ofRule?_of_required member
        rw [found] at told
        contradiction
      | some form =>
        rw [found] at listed
        have lacks (fewer : children.length < form.required) :
            ∃ result, HasValue ⟨label, children⟩ result :=
          ⟨_, .lacking written (Form.required_of_ofRule? found) fewer⟩
        cases form with
        | binary operator =>
          rcases children with _ | ⟨left, _ | ⟨sign, _ | ⟨right, others⟩⟩⟩
          · exact lacks (by simp [Form.required])
          · exact lacks (by simp [Form.required])
          · exact lacks (by simp [Form.required])
          · obtain ⟨first, one⟩ := inductionHypothesis left (by simp)
            obtain ⟨second, other⟩ := inductionHypothesis right (by simp)
            cases first with
            | error error => exact ⟨_, .leftFails written listed one⟩
            | ok first =>
              cases second with
              | error error => exact ⟨_, .rightFails written listed one other⟩
              | ok second =>
                cases made : operator.exactly? first second with
                | none => exact ⟨_, .byZero written listed one other made⟩
                | some value => exact ⟨_, .binary written listed one other made⟩
        | first =>
          rcases children with _ | ⟨only, others⟩
          · exact lacks (by simp [Form.required])
          · obtain ⟨result, one⟩ := inductionHypothesis only (by simp)
            exact ⟨result, .passed written listed one⟩
        | second =>
          rcases children with _ | ⟨before, _ | ⟨inner, others⟩⟩
          · exact lacks (by simp [Form.required])
          · exact lacks (by simp [Form.required])
          · obtain ⟨result, one⟩ := inductionHypothesis inner (by simp)
            exact ⟨result, .parenthesized written listed one⟩
        | negated =>
          rcases children with _ | ⟨sign, _ | ⟨operand, others⟩⟩
          · exact lacks (by simp [Form.required])
          · exact lacks (by simp [Form.required])
          · obtain ⟨result, one⟩ := inductionHypothesis operand (by simp)
            cases result with
            | error error => exact ⟨_, .negatedFails written listed one⟩
            | ok value => exact ⟨_, .negated written listed one⟩
        | recovered => exact ⟨_, .recovered written listed⟩

/-- Evaluation finds the value that the rules give to a tree, and no other. -/
theorem iff_evaluate : evaluate node = result ↔ HasValue node result := by
  rw [evaluate_eq_valueOf]
  constructor
  · rintro rfl
    obtain ⟨result, has⟩ := exists_result node
    rwa [has.valueOf_eq]
  · exact valueOf_eq

end HasValue

/-- The number of values that a task takes. -/
def Task.operands : Task → Nat
  | .compute _ => 0
  | .negate _ => 1
  | .combine _ _ => 2

/-- The number of values when all tasks have been done, each of which leaves one value in the place
of its operands; none if a task finds fewer than it takes. -/
def countAfter? (count : Nat) : List Task → Option Nat
  | [] => some count
  | task :: rest =>
    if task.operands ≤ count then countAfter? (count - task.operands + 1) rest else none

/-- Evaluation between two tasks: the values found so far, the latest first, and the tasks that
are left. -/
structure Workbench where
  values : List Int
  pending : List Task

namespace Workbench

/-- Evaluation before its first task. -/
def begin (root : Node) : Workbench := ⟨[], [.compute root]⟩

/-- The first of the tasks is done. -/
inductive Turn : Workbench → Workbench → Prop where
  | token {label : Label} {children : List Node} {text : String} {value : Int}
      {values : List Int} {pending : List Task} (written : label.text = some text)
      (read : tokenValue label text = .ok value) :
      Turn ⟨values, .compute ⟨label, children⟩ :: pending⟩ ⟨value :: values, pending⟩
  | branch {label : Label} {children : List Node} {tasks : List Task} {values : List Int}
      {pending : List Task} (bare : label.text = none)
      (planned : branchTasks label children = .ok tasks) :
      Turn ⟨values, .compute ⟨label, children⟩ :: pending⟩ ⟨values, tasks ++ pending⟩
  | negate {label : Label} {operand value : Int} {values : List Int} {pending : List Task}
      (inside : checked label.line (-operand) = .ok value) :
      Turn ⟨operand :: values, .negate label :: pending⟩ ⟨value :: values, pending⟩
  | combine {label : Label} {operator : Operator} {left right value : Int} {values : List Int}
      {pending : List Task} (applied : operator.apply label.line left right = .ok value) :
      Turn ⟨right :: left :: values, .combine operator label :: pending⟩
        ⟨value :: values, pending⟩

/-- No task is left but one value, or the first task fails over what it is given. That a task lacks
an operand is not among the ways to end. -/
inductive Ends : Workbench → Except CalculatorError Int → Prop where
  | done (value : Int) : Ends ⟨[value], []⟩ (.ok value)
  | token {label : Label} {children : List Node} {text : String} {error : CalculatorError}
      {values : List Int} {pending : List Task} (written : label.text = some text)
      (refused : tokenValue label text = .error error) :
      Ends ⟨values, .compute ⟨label, children⟩ :: pending⟩ (.error error)
  | branch {label : Label} {children : List Node} {error : CalculatorError} {values : List Int}
      {pending : List Task} (bare : label.text = none)
      (refused : branchTasks label children = .error error) :
      Ends ⟨values, .compute ⟨label, children⟩ :: pending⟩ (.error error)
  | negate {label : Label} {operand : Int} {error : CalculatorError} {values : List Int}
      {pending : List Task} (outside : checked label.line (-operand) = .error error) :
      Ends ⟨operand :: values, .negate label :: pending⟩ (.error error)
  | combine {label : Label} {operator : Operator} {left right : Int} {error : CalculatorError}
      {values : List Int} {pending : List Task}
      (refused : operator.apply label.line left right = .error error) :
      Ends ⟨right :: left :: values, .combine operator label :: pending⟩ (.error error)

/-- Finitely many tasks are done. -/
def Reaches : Workbench → Workbench → Prop := Relation.ReflTransGen Turn

/-- Every task finds its operands, and one value is left when all are done. -/
def Supplied (bench : Workbench) : Prop :=
  countAfter? bench.values.length bench.pending = some 1

variable {bench next : Workbench} {result : Except CalculatorError Int}

/-- The tasks of a branch leave one value when they have been done. -/
theorem countAfter?_branchTasks {label : Label} {children : List Node} {tasks : List Task}
    (planned : branchTasks label children = .ok tasks) (count : Nat) (pending : List Task) :
    countAfter? count (tasks ++ pending) = countAfter? (count + 1) pending := by
  unfold branchTasks at planned
  split at planned
  · obtain rfl := Except.ok.inj planned
    simp [countAfter?, Task.operands]
  · obtain rfl := Except.ok.inj planned
    simp [countAfter?, Task.operands]
  · obtain rfl := Except.ok.inj planned
    simp [countAfter?, Task.operands]
  · obtain rfl := Except.ok.inj planned
    simp [countAfter?, Task.operands]
  · contradiction
  · contradiction

/-- Doing a task keeps the others supplied. -/
theorem Turn.supplied (turn : Turn bench next) (supplied : bench.Supplied) : next.Supplied := by
  unfold Supplied at supplied ⊢
  cases turn with
  | token => simpa [countAfter?, Task.operands] using supplied
  | branch bare planned =>
    rw [countAfter?_branchTasks planned]
    simpa [countAfter?, Task.operands] using supplied
  | negate => simpa [countAfter?, Task.operands] using supplied
  | combine => simpa [countAfter?, Task.operands] using supplied

/-- Doing a task leaves less to be done. -/
theorem Turn.lighter (turn : Turn bench next) :
    Task.weightAll next.pending < Task.weightAll bench.pending := by
  cases turn with
  | token =>
    simp only [Task.weightAll, Task.weight, Node.size]
    omega
  | branch bare planned =>
    have lighter := Task.weightAll_branchTasks planned
    simp only [Task.weightAll_append, Task.weightAll, Task.weight, Node.size]
    omega
  | negate => simp [Task.weightAll, Task.weight]
  | combine => simp [Task.weightAll, Task.weight]

/-- Carrying out the tasks is doing the first one and carrying out the others. -/
theorem Turn.runTasks_eq (turn : Turn bench next) (root : Label) :
    runTasks root bench.values bench.pending = runTasks root next.values next.pending := by
  cases turn with
  | token written read =>
    rw [runTasks]
    simp only [written, read]
  | branch bare planned =>
    rw [runTasks]
    simp only [bare]
    split
    · rename_i error refused
      rw [planned] at refused
      contradiction
    · rename_i tasks own
      obtain rfl := Except.ok.inj (planned.symm.trans own)
      rfl
  | negate inside =>
    rw [runTasks_negate, inside]
    rfl
  | combine applied =>
    rw [runTasks_combine, applied]
    rfl

/-- Where doing the tasks ends, carrying them out ends in the same way. -/
theorem Ends.runTasks_eq (ends : Ends bench result) (root : Label) :
    runTasks root bench.values bench.pending = result := by
  cases ends with
  | done value => rw [runTasks]
  | token written refused =>
    rw [runTasks]
    simp only [written, refused]
  | branch bare refused =>
    rw [runTasks]
    simp only [bare]
    split
    · rename_i error own
      obtain rfl := Except.error.inj (refused.symm.trans own)
      rfl
    · rename_i tasks planned
      rw [refused] at planned
      contradiction
  | negate outside =>
    rw [runTasks_negate, outside]
    rfl
  | combine refused =>
    rw [runTasks_combine, refused]
    rfl

/-- The first task finds its operands. -/
theorem Supplied.enough {values : List Int} {task : Task} {pending : List Task}
    (supplied : Supplied ⟨values, task :: pending⟩) : task.operands ≤ values.length := by
  by_contra short
  rw [Supplied, countAfter?, if_neg short] at supplied
  contradiction

/-- A task that finds its operands is done, unless it fails over them. -/
theorem Supplied.turn_or_ends (supplied : bench.Supplied) :
    (∃ next, Turn bench next) ∨ ∃ result, Ends bench result := by
  obtain ⟨values, pending⟩ := bench
  cases pending with
  | nil =>
    obtain ⟨value, rfl⟩ := List.length_eq_one_iff.mp (Option.some.inj supplied)
    exact .inr ⟨_, .done value⟩
  | cons task pending =>
    have enough := supplied.enough
    cases task with
    | compute node =>
      obtain ⟨label, children⟩ := node
      cases written : label.text with
      | some text =>
        cases read : tokenValue label text with
        | ok value => exact .inl ⟨_, .token written read⟩
        | error error => exact .inr ⟨_, .token written read⟩
      | none =>
        cases planned : branchTasks label children with
        | ok tasks => exact .inl ⟨_, .branch written planned⟩
        | error error => exact .inr ⟨_, .branch written planned⟩
    | negate label =>
      rcases values with _ | ⟨operand, values⟩
      · contradiction
      · cases inside : checked label.line (-operand) with
        | ok value => exact .inl ⟨_, .negate inside⟩
        | error error => exact .inr ⟨_, .negate inside⟩
    | combine operator label =>
      rcases values with _ | ⟨right, _ | ⟨left, values⟩⟩
      · contradiction
      · contradiction
      · cases applied : operator.apply label.line left right with
        | ok value => exact .inl ⟨_, .combine applied⟩
        | error error => exact .inr ⟨_, .combine applied⟩

/-- Tasks that are supplied are done up to an end, which is that of carrying them out. Induct on
how much they leave to be done. -/
theorem Supplied.reaches_end (supplied : bench.Supplied) (root : Label) :
    ∃ last, Reaches bench last ∧ Ends last (runTasks root bench.values bench.pending) := by
  generalize weight : Task.weightAll bench.pending = work
  induction work using Nat.strongRecOn generalizing bench with
  | ind work inductionHypothesis =>
    rcases supplied.turn_or_ends with ⟨next, turn⟩ | ⟨result, ends⟩
    · obtain ⟨last, reached, ends⟩ :=
        inductionHypothesis _ (weight ▸ turn.lighter) (turn.supplied supplied) rfl
      rw [turn.runTasks_eq root]
      exact ⟨last, .head turn reached, ends⟩
    · rw [ends.runTasks_eq root]
      exact ⟨bench, .refl, ends⟩

/-- Tasks stay supplied while they are done. -/
theorem Supplied.of_reaches (supplied : bench.Supplied) (reached : Reaches bench next) :
    next.Supplied := by
  induction reached with
  | refl => exact supplied
  | tail _ turn inductionHypothesis => exact turn.supplied inductionHypothesis

/-- A task that is supplied finds its operands, and one value is left if there is no task. -/
theorem Supplied.found (supplied : bench.Supplied) :
    (bench.pending = [] → bench.values.length = 1) ∧
      ∀ task ∈ bench.pending.head?, task.operands ≤ bench.values.length := by
  obtain ⟨values, pending⟩ := bench
  cases pending with
  | nil => exact ⟨fun _ => Option.some.inj supplied, nofun⟩
  | cons own pending =>
    refine ⟨nofun, fun task first => ?_⟩
    obtain rfl := Option.some.inj first
    exact supplied.enough

end Workbench

/-- There is no endless sequence of turns. -/
theorem Workbench.turn_wellFounded : WellFounded fun next bench : Workbench => bench.Turn next :=
  Subrelation.wf Workbench.Turn.lighter
    (InvImage.wf (fun bench : Workbench => Task.weightAll bench.pending) Nat.lt_wfRel.wf)

/-- Evaluation of any tree finds the value that the rules give to it, and that one only. It gets
there by doing task after task, which cannot go on for ever: the last turn leaves one value, or a
task fails over what a node says. Before each task the operands that it takes are there, and one
value is there when no task is left. -/
theorem evaluation_follows_rules (root : Node) :
    (∀ result, evaluate root = result ↔ HasValue root result) ∧
      (WellFounded fun next bench : Workbench => bench.Turn next) ∧
      (∃ last, Workbench.Reaches (.begin root) last ∧ last.Ends (evaluate root)) ∧
      ∀ bench, Workbench.Reaches (.begin root) bench →
        (bench.pending = [] → bench.values.length = 1) ∧
          ∀ task ∈ bench.pending.head?, task.operands ≤ bench.values.length := by
  have supplied : (Workbench.begin root).Supplied := rfl
  refine ⟨fun result => HasValue.iff_evaluate, Workbench.turn_wellFounded, ?_, ?_⟩
  · exact supplied.reaches_end root.label
  · exact fun bench reached => (supplied.of_reaches reached).found

end TableDriven.Calculator
