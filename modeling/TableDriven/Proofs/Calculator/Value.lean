import TableDriven.Calculator.Evaluate

/-!
# Values by recursion

Evaluation keeps a list of tasks and a list of values. What it computes is what a
recursion over the tree computes: the value of a branch comes from those of its
children, and of two faults the one further to the left is reported.
-/

namespace TableDriven.Calculator

/-- The value of a branch, from those of its children. -/
def branchValue (label : Label) (operands : List (Except CalculatorError Int)) :
    Except CalculatorError Int :=
  match Form.ofRule? label.id, operands with
  | some (.binary operator), left :: _ :: right :: _ =>
    left.bind fun left => right.bind fun right => operator.apply label.line left right
  | some .first, only :: _ => only
  | some .second, _ :: inner :: _ => inner
  | some .negated, _ :: operand :: _ => operand.bind fun value => checked label.line (-value)
  | some .recovered, _ => .error (.recovered label.line)
  | _, _ => .error (unexpected label)

mutual

/-- The value of a tree. -/
def valueOf : Node → Except CalculatorError Int
  | ⟨label, children⟩ =>
    match label.text with
    | some text => tokenValue label text
    | none => branchValue label (valuesOf children)

/-- The values of several trees. -/
def valuesOf : List Node → List (Except CalculatorError Int)
  | [] => []
  | node :: rest => valueOf node :: valuesOf rest

end

/-- The value of a token. -/
theorem valueOf_leaf (id : Nat) (name : String) (line : Nat) (text : String) :
    valueOf (Node.leaf id name line text) = tokenValue ⟨id, name, line, some text⟩ text := by
  rw [Node.leaf, valueOf]

/-- The value of a branch comes from those of its children. -/
theorem valueOf_branch (id : Nat) (name : String) (line : Nat) (children : List Node) :
    valueOf (Node.branch id name line children) =
      branchValue ⟨id, name, line, none⟩ (valuesOf children) := by
  rw [Node.branch, valueOf]

/-- Changing a sign replaces the latest value. -/
theorem runTasks_negate (root label : Label) (value : Int) (values : List Int)
    (pending : List Task) :
    runTasks root (value :: values) (.negate label :: pending) =
      (checked label.line (-value)).bind fun value => runTasks root (value :: values) pending := by
  rw [runTasks]
  cases checked label.line (-value) <;> rfl

/-- An operator replaces the two latest values. -/
theorem runTasks_combine (root : Label) (operator : Operator) (label : Label) (left right : Int)
    (values : List Int) (pending : List Task) :
    runTasks root (right :: left :: values) (.combine operator label :: pending) =
      (operator.apply label.line left right).bind fun value =>
        runTasks root (value :: values) pending := by
  rw [runTasks]
  cases operator.apply label.line left right <;> rfl

/-- A branch that is refused has no value. -/
theorem branchValue_of_refused {label : Label} {children : List Node} {error : CalculatorError}
    (refused : branchTasks label children = .error error) :
    branchValue label (valuesOf children) = .error error := by
  unfold branchTasks at refused
  unfold branchValue
  generalize Form.ofRule? label.id = form at refused ⊢
  -- A branch lacks an operand in the same cases whether operands are trees or values.
  rcases form with _ | (_ | _ | _ | _ | _) <;>
    rcases children with _ | ⟨_, _ | ⟨_, _ | ⟨_, _⟩⟩⟩ <;>
    simp_all [valuesOf]

/-- Computing the value of a tree puts it in front of the values computed before. Induct
on the tree: its tasks compute the values of children. -/
theorem runTasks_compute (root : Label) (node : Node) (values : List Int) (pending : List Task) :
    runTasks root values (.compute node :: pending) =
      (valueOf node).bind fun value => runTasks root (value :: values) pending := by
  induction node using Node.children_induction generalizing values pending with
  | combine label children inductionHypothesis =>
    rw [runTasks, valueOf]
    cases label.text with
    | some text =>
      dsimp only
      cases tokenValue label text with
      | error error => rfl
      | ok value => rfl
    | none =>
      dsimp only
      split
      · rename_i error refused
        rw [branchValue_of_refused refused]
        rfl
      · rename_i tasks planned
        unfold branchTasks at planned
        split at planned
        · rename_i operator left middle right others form
          obtain rfl := Except.ok.inj planned
          simp only [branchValue, valuesOf, form, List.cons_append, List.nil_append]
          rw [inductionHypothesis left (by simp)]
          cases valueOf left with
          | error error => rfl
          | ok first =>
            simp only [Except.bind]
            rw [inductionHypothesis right (by simp)]
            cases valueOf right with
            | error error => rfl
            | ok second => exact runTasks_combine root operator label first second values pending
        · rename_i only others form
          obtain rfl := Except.ok.inj planned
          simp only [branchValue, valuesOf, form, List.cons_append, List.nil_append]
          exact inductionHypothesis only (by simp) values pending
        · rename_i before inner others form
          obtain rfl := Except.ok.inj planned
          simp only [branchValue, valuesOf, form, List.cons_append, List.nil_append]
          exact inductionHypothesis inner (by simp) values pending
        · rename_i before operand others form
          obtain rfl := Except.ok.inj planned
          simp only [branchValue, valuesOf, form, List.cons_append, List.nil_append]
          rw [inductionHypothesis operand (by simp)]
          cases valueOf operand with
          | error error => rfl
          | ok value => exact runTasks_negate root label value values pending
        · contradiction
        · contradiction

/-- Evaluation computes the value of the tree. -/
theorem evaluate_eq_valueOf (root : Node) : evaluate root = valueOf root := by
  rw [evaluate, runTasks_compute]
  cases valueOf root with
  | error error => rfl
  | ok value =>
    change runTasks root.label [value] [] = .ok value
    rw [runTasks]

end TableDriven.Calculator
