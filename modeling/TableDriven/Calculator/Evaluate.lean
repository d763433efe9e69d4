import TableDriven.Calculator.Error
import TableDriven.Calculator.Tables
import TableDriven.Tree.Basic

/-!
# Values of expressions

The value of a tree is computed with a list of tasks and a list of values, so it
does not matter how deep the tree is. A node either has a value, or is replaced
by the tasks that compute it. Left operands are evaluated first, so of two faults
the one further to the left is reported. A node that lacks an operand is refused
before any of its operands is looked at. Trees with and without trimming have
the same value, because the rules that trimming leaves out only pass a value on.
-/

namespace TableDriven.Calculator

/-- The operators between two operands. -/
inductive Operator where
  | add
  | subtract
  | multiply
  | divide
deriving DecidableEq, Repr

/-- How the value of a branch comes from those of its children. -/
inductive Form where
  /-- An operator between the first and the third child. -/
  | binary (operator : Operator)
  /-- The value of the first child. -/
  | first
  /-- The value of the second child. -/
  | second
  /-- The second child with its sign changed. -/
  | negated
  /-- None; a syntax error was recovered from here. -/
  | recovered
deriving DecidableEq, Repr

/-- The form that goes with each rule. -/
def Form.ofRule? : Nat → Option Form
  | Rules.add => some (.binary .add)
  | Rules.subtract => some (.binary .subtract)
  | Rules.exprOfTerm => some .first
  | Rules.multiply => some (.binary .multiply)
  | Rules.divide => some (.binary .divide)
  | Rules.termOfFactor => some .first
  | Rules.number => some .first
  | Rules.parenthesized => some .second
  | Rules.negate => some .negated
  | Rules.error => some .recovered
  | _ => none

/-- Refuse a node. -/
def unexpected (label : Label) : CalculatorError := .unexpectedNode label.name label.line

/-- Refuse a value that is out of range. -/
def checked (line : Nat) (value : Int) : Except CalculatorError Int :=
  match inRange? value with
  | some value => .ok value
  | none => .error (.overflow line)

/-- Apply an operator. Division drops the fraction. -/
def Operator.apply (operator : Operator) (line : Nat) (left right : Int) :
    Except CalculatorError Int :=
  match operator with
  | .add => checked line (left + right)
  | .subtract => checked line (left - right)
  | .multiply => checked line (left * right)
  | .divide =>
    if right = 0 then .error (.divisionByZero line) else checked line (left.tdiv right)

/-- The value of a node with text: a number has one. -/
def tokenValue (label : Label) (text : String) : Except CalculatorError Int :=
  if label.id = Symbols.number then (readLiteral text).mapError CalculatorError.literal
  else if label.id = Symbols.error then .error (.recovered label.line)
  else .error (unexpected label)

/-- Something to be done with the values computed so far. -/
inductive Task where
  /-- Compute the value of a tree. -/
  | compute (node : Node)
  /-- Change the sign of the latest value. -/
  | negate (label : Label)
  /-- Apply an operator to the two latest values. -/
  | combine (operator : Operator) (label : Label)

/-- How much a task leaves to be done. -/
def Task.weight : Task → Nat
  | .compute node => 2 * node.size
  | .negate _ => 1
  | .combine _ _ => 1

/-- How much tasks leave to be done together. -/
def Task.weightAll : List Task → Nat
  | [] => 0
  | task :: rest => task.weight + Task.weightAll rest

/-- What is left to be done adds up. -/
theorem Task.weightAll_append (before after : List Task) :
    Task.weightAll (before ++ after) = Task.weightAll before + Task.weightAll after := by
  induction before with
  | nil => simp [Task.weightAll]
  | cons task rest inductionHypothesis =>
    simp [Task.weightAll, inductionHypothesis, Nat.add_assoc]

/-- The tasks that compute the value of a branch. -/
def branchTasks (label : Label) (children : List Node) : Except CalculatorError (List Task) :=
  match Form.ofRule? label.id, children with
  | some (.binary operator), left :: _ :: right :: _ =>
    .ok [.compute left, .compute right, .combine operator label]
  | some .first, only :: _ => .ok [.compute only]
  | some .second, _ :: inner :: _ => .ok [.compute inner]
  | some .negated, _ :: operand :: _ => .ok [.compute operand, .negate label]
  | some .recovered, _ => .error (.recovered label.line)
  | _, _ => .error (unexpected label)

/-- The tasks of a branch leave less to be done than its tree. -/
theorem Task.weightAll_branchTasks {label : Label} {children : List Node} {tasks : List Task}
    (planned : branchTasks label children = .ok tasks) :
    Task.weightAll tasks < 2 * (Node.sizeAll children + 1) := by
  unfold branchTasks at planned
  split at planned <;> simp only [Except.ok.injEq, reduceCtorEq] at planned <;> subst planned <;>
    simp only [Task.weightAll, Task.weight, Node.sizeAll] <;> omega

/-- Carry out tasks. One value is left over when all is done. -/
def runTasks (root : Label) (values : List Int) : List Task → Except CalculatorError Int
  | [] =>
    match values with
    | [value] => .ok value
    | _ => .error (unexpected root)
  | .compute ⟨label, children⟩ :: pending =>
    match label.text with
    | some text =>
      match tokenValue label text with
      | .error error => .error error
      | .ok value => runTasks root (value :: values) pending
    | none =>
      match _planned : branchTasks label children with
      | .error error => .error error
      | .ok tasks => runTasks root values (tasks ++ pending)
  | .negate label :: pending =>
    match values with
    | operand :: values =>
      match checked label.line (-operand) with
      | .error error => .error error
      | .ok value => runTasks root (value :: values) pending
    | [] => .error (unexpected label)
  | .combine operator label :: pending =>
    match values with
    | right :: left :: values =>
      match operator.apply label.line left right with
      | .error error => .error error
      | .ok value => runTasks root (value :: values) pending
    | _ => .error (unexpected label)
termination_by pending => Task.weightAll pending
decreasing_by
  · simp only [Task.weightAll, Task.weight, Node.size]
    omega
  · have lighter := Task.weightAll_branchTasks _planned
    simp only [Task.weightAll_append, Task.weightAll, Task.weight, Node.size]
    omega
  · simp only [Task.weightAll, Task.weight]
    omega
  · simp only [Task.weightAll, Task.weight]
    omega

/-- The value of an expression. -/
def evaluate (root : Node) : Except CalculatorError Int :=
  runTasks root.label [] [.compute root]

end TableDriven.Calculator
