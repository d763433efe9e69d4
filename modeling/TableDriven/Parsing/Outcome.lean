import TableDriven.Grammar.Basic
import TableDriven.Source.Basic
import TableDriven.Text.Quoted

/-!
# Outcomes

A parse ends with a tree, with an error that says what is wrong with the input,
its source or the tables, or with a defect. Or it does not end within the steps
it was given. The four are kept apart: an error is an answer about the input, a
defect and a lack of steps are not.
-/

namespace TableDriven

/-- How the tables led the automaton into a configuration they do not describe. -/
inductive TableFault where
  /-- A rule with a body of `needed` symbols was reduced above `held` entries. -/
  | shortStack (rule : RuleId) (needed held : Nat)
  /-- A rule was reduced over an entry that carries no tree. -/
  | missingNode (rule : RuleId) (name : String)
  /-- A state offers something else than a transition on the head of a rule. -/
  | missingGoto (state : LalrStateId) (found : Option Action) (name : String)
deriving DecidableEq, Repr

/-- How the fault texts write an action. -/
def Action.title : Action → String
  | .shift target => s!"Shift(LalrStateID({target}))"
  | .goto target => s!"Goto(LalrStateID({target}))"
  | .reduce rule => s!"Reduce(RuleID({rule}))"
  | .accept => "Accept"
  | .error => "Error"

/-- The text of a fault. -/
def TableFault.message : TableFault → String
  | .shortStack rule needed held => s!"rule {rule} needs {needed} entries, stack holds {held}"
  | .missingNode rule name => s!"rule {rule} pops <{name}>, which carries no syntax node"
  | .missingGoto state found name =>
    let found := match found with
      | some action => s!"Some({action.title})"
      | none => "None"
    s!"state {state} has {found} instead of a goto on <{name}>"

/-- Why a parse ended without a tree. -/
inductive ParseError where
  /-- Text that is no token. -/
  | lexical (line : Nat) (lexeme : String)
  /-- A token for which the automaton has no action. -/
  | unexpected (line : Nat) (found : String) (expected : List String)
  /-- Recovery found no state to go on from. -/
  | unrecoverable (line : Nat)
  /-- The input ended inside a comment. -/
  | unterminatedComment (line : Nat)
  /-- The tables are at odds with themselves. -/
  | malformedTable (fault : TableFault)
  /-- The source refused a request. -/
  | source (error : SourceError)
deriving DecidableEq, Repr

namespace ParseError

/-- The text of an error. -/
def message : ParseError → String
  | .lexical line lexeme => s!"lexical error at line {line}: unexpected {Text.quoted lexeme}"
  | .unexpected line found expected =>
    s!"syntax error at line {line}: unexpected {found}, "
      ++ s!"expected one of {Text.quotedList expected}"
  | .unrecoverable line => s!"unrecoverable syntax error at line {line}"
  | .unterminatedComment line => s!"end of input inside block comment (line {line})"
  | .malformedTable fault => s!"malformed parse table: {fault.message}"
  | .source error => s!"source error: {error.message}"

/-- The line an error was found on, if it was found in the input. -/
def line : ParseError → Option Nat
  | .lexical line _ => some line
  | .unexpected line _ _ => some line
  | .unrecoverable line => some line
  | .unterminatedComment line => some line
  | .malformedTable _ => none
  | .source _ => none

end ParseError

/-- Why a parse cannot go on. -/
inductive Halt where
  | error (error : ParseError)
  | defect (defect : Defect)
deriving DecidableEq, Repr

/-- What became of a computation that may fail, may reveal a defect, and may
need more steps than it was given. -/
inductive Outcome (ε α : Type) where
  | done (value : α)
  | failed (error : ε)
  | broken (defect : Defect)
  | unfinished
deriving DecidableEq, Repr

namespace Outcome

variable {ε φ α β : Type}

/-- The outcome of a computation that ended. -/
def ofResult : Except Halt α → Outcome ParseError α
  | .ok value => .done value
  | .error (.error error) => .failed error
  | .error (.defect defect) => .broken defect

/-- Restate the error. -/
def mapError (restate : ε → φ) : Outcome ε α → Outcome φ α
  | .done value => .done value
  | .failed error => .failed (restate error)
  | .broken defect => .broken defect
  | .unfinished => .unfinished

/-- Go on from a value. -/
def andThen (outcome : Outcome ε α) (next : α → Except ε β) : Outcome ε β :=
  match outcome with
  | .done value =>
    match next value with
    | .ok result => .done result
    | .error error => .failed error
  | .failed error => .failed error
  | .broken defect => .broken defect
  | .unfinished => .unfinished

end Outcome

end TableDriven
