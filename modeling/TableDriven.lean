import TableDriven.CommandLine.FileTree
import TableDriven.Grammar.CharSetText
import TableDriven.Main
import TableDriven.Source.Faulty
import TableDriven.Tree.Preorder
import TableDriven.Proofs.Grammar.WellFormed
import TableDriven.Proofs.Parsing.Effect
import TableDriven.Proofs.Parsing.Reachable
import TableDriven.Proofs.Parsing.StackPath
import TableDriven.Proofs.Calculator.Grammar
import TableDriven.Proofs.Parsing.Derivation
import TableDriven.Proofs.Parsing.Soundness
import TableDriven.Proofs.Lexing.Scanned
import TableDriven.Proofs.Parsing.Safety
import TableDriven.Proofs.Parsing.Trimming
import TableDriven.Proofs.Lexing.Progress
import TableDriven.Proofs.Parsing.Upcoming
import TableDriven.Proofs.Parsing.Yields
import TableDriven.Proofs.Parsing.Completeness
import TableDriven.Proofs.Parsing.Exactness
import TableDriven.Proofs.Calculator.Items
import TableDriven.Proofs.Calculator.Accepted
import TableDriven.Proofs.Parsing.Conservation
import TableDriven.Proofs.Lexing.Unrecognized
import TableDriven.Proofs.Parsing.Recovery
import TableDriven.Proofs.Parsing.Sturdy
import TableDriven.Proofs.Calculator.Operands
import TableDriven.Proofs.Calculator.Outcomes
import TableDriven.Proofs.Parsing.Departure
import TableDriven.Proofs.Calculator.Recovered
import TableDriven.Proofs.Parsing.Settling
import TableDriven.Proofs.Parsing.Resumption
import TableDriven.Proofs.Calculator.Termination
import TableDriven.Proofs.Parsing.Validated
import TableDriven.Proofs.Calculator.FirstError
import TableDriven.Proofs.Calculator.Printing
import TableDriven.Proofs.Parsing.Independence
import TableDriven.Proofs.Lexing.LongestMatch
import TableDriven.Proofs.Parsing.Phases
import TableDriven.Proofs.Calculator.Evaluation
import TableDriven.Proofs.Calculator.Layout
import TableDriven.Proofs.Calculator.Comments
import TableDriven.Proofs.Parsing.Ledger
import TableDriven.Proofs.Grammar.Violations
import TableDriven.Proofs.Parsing.Unwinding
import TableDriven.Proofs.Calculator.Totals
import TableDriven.Proofs.Lexing.Tiling
import TableDriven.Proofs.Parsing.Coverage
import TableDriven.Proofs.Source.Requests
import TableDriven.Proofs.Calculator.Display
import TableDriven.Proofs.Grammar.Membership
