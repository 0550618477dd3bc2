import ExactCalc.Datum
import ExactCalc.Decimal.Literal
import ExactCalc.Decimal.Shortest
import ExactCalc.Expr.Basic
import ExactCalc.Expr.Printer
import ExactCalc.Expr.Reader
import ExactCalc.Failure
import ExactCalc.Formula.Bracket
import ExactCalc.Formula.Grammar
import ExactCalc.Formula.Grouping
import ExactCalc.Formula.Shape
import ExactCalc.Formula.Validity
import ExactCalc.Main
import ExactCalc.Operator
import ExactCalc.Session
import ExactCalc.Text.Blank
import ExactCalc.Text.Line
import ExactCalc.Text.Numeral
import ExactCalc.Text.Word
import ExactCalc.Text.WordRanges
import ExactCalc.Proofs.Balance
import ExactCalc.Proofs.Derivation
import ExactCalc.Proofs.Acceptance
import ExactCalc.Proofs.Regrouping
import ExactCalc.Proofs.Precedence
import ExactCalc.Proofs.Nesting
import ExactCalc.Proofs.Parsing
import ExactCalc.Proofs.OnePass
import ExactCalc.Proofs.RoundTrip
import ExactCalc.Proofs.Enclosing
import ExactCalc.Proofs.Rejection
import ExactCalc.Proofs.Language
import ExactCalc.Proofs.Pairing
import ExactCalc.Proofs.Idempotence
import ExactCalc.Proofs.Levels
import ExactCalc.Proofs.Grouped
import ExactCalc.Proofs.Substitution
import ExactCalc.Proofs.Recall
import ExactCalc.Proofs.Adjacency
import ExactCalc.Proofs.Stability
import ExactCalc.Proofs.Stages
import ExactCalc.Proofs.Deletion
import ExactCalc.Proofs.Partners
import ExactCalc.Proofs.Culprit
import ExactCalc.Proofs.Traversal
import ExactCalc.Proofs.Divisors
import ExactCalc.Proofs.Completion
import ExactCalc.Proofs.Visits
import ExactCalc.Proofs.Frames
import ExactCalc.Proofs.Redundant
import ExactCalc.Proofs.Spans
import ExactCalc.Proofs.Encoding
import ExactCalc.Proofs.Framing
import ExactCalc.Proofs.Words
import ExactCalc.Proofs.Positions
import ExactCalc.Proofs.Widening
import ExactCalc.Proofs.Bytes
