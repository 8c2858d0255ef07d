import PiecewiseLinear.Main
import PiecewiseLinear.Proofs.Definition.Print
import PiecewiseLinear.Proofs.Double.Negation
import PiecewiseLinear.Proofs.Double.Order
import PiecewiseLinear.Proofs.Double.Real
import PiecewiseLinear.Proofs.Evaluation.Column
import PiecewiseLinear.Proofs.Evaluation.Extremum
import PiecewiseLinear.Proofs.Evaluation.Run
import PiecewiseLinear.Proofs.Except
import PiecewiseLinear.Proofs.Formula.Affine
import PiecewiseLinear.Proofs.Formula.Degree
import PiecewiseLinear.Proofs.Formula.Linear
import PiecewiseLinear.Proofs.Guard.Comparison
import PiecewiseLinear.Proofs.Guard.Joining
import PiecewiseLinear.Proofs.Guard.Line
import PiecewiseLinear.Proofs.Guard.Region
import PiecewiseLinear.Proofs.Json.Number
import PiecewiseLinear.Proofs.Json.Reader
import PiecewiseLinear.Proofs.Number.Decimal
import PiecewiseLinear.Proofs.Number.Literal
import PiecewiseLinear.Proofs.Number.Nearest
import PiecewiseLinear.Proofs.Number.Print
import PiecewiseLinear.Proofs.Number.Rounding
import PiecewiseLinear.Proofs.Piecewise.Acceptance
import PiecewiseLinear.Proofs.Piecewise.Assembly
import PiecewiseLinear.Proofs.Piecewise.Build
import PiecewiseLinear.Proofs.Piecewise.Compile
import PiecewiseLinear.Proofs.Piecewise.Renaming
import PiecewiseLinear.Proofs.Piecewise.Reordering
import PiecewiseLinear.Proofs.Piecewise.Wording
import PiecewiseLinear.Proofs.Region.Canonical
import PiecewiseLinear.Proofs.Region.Cut
import PiecewiseLinear.Proofs.Region.Segment
import PiecewiseLinear.Proofs.Region.SetOperations
import PiecewiseLinear.Proofs.Region.Sweep
import PiecewiseLinear.Proofs.Region.Text
import PiecewiseLinear.Proofs.Report
import PiecewiseLinear.Proofs.Report.Domains
import PiecewiseLinear.Proofs.Script.Attempt
import PiecewiseLinear.Proofs.Script.Completeness
import PiecewiseLinear.Proofs.Script.Depth
import PiecewiseLinear.Proofs.Script.ErrorPosition
import PiecewiseLinear.Proofs.Script.Expr
import PiecewiseLinear.Proofs.Script.Gaps
import PiecewiseLinear.Proofs.Script.Image
import PiecewiseLinear.Proofs.Script.Layout
import PiecewiseLinear.Proofs.Script.Level
import PiecewiseLinear.Proofs.Script.Lexeme
import PiecewiseLinear.Proofs.Script.Parentheses
import PiecewiseLinear.Proofs.Script.Piece
import PiecewiseLinear.Proofs.Script.Print
import PiecewiseLinear.Proofs.Script.Progress
import PiecewiseLinear.Proofs.Script.Remainder
import PiecewiseLinear.Proofs.Script.RoundTrip
import PiecewiseLinear.Proofs.Script.Soundness
import PiecewiseLinear.Proofs.Script.Statement
import PiecewiseLinear.Proofs.Script.Steps
import PiecewiseLinear.Proofs.Script.Termination
import PiecewiseLinear.Proofs.Script.Walk
import PiecewiseLinear.Proofs.Script.Written
import PiecewiseLinear.Proofs.Text.Parts
import PiecewiseLinear.Proofs.Text.Position
