import Erl.Bisection
import Erl.CallingPoint
import Erl.Cell
import Erl.Clock
import Erl.Code.Basic
import Erl.Code.Parser
import Erl.Code.Statement
import Erl.Controller.Basic
import Erl.Controller.Declare
import Erl.Controller.Lowering
import Erl.Controller.Run
import Erl.Curve
import Erl.Decimal.Numeral
import Erl.Decimal.Shortest
import Erl.Decimal.Text
import Erl.Exchange
import Erl.Expr.Basic
import Erl.Expr.Fault
import Erl.Expr.Parser
import Erl.Log
import Erl.Machine.Basic
import Erl.Machine.Evaluate
import Erl.Machine.Execute
import Erl.Machine.Operator
import Erl.Model.Basic
import Erl.Model.Document
import Erl.Model.Problem
import Erl.MoistAir.Relation
import Erl.MoistAir.Saturation
import Erl.Name
import Erl.Number.Binary
import Erl.Number.Integral
import Erl.Operation.Builtin
import Erl.Operation.Catalog
import Erl.Operation.Operator
import Erl.Proofs.Code.Block
import Erl.Proofs.Code.Builder
import Erl.Proofs.Code.Grammar
import Erl.Proofs.Code.Matching
import Erl.Proofs.Code.Target
import Erl.Proofs.Code.Tree
import Erl.Proofs.Controller.Compile
import Erl.Proofs.Controller.Lowering
import Erl.Proofs.Controller.Naming
import Erl.Proofs.Controller.Reachable
import Erl.Proofs.Controller.Refinement
import Erl.Proofs.Controller.Termination
import Erl.Proofs.Expr.Arity
import Erl.Proofs.Machine.Change
import Erl.Proofs.Machine.Compiled
import Erl.Proofs.Machine.Exec
import Erl.Proofs.Machine.Forest
import Erl.Proofs.Machine.Meaning
import Erl.Proofs.Machine.Simulation
import Erl.Proofs.Machine.Structured
import Erl.Proofs.Machine.Termination
import Erl.Proofs.Machine.Walk
import Erl.Routine.Basic
import Erl.Routine.Generator
import Erl.Routine.Refusal
import Erl.Scalar
import Erl.Settings
import Erl.Settings.Document
import Erl.Store
import Erl.Text.Fold
import Erl.Text.Letter
import Erl.Text.Line
import Erl.Token.Basic
import Erl.Token.Lexer
import Erl.Toml.Basic
import Erl.Toml.Document
import Erl.Toml.Moment
import Erl.Toml.Reading
import Erl.Toml.Table
import Erl.Toml.Text
import Erl.Toml.Word
import Erl.Trend
import Erl.Value
import Erl.Proofs.Controller.Halt
import Erl.Proofs.Machine.Checked
import Erl.Proofs.Controller.InRange
import Erl.Proofs.Controller.WellFormed
import Erl.Proofs.Controller.Ties
import Erl.Proofs.Controller.Protection
import Erl.Proofs.Controller.WriteBack
import Erl.Proofs.Controller.Replay
import Erl.Proofs.Controller.InPlace
import Erl.Proofs.Model.Refused
import Erl.Proofs.Controller.Reached
import Erl.Proofs.Machine.Renaming
import Erl.Proofs.Controller.ByName
import Erl.Proofs.Controller.Alike
import Erl.Proofs.Controller.Settled
import Erl.Proofs.Controller.InStep
import Erl.Proofs.Controller.Recompile
import Erl.Proofs.Expr.Precedence
import Erl.Proofs.Expr.Printing
import Erl.Proofs.Controller.Session
import Erl.Proofs.Expr.Respelling
import Erl.Proofs.Code.Respelling
import Erl.Proofs.Controller.LetterCase
import Erl.Proofs.Controller.Observation
import Erl.Proofs.Controller.Lasting
import Erl.Proofs.Controller.Links
import Erl.Proofs.Controller.Catalogs
import Erl.Proofs.Controller.TrendHistory
import Erl.Proofs.Machine.Footprint
import Erl.Proofs.Machine.Independence
import Erl.Proofs.Controller.Commuting
import Erl.Proofs.Routine
import Erl.Proofs.Machine.Breakdown
import Erl.Proofs.Controller.Safety
import Erl.Proofs.Machine.Course
import Erl.Proofs.Controller.Limits
import Erl.Proofs.Controller.RunFrame
import Erl.Proofs.Controller.Acceptance
import Erl.Proofs.Decimal.Numeral
import Erl.Proofs.Token.Spelling
import Erl.Proofs.Token.Scan
import Erl.Proofs.Token.Line
import Erl.Proofs.Number.Finite
import Erl.Proofs.Controller.Places
import Erl.Proofs.Controller.ReadBack
import Erl.Proofs.Controller.Leak
import Erl.Proofs.Controller.Overflow
import Erl.Proofs.Trend
import Erl.Proofs.Text.Fold
import Erl.Proofs.Text.Line
import Erl.Proofs.Controller.Lookup
import Erl.Proofs.Code.Rows
import Erl.Proofs.Code.Layout
import Erl.Proofs.Expr.Lookahead
import Erl.Proofs.Code.Offence
import Erl.Proofs.Code.ErrorPlace
import Erl.Proofs.Scalar
import Erl.Proofs.Trend.Direction
import Erl.Proofs.Curve
import Erl.Proofs.MoistAir
import Erl.Proofs.Store.Index
import Erl.Proofs.Expr.Cursor
import Erl.Proofs.Expr.Progress
import Erl.Proofs.Bisection
