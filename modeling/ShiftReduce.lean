import ShiftReduce.Arithmetic.Environment
import ShiftReduce.Arithmetic.Expr.Basic
import ShiftReduce.Arithmetic.Expr.Equality
import ShiftReduce.Arithmetic.Expr.Fold
import ShiftReduce.Arithmetic.Expr.Text
import ShiftReduce.Arithmetic.Expr.Value
import ShiftReduce.Arithmetic.Failure
import ShiftReduce.Arithmetic.Grammar
import ShiftReduce.Arithmetic.Operator
import ShiftReduce.Arithmetic.Scanner
import ShiftReduce.Arithmetic.Session
import ShiftReduce.Arithmetic.Symbol
import ShiftReduce.Arithmetic.Table
import ShiftReduce.Command.Options
import ShiftReduce.Command.Run
import ShiftReduce.Decimal.Binary64
import ShiftReduce.Decimal.Layout
import ShiftReduce.Decimal.Numeral
import ShiftReduce.Decimal.Rounding
import ShiftReduce.Decimal.Shortest
import ShiftReduce.Diagnostic
import ShiftReduce.Grammar.Basic
import ShiftReduce.Grammar.Rows
import ShiftReduce.Journal
import ShiftReduce.Machine.Analysis
import ShiftReduce.Machine.Event
import ShiftReduce.Machine.Run
import ShiftReduce.Machine.Step
import ShiftReduce.Main
import ShiftReduce.Source.Basic
import ShiftReduce.Source.Queue
import ShiftReduce.Source.Script
import ShiftReduce.Text.Blank
import ShiftReduce.Text.Cursor
import ShiftReduce.Text.Span
import ShiftReduce.Token
import ShiftReduce.Proofs.Arithmetic.Acceptance
import ShiftReduce.Proofs.Arithmetic.Agreement
import ShiftReduce.Proofs.Arithmetic.Arguments
import ShiftReduce.Proofs.Arithmetic.Canonical
import ShiftReduce.Proofs.Arithmetic.Consistency
import ShiftReduce.Proofs.Arithmetic.Counters
import ShiftReduce.Proofs.Arithmetic.Derivation
import ShiftReduce.Proofs.Arithmetic.Draft
import ShiftReduce.Proofs.Arithmetic.Exhaustion
import ShiftReduce.Proofs.Arithmetic.Lexing
import ShiftReduce.Proofs.Arithmetic.Lookahead
import ShiftReduce.Proofs.Arithmetic.Numerals
import ShiftReduce.Proofs.Arithmetic.OnDemand
import ShiftReduce.Proofs.Arithmetic.Partition
import ShiftReduce.Proofs.Arithmetic.Pointing
import ShiftReduce.Proofs.Arithmetic.Progress
import ShiftReduce.Proofs.Arithmetic.Reading
import ShiftReduce.Proofs.Arithmetic.Rebinding
import ShiftReduce.Proofs.Arithmetic.Recovery
import ShiftReduce.Proofs.Arithmetic.Remarks
import ShiftReduce.Proofs.Arithmetic.Rereading
import ShiftReduce.Proofs.Arithmetic.RoundTrip
import ShiftReduce.Proofs.Arithmetic.Sameness
import ShiftReduce.Proofs.Arithmetic.Simulation
import ShiftReduce.Proofs.Arithmetic.Spacing
import ShiftReduce.Proofs.Arithmetic.Spelling
import ShiftReduce.Proofs.Arithmetic.Stacks
import ShiftReduce.Proofs.Arithmetic.Stray
import ShiftReduce.Proofs.Arithmetic.Survivors
import ShiftReduce.Proofs.Arithmetic.Traversal
import ShiftReduce.Proofs.Arithmetic.Valuation
import ShiftReduce.Proofs.Arithmetic.Viability
import ShiftReduce.Proofs.Arithmetic.Work
import ShiftReduce.Proofs.Command.Streams
import ShiftReduce.Proofs.Decimal.Display
import ShiftReduce.Proofs.Decimal.Double
import ShiftReduce.Proofs.Decimal.Legible
import ShiftReduce.Proofs.Decimal.Nearest
import ShiftReduce.Proofs.Decimal.Shortest
import ShiftReduce.Proofs.Machine.Chronicle
import ShiftReduce.Proofs.Machine.Conservation
import ShiftReduce.Proofs.Machine.Costs
import ShiftReduce.Proofs.Machine.Discipline
import ShiftReduce.Proofs.Machine.Effect
import ShiftReduce.Proofs.Machine.History
import ShiftReduce.Proofs.Machine.Likeness
import ShiftReduce.Proofs.Machine.Modes
import ShiftReduce.Proofs.Machine.Origins
import ShiftReduce.Proofs.Machine.Shape
import ShiftReduce.Proofs.Machine.Walk
import ShiftReduce.Proofs.Machine.Yield
import ShiftReduce.Proofs.Text.Hull
import ShiftReduce.Proofs.Text.Lines
import ShiftReduce.Proofs.Text.Place
