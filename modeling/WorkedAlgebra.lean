import WorkedAlgebra.Calculation
import WorkedAlgebra.Catalog
import WorkedAlgebra.Evaluation
import WorkedAlgebra.Exchange
import WorkedAlgebra.Expr.Basic
import WorkedAlgebra.Expr.Fault
import WorkedAlgebra.Expr.Neighbours
import WorkedAlgebra.Expr.Parse
import WorkedAlgebra.Expr.Window
import WorkedAlgebra.Json.Basic
import WorkedAlgebra.Json.Lexeme
import WorkedAlgebra.Json.Lexer
import WorkedAlgebra.Json.Reader
import WorkedAlgebra.Json.Record
import WorkedAlgebra.Method.Binding
import WorkedAlgebra.Method.Elimination
import WorkedAlgebra.Method.Fault
import WorkedAlgebra.Method.MatrixArithmetic
import WorkedAlgebra.Method.Reduction
import WorkedAlgebra.Method.RowOp
import WorkedAlgebra.Method.ScalarArithmetic
import WorkedAlgebra.Method.Written
import WorkedAlgebra.Number.Binary64
import WorkedAlgebra.Number.Decimal
import WorkedAlgebra.Number.Numeral
import WorkedAlgebra.Operator
import WorkedAlgebra.Proofs.Calculation
import WorkedAlgebra.Proofs.Evaluation.Kinds
import WorkedAlgebra.Proofs.Evaluation.Mirror
import WorkedAlgebra.Proofs.Evaluation.Work
import WorkedAlgebra.Proofs.Exchange
import WorkedAlgebra.Proofs.Expr.Build
import WorkedAlgebra.Proofs.Expr.Checks
import WorkedAlgebra.Proofs.Expr.Contents
import WorkedAlgebra.Proofs.Expr.Grammar
import WorkedAlgebra.Proofs.Expr.Location
import WorkedAlgebra.Proofs.Expr.Nesting
import WorkedAlgebra.Proofs.Expr.Parts
import WorkedAlgebra.Proofs.Expr.Reading
import WorkedAlgebra.Proofs.Expr.Root
import WorkedAlgebra.Proofs.Json.Lexing
import WorkedAlgebra.Proofs.Json.Reading
import WorkedAlgebra.Proofs.Json.Record
import WorkedAlgebra.Proofs.Loop
import WorkedAlgebra.Proofs.Method.Canonical
import WorkedAlgebra.Proofs.Method.Change
import WorkedAlgebra.Proofs.Method.ColumnSpace
import WorkedAlgebra.Proofs.Method.Derivation
import WorkedAlgebra.Proofs.Method.Determinant
import WorkedAlgebra.Proofs.Method.Inverse
import WorkedAlgebra.Proofs.Method.MatrixArithmetic
import WorkedAlgebra.Proofs.Method.Note
import WorkedAlgebra.Proofs.Method.Pivot
import WorkedAlgebra.Proofs.Method.RowOperation
import WorkedAlgebra.Proofs.Method.RowReduction
import WorkedAlgebra.Proofs.Method.Singularity
import WorkedAlgebra.Proofs.Method.Solving
import WorkedAlgebra.Proofs.Method.Sweep
import WorkedAlgebra.Proofs.Method.Undefined
import WorkedAlgebra.Proofs.Stored.Arithmetic
import WorkedAlgebra.Proofs.Stored.Basic
import WorkedAlgebra.Proofs.Stored.Call
import WorkedAlgebra.Proofs.Stored.Derivation
import WorkedAlgebra.Proofs.Stored.Elimination
import WorkedAlgebra.Proofs.Stored.Sweep
import WorkedAlgebra.Proofs.Value.Entries
import WorkedAlgebra.Proofs.Value.Grid
import WorkedAlgebra.Proofs.Value.ReducedEchelon
import WorkedAlgebra.Proofs.Wire.Outcome
import WorkedAlgebra.Proofs.Wire.Token
import WorkedAlgebra.Proofs.Wire.Value
import WorkedAlgebra.Report
import WorkedAlgebra.Solution
import WorkedAlgebra.Stored.Arithmetic
import WorkedAlgebra.Stored.Basic
import WorkedAlgebra.Stored.Elimination
import WorkedAlgebra.Text.Blank
import WorkedAlgebra.Token
import WorkedAlgebra.Traced
import WorkedAlgebra.Value.Basic
import WorkedAlgebra.Value.Block
import WorkedAlgebra.Value.Display
import WorkedAlgebra.Value.Fault
import WorkedAlgebra.Value.Grid
import WorkedAlgebra.Value.RatMatrix
import WorkedAlgebra.Value.Scalar
import WorkedAlgebra.Wire.Catalog
import WorkedAlgebra.Wire.Outcome
import WorkedAlgebra.Wire.Solution
import WorkedAlgebra.Wire.Token
import WorkedAlgebra.Wire.Value
import WorkedAlgebra.Proofs.Json.Depth
import WorkedAlgebra.Proofs.Wire.Solution
import WorkedAlgebra.Proofs.Wire.Retrieval
import WorkedAlgebra.Proofs.Evaluation.Modes
import WorkedAlgebra.Proofs.Expr.Renaming
import WorkedAlgebra.Proofs.Evaluation.Bare
import WorkedAlgebra.Proofs.Arithmetic
import WorkedAlgebra.Proofs.Expr.Loosest
import WorkedAlgebra.Proofs.Expr.Moved
import WorkedAlgebra.Proofs.Expr.Groups
import WorkedAlgebra.Proofs.Expr.Enclosure
import WorkedAlgebra.Proofs.Method.Product
import WorkedAlgebra.Proofs.Method.Transposition
import WorkedAlgebra.Proofs.Method.Reduced
import WorkedAlgebra.Proofs.Method.Written
import WorkedAlgebra.Proofs.Number.Formula
import WorkedAlgebra.Proofs.Number.Grammar
import WorkedAlgebra.Proofs.Value.Block
import WorkedAlgebra.Proofs.Value.Cells
import WorkedAlgebra.Proofs.Stored.Algebra
import WorkedAlgebra.Proofs.Stored.Written
import WorkedAlgebra.Proofs.Evaluation.Count
import WorkedAlgebra.Proofs.Expr.Text
import WorkedAlgebra.Proofs.Value.Texts
import WorkedAlgebra.Proofs.Number.Decimal
import WorkedAlgebra.Expr.Span
import WorkedAlgebra.Proofs.Expr.Span
import WorkedAlgebra.Proofs.Expr.Room
