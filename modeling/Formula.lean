import Formula.Cache
import Formula.Closure.Arguments
import Formula.Closure.Basic
import Formula.Closure.Gradient
import Formula.Closure.Prepared
import Formula.Closure.Use
import Formula.Double.Arithmetic
import Formula.Double.Basic
import Formula.Double.Decimal
import Formula.Double.Elementary
import Formula.Double.Magnitude
import Formula.Double.Text
import Formula.Error
import Formula.Expression.Basic
import Formula.Index
import Formula.Kernel.Basic
import Formula.Kernel.Factorial
import Formula.Kernel.Tables
import Formula.Keyword
import Formula.Main
import Formula.Op
import Formula.Op.Registry
import Formula.Program.Basic
import Formula.Program.Compile
import Formula.Program.Run
import Formula.Program.RunError
import Formula.Proofs.Closure.Agreement
import Formula.Proofs.Closure.Arguments
import Formula.Proofs.Closure.Derivative
import Formula.Proofs.Closure.Gradient
import Formula.Proofs.Closure.Mapped
import Formula.Proofs.Closure.Prepared
import Formula.Proofs.Double.Fraction
import Formula.Proofs.Double.Layout
import Formula.Proofs.Double.Nearest
import Formula.Proofs.Double.Order
import Formula.Proofs.Double.Rounding
import Formula.Proofs.Double.Same
import Formula.Proofs.Double.Shortest
import Formula.Proofs.Expression.Compiled
import Formula.Proofs.Expression.Replacement
import Formula.Proofs.Expression.Variables
import Formula.Proofs.Grammar.Bracketed
import Formula.Proofs.Grammar.Brackets
import Formula.Proofs.Grammar.Groups
import Formula.Proofs.Grammar.Phrase
import Formula.Proofs.Grammar.Substitution
import Formula.Proofs.Grammar.Tree
import Formula.Proofs.Grammar.Yard
import Formula.Proofs.Kernel.Factorial
import Formula.Proofs.Kernel.Product
import Formula.Proofs.Kernel.Tables
import Formula.Proofs.Lookup
import Formula.Proofs.Program.Columns
import Formula.Proofs.Program.Congruence
import Formula.Proofs.Program.Depth
import Formula.Proofs.Program.Emission
import Formula.Proofs.Program.Errors
import Formula.Proofs.Program.Evaluation
import Formula.Proofs.Program.Folding
import Formula.Proofs.Program.Names
import Formula.Proofs.Program.NormalForm
import Formula.Proofs.Program.Rational
import Formula.Proofs.Program.Reachable
import Formula.Proofs.Program.Registration
import Formula.Proofs.Program.Repetition
import Formula.Proofs.Program.Spacing
import Formula.Proofs.Program.Spans
import Formula.Proofs.Program.Translation
import Formula.Proofs.Program.Transparency
import Formula.Proofs.Program.Waiting
import Formula.Proofs.Recency
import Formula.Proofs.Report.Lines
import Formula.Proofs.Report.Loop
import Formula.Proofs.Report.ReadBack
import Formula.Proofs.Report.Rows
import Formula.Proofs.Session.Bare
import Formula.Proofs.Session.Batch
import Formula.Proofs.Session.Cache
import Formula.Proofs.Session.Construction
import Formula.Proofs.Session.History
import Formula.Proofs.Session.Isolation
import Formula.Proofs.Statistic.Ascending
import Formula.Proofs.Statistic.Percentile
import Formula.Proofs.Table.History
import Formula.Proofs.Table.Register
import Formula.Proofs.Table.Storage
import Formula.Proofs.Table.Values
import Formula.Proofs.Tensor.Agreement
import Formula.Proofs.Tensor.Broadcast
import Formula.Proofs.Tensor.Index
import Formula.Proofs.Tensor.Stack
import Formula.Proofs.Token.Literal
import Formula.Proofs.Token.Locality
import Formula.Proofs.Token.Longest
import Formula.Proofs.Token.Reading
import Formula.Proofs.Token.Spacing
import Formula.Proofs.Token.Splitting
import Formula.Proofs.Token.Value
import Formula.Report.Data
import Formula.Report.Loop
import Formula.Report.Options
import Formula.Report.Rate
import Formula.Report.Rows
import Formula.Session.Basic
import Formula.Session.CompileCache
import Formula.Session.Settings
import Formula.Statistic.Merge
import Formula.Statistic.Percentile
import Formula.Statistic.Run
import Formula.Statistic.Sorting
import Formula.Table.Basic
import Formula.Table.Family
import Formula.Table.Storage
import Formula.Tensor.Basic
import Formula.Tensor.Broadcast
import Formula.Text.Integer
import Formula.Text.Printable
import Formula.Text.Quoted
import Formula.Token.Basic
import Formula.Token.Cursor
import Formula.Token.Literal
import Formula.Token.Reader
import Formula.Token.Sequence
