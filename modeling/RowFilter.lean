import RowFilter.CommandLine.Arguments
import RowFilter.CommandLine.Run
import RowFilter.Directory.Assertion
import RowFilter.Directory.Dialect
import RowFilter.Directory.Entry
import RowFilter.Directory.Error
import RowFilter.Directory.Executor
import RowFilter.Directory.FilterText
import RowFilter.Directory.Pool
import RowFilter.Directory.Rehearsal
import RowFilter.Directory.SearchFilter
import RowFilter.Directory.Server
import RowFilter.Directory.Time
import RowFilter.Expr.Basic
import RowFilter.Expr.Error
import RowFilter.Expr.Evaluation
import RowFilter.Expr.Operator
import RowFilter.Expr.ParseError
import RowFilter.Expr.Parser
import RowFilter.Expr.Pattern
import RowFilter.Expr.Printer
import RowFilter.Expr.Token
import RowFilter.Expr.Vocabulary
import RowFilter.Expr.Wire
import RowFilter.Main
import RowFilter.Number.Binary64
import RowFilter.Number.Decimal
import RowFilter.Number.Dyadic
import RowFilter.Number.Integer
import RowFilter.Proofs.Directory.AcceptedFilter
import RowFilter.Proofs.Directory.AcceptedTime
import RowFilter.Proofs.Directory.AssertedValue
import RowFilter.Proofs.Directory.Binding
import RowFilter.Proofs.Directory.BoundStatement
import RowFilter.Proofs.Directory.Calendar
import RowFilter.Proofs.Directory.Denotation
import RowFilter.Proofs.Directory.DialectInvariant
import RowFilter.Proofs.Directory.EntryOrder
import RowFilter.Proofs.Directory.FilterAlgebra
import RowFilter.Proofs.Directory.FilterGrammar
import RowFilter.Proofs.Directory.FilterReading
import RowFilter.Proofs.Directory.FilterRoundTrip
import RowFilter.Proofs.Directory.FilterSpelling
import RowFilter.Proofs.Directory.GeneralizedTime
import RowFilter.Proofs.Directory.IntegerComparison
import RowFilter.Proofs.Directory.IntegerCondition
import RowFilter.Proofs.Directory.IntegerRow
import RowFilter.Proofs.Directory.LikeFilter
import RowFilter.Proofs.Directory.NegatedChain
import RowFilter.Proofs.Directory.NegatedEquality
import RowFilter.Proofs.Directory.NullComparison
import RowFilter.Proofs.Directory.Pagination
import RowFilter.Proofs.Directory.PoolAccounting
import RowFilter.Proofs.Directory.Property
import RowFilter.Proofs.Directory.Refinement
import RowFilter.Proofs.Directory.SearchScope
import RowFilter.Proofs.Directory.ShownAttribute
import RowFilter.Proofs.Directory.StreamReading
import RowFilter.Proofs.Directory.SubstringMatching
import RowFilter.Proofs.Directory.Template
import RowFilter.Proofs.Directory.TemplateReading
import RowFilter.Proofs.Directory.TemplateWriting
import RowFilter.Proofs.Expr.Acceptance
import RowFilter.Proofs.Expr.ChainEvaluation
import RowFilter.Proofs.Expr.Comparison
import RowFilter.Proofs.Expr.ConstantText
import RowFilter.Proofs.Expr.Derivation
import RowFilter.Proofs.Expr.Embedding
import RowFilter.Proofs.Expr.Evaluation
import RowFilter.Proofs.Expr.ExchangedSides
import RowFilter.Proofs.Expr.Grammar
import RowFilter.Proofs.Expr.Inlining
import RowFilter.Proofs.Expr.Offsets
import RowFilter.Proofs.Expr.Parsed
import RowFilter.Proofs.Expr.Parsing
import RowFilter.Proofs.Expr.PatternMatching
import RowFilter.Proofs.Expr.Reading
import RowFilter.Proofs.Expr.Registration
import RowFilter.Proofs.Expr.Relocation
import RowFilter.Proofs.Expr.Reparsing
import RowFilter.Proofs.Expr.RoundTrip
import RowFilter.Proofs.Expr.Scanning
import RowFilter.Proofs.Expr.Subexpressions
import RowFilter.Proofs.Expr.TokenSpans
import RowFilter.Proofs.Expr.WellFormed
import RowFilter.Proofs.Expr.WireCodec
import RowFilter.Proofs.Number.DecimalText
import RowFilter.Proofs.Number.FloatText
import RowFilter.Proofs.Number.IntegerRounding
import RowFilter.Proofs.Number.Numeral
import RowFilter.Proofs.Number.Rounding
import RowFilter.Proofs.Outcome
import RowFilter.Proofs.Rows.ProcessingFailure
import RowFilter.Proofs.Rows.RowOrder
import RowFilter.Proofs.Rows.SortedRows
import RowFilter.Proofs.Sorting
import RowFilter.Proofs.Statement.Assembly
import RowFilter.Proofs.Statement.Bracketing
import RowFilter.Proofs.Statement.Candidates
import RowFilter.Proofs.Statement.CompileInduction
import RowFilter.Proofs.Statement.Compiling
import RowFilter.Proofs.Statement.ConstantFolding
import RowFilter.Proofs.Statement.Correspondence
import RowFilter.Proofs.Statement.Deferral
import RowFilter.Proofs.Statement.DialectClosure
import RowFilter.Proofs.Statement.FilterHistory
import RowFilter.Proofs.Statement.InlinedFilter
import RowFilter.Proofs.Statement.Invariant
import RowFilter.Proofs.Statement.Merging
import RowFilter.Proofs.Statement.ObjectParameters
import RowFilter.Proofs.Statement.Operands
import RowFilter.Proofs.Statement.Parameters
import RowFilter.Proofs.Statement.Placeholders
import RowFilter.Proofs.Statement.Relation
import RowFilter.Proofs.Statement.Rendering
import RowFilter.Proofs.Statement.RowIsolation
import RowFilter.Proofs.Statement.Sameness
import RowFilter.Proofs.Statement.SourceOrder
import RowFilter.Proofs.Statement.Upholding
import RowFilter.Proofs.Text.LetterCase
import RowFilter.Proofs.Text.Utf8
import RowFilter.Proofs.Value.BoundLiteral
import RowFilter.Proofs.Value.Coercion
import RowFilter.Proofs.Value.Navigation
import RowFilter.Proofs.Value.Order
import RowFilter.Request
import RowFilter.Rows.Processor
import RowFilter.Schema
import RowFilter.Sorting
import RowFilter.Statement.Compilation
import RowFilter.Statement.Dialect
import RowFilter.Statement.Error
import RowFilter.Statement.Filter
import RowFilter.Statement.Part
import RowFilter.Statement.Tabular
import RowFilter.Text.LetterCase
import RowFilter.Text.Letters
import RowFilter.Text.Pieces
import RowFilter.Text.Utf8
import RowFilter.Text.Whitespace
import RowFilter.Truth
import RowFilter.Value.Basic
import RowFilter.Value.Coercion
import RowFilter.Value.Named
import RowFilter.Value.Order
import RowFilter.Value.Path
