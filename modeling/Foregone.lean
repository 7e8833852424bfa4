import Foregone.Bound
import Foregone.Command
import Foregone.Command.Options
import Foregone.Comparison
import Foregone.Condition
import Foregone.Constraints
import Foregone.Diagnostic
import Foregone.Expr
import Foregone.Expr.Evaluate
import Foregone.Expr.Trace
import Foregone.FileTree
import Foregone.Grammar
import Foregone.Grammar.Expression
import Foregone.Grammar.Pattern
import Foregone.Grammar.Statement
import Foregone.Grammar.Type
import Foregone.Guard
import Foregone.Host
import Foregone.Interval
import Foregone.IntervalList
import Foregone.Literal
import Foregone.Location
import Foregone.Log
import Foregone.Main
import Foregone.Module
import Foregone.Names
import Foregone.Operator
import Foregone.Report
import Foregone.Text.Blank
import Foregone.Text.Digit
import Foregone.Text.Identifier
import Foregone.Text.Json
import Foregone.Text.Printable
import Foregone.Text.Quoted
import Foregone.Text.Ranges
import Foregone.Text.Similar
import Foregone.Text.Utf8
import Foregone.Token
import Foregone.Token.Lexer
import Foregone.Token.Scan
import Foregone.Tree
import Foregone.Tree.Expr
import Foregone.Value
import Foregone.Value.Fold
import Foregone.Value.Logic
import Foregone.Word
import Foregone.Proofs.BoundOrder
import Foregone.Proofs.CanonicalList
import Foregone.Proofs.ListOperations
import Foregone.Proofs.BooleanAlgebra
import Foregone.Proofs.Join
import Foregone.Proofs.Reachable
import Foregone.Proofs.RationalPoints
import Foregone.Proofs.Run
import Foregone.Proofs.Ascent
import Foregone.Proofs.Spine
import Foregone.Proofs.Describes
import Foregone.Proofs.Soundness
import Foregone.Proofs.OneVariable
import Foregone.Proofs.Hiding
import Foregone.Proofs.Alignment
import Foregone.Proofs.Renaming
import Foregone.Proofs.NameIndependence
import Foregone.Proofs.Asserting
import Foregone.Proofs.NoBreach
import Foregone.Proofs.LogicalLaws
import Foregone.Proofs.Conversion
import Foregone.Proofs.ChainExpansion
import Foregone.Proofs.ExactArithmetic
import Foregone.Proofs.TreeRun
import Foregone.Proofs.Numerals
import Foregone.Proofs.Spelling
import Foregone.Proofs.Scanning
import Foregone.Proofs.Lexing
import Foregone.Proofs.WrittenTree
import Foregone.Proofs.Reading
import Foregone.Proofs.RoundTrip
import Foregone.Proofs.ListLength
import Foregone.Proofs.LiteralSpellings
import Foregone.Proofs.Spans
import Foregone.Proofs.ExpressionSpans
import Foregone.Proofs.StatementSpans
import Foregone.Proofs.TokenSpans
import Foregone.Proofs.Encoding
import Foregone.Proofs.Occurrences
import Foregone.Proofs.GuardReports
import Foregone.Proofs.Slices
import Foregone.Proofs.DirectoryWalk
import Foregone.Proofs.JsonReading
import Foregone.Proofs.CheckRun
import Foregone.Proofs.WrittenIntegers
import Foregone.Proofs.RoundedQuotient
import Foregone.Proofs.ComparisonLaws
import Foregone.Proofs.RunConversion
import Foregone.Proofs.PowerBound
