import PackratCpp.Token.Basic
import PackratCpp.Token.Keyword
import PackratCpp.Token.Stream
import PackratCpp.Rule
import PackratCpp.Expr.Basic
import PackratCpp.Expr.Normal
import PackratCpp.Expr.Text
import PackratCpp.Grammar.Dialect
import PackratCpp.Grammar.Basic
import PackratCpp.Grammar.Reachable
import PackratCpp.Grammar.Standard
import PackratCpp.Tree.Basic
import PackratCpp.Parse.Expectation
import PackratCpp.Tree.Arena
import PackratCpp.Parse.State
import PackratCpp.Parse.Evaluate
import PackratCpp.Parse.Moment
import PackratCpp.Diagnosis.Basic
import PackratCpp.Parse.Basic
import PackratCpp.Tree.Layout
import PackratCpp.Text.Invisible
import PackratCpp.Text.Width
import PackratCpp.Text.Quoted
import PackratCpp.Tree.Dump
import PackratCpp.Text.Json
import PackratCpp.Tree.Object
import PackratCpp.Tree.Concrete
import PackratCpp.Lex.Pattern
import PackratCpp.Lex.Lexicon
import PackratCpp.Lex.LineIndex
import PackratCpp.Lex.Scan
import PackratCpp.Lex.Basic
import PackratCpp.Tree.Span
import PackratCpp.Parse.Derivation
import PackratCpp.Parse.Report
import PackratCpp.Text.Bytes
import PackratCpp.Text.Visible
import PackratCpp.Diagnosis.Snippet
import PackratCpp.Text.Decimal
import PackratCpp.Config.Basic
import PackratCpp.Cli.Run
import PackratCpp.Main
import PackratCpp.Proofs.Stream
import PackratCpp.Proofs.Yield
import PackratCpp.Proofs.Findings
import PackratCpp.Proofs.Run
import PackratCpp.Proofs.Memo
import PackratCpp.Proofs.Settling
import PackratCpp.Proofs.Arena
import PackratCpp.Proofs.Frame
import PackratCpp.Proofs.Engine
import PackratCpp.Proofs.Agreement
import PackratCpp.Proofs.Diagnosis
import PackratCpp.Proofs.Table
import PackratCpp.Proofs.Ranking
import PackratCpp.Proofs.Scope
import PackratCpp.Proofs.Standard
import PackratCpp.Proofs.Recovery
import PackratCpp.Proofs.Shift
import PackratCpp.Proofs.Segments
import PackratCpp.Proofs.Skipping
import PackratCpp.Proofs.Strict
import PackratCpp.Proofs.Visits
import PackratCpp.Proofs.Limit
import PackratCpp.Proofs.Dependence
import PackratCpp.Proofs.Lookup
import PackratCpp.Proofs.Extensions
import PackratCpp.Proofs.Layout
import PackratCpp.Proofs.Nodes
import PackratCpp.Proofs.Lossless
import PackratCpp.Proofs.Unclosed
import PackratCpp.Proofs.Templates
import PackratCpp.Proofs.Brackets
import PackratCpp.Proofs.Terminators
import PackratCpp.Proofs.Reachable
import PackratCpp.Proofs.Transparency
import PackratCpp.Proofs.Patterns
import PackratCpp.Proofs.LongestMatch
import PackratCpp.Proofs.Lexemes
import PackratCpp.Proofs.Pieces
import PackratCpp.Proofs.Lexing
import PackratCpp.Proofs.Partition
import PackratCpp.Proofs.Spacing
import PackratCpp.Proofs.Reformat
import PackratCpp.Proofs.Compaction
import PackratCpp.Proofs.Quoting
import PackratCpp.Proofs.Indentation
import PackratCpp.Proofs.Views
import PackratCpp.Proofs.Window
import PackratCpp.Proofs.Foresight
import PackratCpp.Proofs.Nesting
import PackratCpp.Proofs.NestTrees
import PackratCpp.Proofs.Operands
import PackratCpp.Proofs.Precedence
import PackratCpp.Proofs.Pool
import PackratCpp.Proofs.Collapsing
import PackratCpp.Proofs.Normalizing
import PackratCpp.Proofs.Matching
import PackratCpp.Proofs.BalancedTokens
import PackratCpp.Proofs.Registration
import PackratCpp.Proofs.Branches
import PackratCpp.Proofs.Specializations
import PackratCpp.Proofs.Squares
import PackratCpp.Proofs.Framing
import PackratCpp.Proofs.Openings
import PackratCpp.Proofs.ArrayBounds
import PackratCpp.Proofs.Search
import PackratCpp.Proofs.Moments
import PackratCpp.Proofs.Contract
