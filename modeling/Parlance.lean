import Parlance.Command.Arguments
import Parlance.Command.Run
import Parlance.ConfigError
import Parlance.Definitions
import Parlance.Diagnostic.Basic
import Parlance.Diagnostic.Catalogue
import Parlance.Diagnostic.Json
import Parlance.Diagnostic.LineIndex
import Parlance.Diagnostic.Report
import Parlance.Diagnostic.Template
import Parlance.Dictionary
import Parlance.Escape
import Parlance.Expression.Basic
import Parlance.Expression.Resolve
import Parlance.Expression.Stack
import Parlance.Grammar.Basic
import Parlance.Grammar.Spec
import Parlance.Journal
import Parlance.Json.Comments
import Parlance.Json.Decoder
import Parlance.Json.Document
import Parlance.Json.Value
import Parlance.Lexer.Basic
import Parlance.Lexer.Rule
import Parlance.Lexer.Scan
import Parlance.Literal.Basic
import Parlance.Literal.Binary64
import Parlance.Literal.Floating
import Parlance.Literal.Integer
import Parlance.Literal.Quoted
import Parlance.Literal.Word
import Parlance.Main
import Parlance.Nesting.Basic
import Parlance.Nesting.Build
import Parlance.Page
import Parlance.Position
import Parlance.Tagging
import Parlance.Text.Alphabetic
import Parlance.Text.Blank
import Parlance.Text.Numeric
import Parlance.Text.Printable
import Parlance.Text.Quoted
import Parlance.Text.Ranges
import Parlance.Text.Utf8
import Parlance.Token
import Parlance.Tree.Basic
import Parlance.Tree.Json
import Parlance.Tree.Walk
import Parlance.Proofs.Expression.Run
import Parlance.Proofs.Expression.Grouping
import Parlance.Proofs.Dictionary
import Parlance.Proofs.Lexer.Rules
import Parlance.Proofs.Lexer.Tiling
import Parlance.Proofs.Nesting.Document
import Parlance.Proofs.Expression.Leaves
import Parlance.Proofs.Expression.Acceptance
import Parlance.Proofs.Diagnostic
import Parlance.Proofs.Expression.Origins
import Parlance.Proofs.Nesting.Origins
import Parlance.Proofs.Expression.Exchange
import Parlance.Proofs.Grammar.Sites
import Parlance.Proofs.Expression.Operands
import Parlance.Proofs.Lexer.Blanks
import Parlance.Proofs.Page.Layout
import Parlance.Proofs.Page.Relexing
import Parlance.Proofs.Lexer.Resumption
import Parlance.Proofs.Nesting.Bounds
import Parlance.Proofs.Grammar.Coverage
import Parlance.Proofs.Expression.Places
import Parlance.Proofs.Grammar.Places
import Parlance.Proofs.Nesting.Brackets
import Parlance.Proofs.Nesting.Accounting
import Parlance.Proofs.Nesting.Faults
import Parlance.Proofs.Grammar.Order
import Parlance.Proofs.Json.Decoration
import Parlance.Proofs.Nesting.Separators
import Parlance.Proofs.Expression.Recovery
import Parlance.Proofs.Grammar.Outermost
import Parlance.Proofs.Page.Spacing
import Parlance.Proofs.Expression.Limit
import Parlance.Proofs.Expression.Congruence
import Parlance.Proofs.Expression.Names
import Parlance.Proofs.Lexer.Table
import Parlance.Proofs.Lexer.Filing
import Parlance.Proofs.Lexer.Buckets
import Parlance.Proofs.Lexer.Expansion
import Parlance.Proofs.Nesting.Expansion
import Parlance.Proofs.Nesting.Visits
import Parlance.Proofs.Nesting.Access
import Parlance.Proofs.Nesting.Schema
import Parlance.Proofs.Expression.Precedence
import Parlance.Proofs.Json.Lines
import Parlance.Proofs.Grammar.Blanking
import Parlance.Proofs.Escape.Sequences
import Parlance.Proofs.Escape.Composition
import Parlance.Proofs.Escape.InPlace
import Parlance.Proofs.Escape.Validation
import Parlance.Proofs.Literal.Numerals
import Parlance.Proofs.Literal.Integers
import Parlance.Proofs.Literal.Decimals
import Parlance.Proofs.Literal.Classification
import Parlance.Proofs.Diagnostic.Placeholders
import Parlance.Proofs.Diagnostic.Lines
import Parlance.Proofs.Diagnostic.Caret
import Parlance.Proofs.Page.Starts
import Parlance.Proofs.Lexer.RegionEnds
import Parlance.Proofs.Tree.Walks
import Parlance.Proofs.Expression.Spine
import Parlance.Proofs.Expression.Access
import Parlance.Proofs.Nesting.Closings
import Parlance.Proofs.Json.InPlace
