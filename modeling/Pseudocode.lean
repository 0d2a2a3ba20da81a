import Pseudocode.Catalog.Basic
import Pseudocode.Catalog.Builtin
import Pseudocode.Catalog.Document
import Pseudocode.Command.Flags
import Pseudocode.Command.Run
import Pseudocode.Convert
import Pseudocode.Diagnostic
import Pseudocode.Diagnostics
import Pseudocode.Dispatch
import Pseudocode.Expr.Convert
import Pseudocode.Expr.Intrinsic
import Pseudocode.Expr.Operator
import Pseudocode.Expr.Random
import Pseudocode.Files
import Pseudocode.Header.Counted
import Pseudocode.Header.Function
import Pseudocode.Header.Guard
import Pseudocode.History.Database
import Pseudocode.History.Embedded
import Pseudocode.History.Entry
import Pseudocode.History.Instant
import Pseudocode.History.Sha256
import Pseudocode.History.Store
import Pseudocode.Json.Basic
import Pseudocode.Json.Reader
import Pseudocode.Json.Writer
import Pseudocode.Layout
import Pseudocode.LineKind
import Pseudocode.Log
import Pseudocode.Main
import Pseudocode.Names
import Pseudocode.Pass
import Pseudocode.Pattern
import Pseudocode.Report
import Pseudocode.Scan.Code
import Pseudocode.Scan.Cursor
import Pseudocode.Scan.Flags
import Pseudocode.Scan.Paren
import Pseudocode.Scan.Region
import Pseudocode.Scan.Symbol
import Pseudocode.Scan.TopLevel
import Pseudocode.Scope
import Pseudocode.Service.Address
import Pseudocode.Service.Answer
import Pseudocode.Service.Router
import Pseudocode.Service.Server
import Pseudocode.Settings.Basic
import Pseudocode.Settings.EnvFile
import Pseudocode.SourceLine
import Pseudocode.Statement.Declaration
import Pseudocode.Statement.Dimension
import Pseudocode.Statement.Input
import Pseudocode.Statement.Simple
import Pseudocode.Statement.Target
import Pseudocode.Text.CaseFold
import Pseudocode.Text.Decimal
import Pseudocode.Text.Letter
import Pseudocode.Text.LowerCase
import Pseudocode.Text.Number
import Pseudocode.Text.Printable
import Pseudocode.Text.Quoted
import Pseudocode.Text.Ranges
import Pseudocode.Text.Space
import Pseudocode.Text.Utf8
import Pseudocode.Text.Word
import Pseudocode.Proofs.Braces.Program
import Pseudocode.Proofs.Braces.Routine
import Pseudocode.Proofs.Braces.Text
import Pseudocode.Proofs.Catalog
import Pseudocode.Proofs.Correspondence.Program
import Pseudocode.Proofs.Correspondence.Result
import Pseudocode.Proofs.Correspondence.Routine
import Pseudocode.Proofs.Decimal
import Pseudocode.Proofs.Declared.Acts
import Pseudocode.Proofs.Declared.Allocation
import Pseudocode.Proofs.Declared.Calls
import Pseudocode.Proofs.Declared.Dimension
import Pseudocode.Proofs.Declared.Forms
import Pseudocode.Proofs.Declared.Statement
import Pseudocode.Proofs.Declared.Visibility
import Pseudocode.Proofs.Diagnostic
import Pseudocode.Proofs.Expr.Agreement
import Pseudocode.Proofs.Expr.Alphabet
import Pseudocode.Proofs.Expr.Brackets
import Pseudocode.Proofs.Expr.Calls
import Pseudocode.Proofs.Expr.Constants
import Pseudocode.Proofs.Expr.Edits
import Pseudocode.Proofs.Expr.Equality
import Pseudocode.Proofs.Expr.Intrinsics
import Pseudocode.Proofs.Expr.Literals
import Pseudocode.Proofs.Expr.Members
import Pseudocode.Proofs.Expr.Names
import Pseudocode.Proofs.Expr.NestedCalls
import Pseudocode.Proofs.Expr.Random
import Pseudocode.Proofs.Expr.Rewriting
import Pseudocode.Proofs.Expr.Words
import Pseudocode.Proofs.FinalCall
import Pseudocode.Proofs.FirstWord
import Pseudocode.Proofs.Functions
import Pseudocode.Proofs.Header
import Pseudocode.Proofs.Header.Binding
import Pseudocode.Proofs.Header.Counted
import Pseudocode.Proofs.Header.Function
import Pseudocode.Proofs.Header.Identifier
import Pseudocode.Proofs.History.Embedded
import Pseudocode.Proofs.History.Laws
import Pseudocode.Proofs.History.Log
import Pseudocode.Proofs.History.Store
import Pseudocode.Proofs.KeptLines
import Pseudocode.Proofs.Keywords
import Pseudocode.Proofs.LetterCase
import Pseudocode.Proofs.Marks
import Pseudocode.Proofs.Nesting.Account
import Pseudocode.Proofs.Nesting.Branches
import Pseudocode.Proofs.Nesting.Moves
import Pseudocode.Proofs.Nesting.Program
import Pseudocode.Proofs.Nesting.Word
import Pseudocode.Proofs.Notice
import Pseudocode.Proofs.Pass.Convert
import Pseudocode.Proofs.Pass.Functions
import Pseudocode.Proofs.Pass.Isolation
import Pseudocode.Proofs.Pass.Main
import Pseudocode.Proofs.Pass.Routine
import Pseudocode.Proofs.Pattern
import Pseudocode.Proofs.Position
import Pseudocode.Proofs.Program.Basic
import Pseudocode.Proofs.Program.Parts
import Pseudocode.Proofs.Program.Runs
import Pseudocode.Proofs.Record
import Pseudocode.Proofs.Routine.Basic
import Pseudocode.Proofs.Routine.Closing
import Pseudocode.Proofs.Routine.Depth
import Pseudocode.Proofs.Routine.Lines
import Pseudocode.Proofs.Routine.Notices
import Pseudocode.Proofs.Routine.Step
import Pseudocode.Proofs.Scan.Brackets
import Pseudocode.Proofs.Scan.Flags
import Pseudocode.Proofs.Scan.Grammar
import Pseudocode.Proofs.Scan.Literals
import Pseudocode.Proofs.Scan.Matching
import Pseudocode.Proofs.Scan.Names
import Pseudocode.Proofs.Scan.Paren
import Pseudocode.Proofs.Scan.Parts
import Pseudocode.Proofs.Scan.Pieces
import Pseudocode.Proofs.Scan.Places
import Pseudocode.Proofs.Scan.Segment
import Pseudocode.Proofs.Scan.Segmented
import Pseudocode.Proofs.Scan.TopLevel
import Pseudocode.Proofs.Service.Acceptance
import Pseudocode.Proofs.Service.Recording
import Pseudocode.Proofs.Service.Routing
import Pseudocode.Proofs.Settings
import Pseudocode.Proofs.SourceLayout
import Pseudocode.Proofs.SourceLine
import Pseudocode.Proofs.Statement
import Pseudocode.Proofs.Strictness
import Pseudocode.Proofs.Text
import Pseudocode.Proofs.TrailingComment
import Pseudocode.Proofs.Verdict
import Pseudocode.Proofs.Words
import Pseudocode.Proofs.Written
