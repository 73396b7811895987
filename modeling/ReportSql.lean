import ReportSql.Binary64.Basic
import ReportSql.Binary64.Shortest
import ReportSql.Cache.Key
import ReportSql.Cache.Local
import ReportSql.Cache.Memory
import ReportSql.Cache.Result
import ReportSql.Cache.Sqlite
import ReportSql.Cache.Store
import ReportSql.Cli.Arguments
import ReportSql.Cli.Help
import ReportSql.Cli.Program
import ReportSql.Compile.Basic
import ReportSql.Compile.Filters
import ReportSql.Compile.Joins
import ReportSql.Compile.Report
import ReportSql.Dialect
import ReportSql.Digest.Sha256
import ReportSql.Execution.Error
import ReportSql.Execution.Executor
import ReportSql.Execution.Page
import ReportSql.Execution.Prepared
import ReportSql.Execution.Rehearsal
import ReportSql.Execution.Rows
import ReportSql.Execution.Run
import ReportSql.Execution.Setup
import ReportSql.Fragment
import ReportSql.Host
import ReportSql.Host.Tree
import ReportSql.Json.Basic
import ReportSql.Json.Number
import ReportSql.Json.Parser
import ReportSql.Json.Printer
import ReportSql.Json.Record
import ReportSql.Main
import ReportSql.NameMap
import ReportSql.Proofs.Binary64.Interval
import ReportSql.Proofs.Binary64.Text
import ReportSql.Proofs.Binary64.Word
import ReportSql.Proofs.Cache.Freshness
import ReportSql.Proofs.Cache.Interchange
import ReportSql.Proofs.Cache.Key
import ReportSql.Proofs.Cache.KeyForm
import ReportSql.Proofs.Cache.Lawful
import ReportSql.Proofs.Compile.Condition
import ReportSql.Proofs.Compile.Filters
import ReportSql.Proofs.Compile.FreshName
import ReportSql.Proofs.Compile.Joins
import ReportSql.Proofs.Compile.Names
import ReportSql.Proofs.Compile.Parameters
import ReportSql.Proofs.Compile.Qualifiers
import ReportSql.Proofs.Compile.Report
import ReportSql.Proofs.Compile.Shape
import ReportSql.Proofs.Compile.Tables
import ReportSql.Proofs.Dialect.Identifiers
import ReportSql.Proofs.Dialect.Strings
import ReportSql.Proofs.Except
import ReportSql.Proofs.Execution.Bound
import ReportSql.Proofs.Execution.Course
import ReportSql.Proofs.Execution.Journal
import ReportSql.Proofs.Execution.Provenance
import ReportSql.Proofs.Execution.Run
import ReportSql.Proofs.Execution.SameKey
import ReportSql.Proofs.Execution.UnitValues
import ReportSql.Proofs.Json.Compact
import ReportSql.Proofs.Json.ReadBack
import ReportSql.Proofs.NameMap
import ReportSql.Proofs.Query.Collected
import ReportSql.Proofs.Query.Grouping
import ReportSql.Proofs.Query.Names
import ReportSql.Proofs.Query.Nested
import ReportSql.Proofs.Query.Placeholders
import ReportSql.Proofs.Query.Precedence
import ReportSql.Proofs.Query.Rows
import ReportSql.Proofs.Query.Where
import ReportSql.Proofs.Query.Written
import ReportSql.Proofs.Scope.InPlace
import ReportSql.Proofs.Scope.Injection
import ReportSql.Proofs.Scope.NoUnits
import ReportSql.Proofs.Scope.Statement
import ReportSql.Proofs.Settings.References
import ReportSql.Proofs.Sqlite.Fragments
import ReportSql.Proofs.Sqlite.Legible
import ReportSql.Proofs.Sqlite.Parameters
import ReportSql.Proofs.Sqlite.Queries
import ReportSql.Proofs.Sqlite.Scan
import ReportSql.Proofs.Sqlite.Statements
import ReportSql.Proofs.Sqlite.Tokens
import ReportSql.Proofs.Sqlite.Trimmed
import ReportSql.Proofs.Statement.Added
import ReportSql.Proofs.Statement.ClauseSpans
import ReportSql.Proofs.Statement.Clauses
import ReportSql.Proofs.Statement.Compound
import ReportSql.Proofs.Statement.Conditioned
import ReportSql.Proofs.Statement.Conjunction
import ReportSql.Proofs.Statement.Expansion
import ReportSql.Proofs.Statement.FromClause
import ReportSql.Proofs.Statement.Outline
import ReportSql.Proofs.Statement.Pages
import ReportSql.Proofs.Statement.Pieces
import ReportSql.Proofs.Statement.Reader
import ReportSql.Proofs.Statement.Reread
import ReportSql.Proofs.Statement.SectionSpans
import ReportSql.Proofs.Statement.Sections
import ReportSql.Proofs.Statement.SourceLists
import ReportSql.Proofs.Statement.SpacedTables
import ReportSql.Proofs.Statement.Spacing
import ReportSql.Proofs.Statement.TableDepths
import ReportSql.Proofs.Statement.Tables
import ReportSql.Proofs.Statement.Trimming
import ReportSql.Proofs.Statement.UniformPaging
import ReportSql.Proofs.Text.Delimited
import ReportSql.Proofs.Token.Apart
import ReportSql.Proofs.Token.Balanced
import ReportSql.Proofs.Token.Echo
import ReportSql.Proofs.Token.FlatComment
import ReportSql.Proofs.Token.Literals
import ReportSql.Proofs.Token.Marks
import ReportSql.Proofs.Token.Numbers
import ReportSql.Proofs.Token.Operators
import ReportSql.Proofs.Token.ReadBack
import ReportSql.Proofs.Token.Readers
import ReportSql.Proofs.Token.Scan
import ReportSql.Proofs.Token.Stream
import ReportSql.Proofs.Token.Trailing
import ReportSql.Proofs.Token.Trimmed
import ReportSql.Proofs.Validation
import ReportSql.Proofs.Validation.Comments
import ReportSql.Proofs.Validation.FromClause
import ReportSql.Proofs.Validation.Keywords
import ReportSql.Proofs.Validation.Rendering
import ReportSql.Proofs.Whitelist
import ReportSql.Proofs.Whitelist.Sections
import ReportSql.Query.Basic
import ReportSql.Query.Printer
import ReportSql.Report.Config
import ReportSql.Report.Definition
import ReportSql.Report.Id
import ReportSql.Report.Keyword
import ReportSql.Report.Param
import ReportSql.Report.Registry
import ReportSql.Scope.Basic
import ReportSql.Scope.Injection
import ReportSql.Scope.Membership
import ReportSql.Settings.Basic
import ReportSql.Settings.Environment
import ReportSql.Settings.Load
import ReportSql.Sqlite.Constant
import ReportSql.Sqlite.Datum
import ReportSql.Sqlite.Location
import ReportSql.Sqlite.Numeral
import ReportSql.Sqlite.Token
import ReportSql.Statement.Basic
import ReportSql.Statement.Printer
import ReportSql.Statement.Tables
import ReportSql.Text.Blank
import ReportSql.Text.Case
import ReportSql.Text.Digit
import ReportSql.Text.Letter
import ReportSql.Token.Basic
import ReportSql.Token.Lexer
import ReportSql.Toml.Document
import ReportSql.Toml.Scalar
import ReportSql.Toml.Value
import ReportSql.Validation
import ReportSql.Whitelist
