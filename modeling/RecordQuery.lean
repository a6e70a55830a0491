import RecordQuery.Text.Utf8
import RecordQuery.Json.Printer
import RecordQuery.Json.Reader
import RecordQuery.Query.Reader
import RecordQuery.Filter.Text
import RecordQuery.Program.Calls
import RecordQuery.Table.Layout
import RecordQuery.Engine.Basic
import RecordQuery.Command.Basic
import RecordQuery.Main
import RecordQuery.Proofs.Grammar.Spelling
import RecordQuery.Proofs.Grammar.Cursor
import RecordQuery.Proofs.Grammar.Follow
import RecordQuery.Proofs.Grammar.Head
import RecordQuery.Proofs.Grammar.Expression
import RecordQuery.Proofs.Grammar.Statement
import RecordQuery.Proofs.Grammar.Fusion
import RecordQuery.Proofs.Grammar.Print
import RecordQuery.Proofs.Grammar.RoundTrip
import RecordQuery.Proofs.Filter.Mark
import RecordQuery.Proofs.Filter.Numeral
import RecordQuery.Proofs.Filter.Quotation
import RecordQuery.Proofs.Compile.Compiled
import RecordQuery.Proofs.Compile.Quotations
import RecordQuery.Proofs.Compile.Shape
import RecordQuery.Proofs.Filter.Scope
import RecordQuery.Proofs.Compile.Hygiene
import RecordQuery.Proofs.Jq.Evaluation
import RecordQuery.Proofs.Query.Rows
import RecordQuery.Proofs.Jq.Lexing
import RecordQuery.Proofs.Jq.Reading
import RecordQuery.Proofs.Query.Literals
import RecordQuery.Proofs.Filter.ReadBack
import RecordQuery.Proofs.Compile.Meaning
import RecordQuery.Proofs.Plan.Clauses
import RecordQuery.Proofs.Program.Stages
import RecordQuery.Proofs.Program.Rows
import RecordQuery.Proofs.Runs
import RecordQuery.Proofs.Query.Places
import RecordQuery.Proofs.Grammar.Places
import RecordQuery.Proofs.Compile.Places
import RecordQuery.Proofs.Token.Lexed
import RecordQuery.Proofs.Program.Tokens
import RecordQuery.Proofs.Program.Parts
import RecordQuery.Proofs.Compile.Steps
import RecordQuery.Proofs.Filter.Asks
import RecordQuery.Proofs.Compile.Asks
import RecordQuery.Proofs.Program.Closed
import RecordQuery.Proofs.Token.Starts
import RecordQuery.Proofs.Grammar.Soundness
import RecordQuery.Proofs.Query.Parameters
import RecordQuery.Proofs.Compile.Markers
import RecordQuery.Proofs.Program.Markers
import RecordQuery.Proofs.Number.Digits
import RecordQuery.Proofs.Number.Shortest
import RecordQuery.Proofs.Number.Written
import RecordQuery.Proofs.Text.Shown
import RecordQuery.Proofs.Token.Labels
import RecordQuery.Proofs.Token.Blanks
import RecordQuery.Proofs.Token.Alone
import RecordQuery.Proofs.Token.Apart
import RecordQuery.Proofs.Token.Tiles
import RecordQuery.Proofs.Token.Spread
import RecordQuery.Proofs.Text.LetterCase
import RecordQuery.Proofs.Token.Recased
import RecordQuery.Proofs.Grammar.Words
import RecordQuery.Proofs.Query.Nodes
import RecordQuery.Proofs.Compile.Faults
import RecordQuery.Proofs.Plan.Faults
import RecordQuery.Proofs.Program.Checks
import RecordQuery.Proofs.Filter.Balance
import RecordQuery.Proofs.Filter.Terms
import RecordQuery.Proofs.Compile.Terms
import RecordQuery.Proofs.Program.Terms
import RecordQuery.Proofs.Program.Keys
import RecordQuery.Proofs.Program.Calls
import RecordQuery.Proofs.Program.Uses
import RecordQuery.Proofs.Program.Formatting
import RecordQuery.Proofs.Json.Members
import RecordQuery.Proofs.Filter.Constructor
import RecordQuery.Proofs.Engine.Answers
import RecordQuery.Proofs.Program.Columns
import RecordQuery.Proofs.Command.Parameters
import RecordQuery.Proofs.Plan.Mapped
import RecordQuery.Proofs.Program.Unread
import RecordQuery.Proofs.Compile.Pattern
import RecordQuery.Proofs.Grammar.Limits
import RecordQuery.Proofs.Program.Limits
import RecordQuery.Proofs.Number.Exact
import RecordQuery.Proofs.Token.Numbers
import RecordQuery.Proofs.Token.Positions
import RecordQuery.Proofs.Program.Positions
import RecordQuery.Proofs.Compile.Variables
import RecordQuery.Proofs.Program.Variables
import RecordQuery.Proofs.Compile.Numbers
import RecordQuery.Proofs.Token.Written
import RecordQuery.Proofs.Token.Texts
import RecordQuery.Proofs.Query.Captions
import RecordQuery.Proofs.Grammar.Respelling
import RecordQuery.Proofs.Filter.Likeness
import RecordQuery.Proofs.Compile.Likeness
import RecordQuery.Proofs.Program.Labels
import RecordQuery.Proofs.Plan.Order
import RecordQuery.Proofs.Grammar.Neighbours
import RecordQuery.Proofs.Grammar.Signs
import RecordQuery.Proofs.Token.Faithful
import RecordQuery.Proofs.Token.Lines
import RecordQuery.Proofs.Grammar.Moved
import RecordQuery.Proofs.Query.Reread
import RecordQuery.Proofs.Token.Behind
import RecordQuery.Proofs.Grammar.IsNot
import RecordQuery.Proofs.Token.Passes
import RecordQuery.Proofs.Token.Stable
import RecordQuery.Proofs.Table.Layout
import RecordQuery.Proofs.Program.Bounds
import RecordQuery.Proofs.Token.Readings
import RecordQuery.Proofs.Grammar.Descents
import RecordQuery.Proofs.Grammar.Progress
