import ScriptGate.Audit.Entry
import ScriptGate.Audit.Log
import ScriptGate.Batch.Basic
import ScriptGate.Batch.Format
import ScriptGate.Check.Message
import ScriptGate.Check.Script
import ScriptGate.Check.Walk
import ScriptGate.Command.Folder
import ScriptGate.Command.Host
import ScriptGate.Command.Options
import ScriptGate.Command.Path
import ScriptGate.Command.Run
import ScriptGate.Command.Usage
import ScriptGate.Diagnostic
import ScriptGate.Ecma.Expression
import ScriptGate.Ecma.Lexeme
import ScriptGate.Ecma.Parser
import ScriptGate.Ecma.Pattern
import ScriptGate.Ecma.Program
import ScriptGate.Ecma.Statement
import ScriptGate.Json.Reader
import ScriptGate.Json.Value
import ScriptGate.Json.Writer
import ScriptGate.Main
import ScriptGate.Number.Binary64
import ScriptGate.Number.Numeral
import ScriptGate.Number.Shortest
import ScriptGate.Policy.Basic
import ScriptGate.Policy.File
import ScriptGate.Proofs.Audit.Decoding
import ScriptGate.Proofs.Audit.Reading
import ScriptGate.Proofs.Audit.Trail
import ScriptGate.Proofs.Batch.Answer
import ScriptGate.Proofs.Batch.Format
import ScriptGate.Proofs.Batch.Isolation
import ScriptGate.Proofs.Batch.Pool
import ScriptGate.Proofs.Check.Acceptance
import ScriptGate.Proofs.Check.Chains
import ScriptGate.Proofs.Check.Comments
import ScriptGate.Proofs.Check.Coverage
import ScriptGate.Proofs.Check.Exposure
import ScriptGate.Proofs.Check.Findings
import ScriptGate.Proofs.Check.Granting
import ScriptGate.Proofs.Check.Hygiene
import ScriptGate.Proofs.Check.Lines
import ScriptGate.Proofs.Check.Nesting
import ScriptGate.Proofs.Check.Parentheses
import ScriptGate.Proofs.Check.Permission
import ScriptGate.Proofs.Check.Reach
import ScriptGate.Proofs.Check.Scoping
import ScriptGate.Proofs.Check.SourceOrder
import ScriptGate.Proofs.Check.Spans
import ScriptGate.Proofs.Check.Steps
import ScriptGate.Proofs.Check.Subtree
import ScriptGate.Proofs.Check.SyntaxErrors
import ScriptGate.Proofs.Check.Totality
import ScriptGate.Proofs.Check.Unbounded
import ScriptGate.Proofs.Check.Widening
import ScriptGate.Proofs.Check.Wording
import ScriptGate.Proofs.Command.Agreement
import ScriptGate.Proofs.Command.Directories
import ScriptGate.Proofs.Json.Grammar
import ScriptGate.Proofs.Json.Indented
import ScriptGate.Proofs.Json.Reading
import ScriptGate.Proofs.Json.Token
import ScriptGate.Proofs.Json.Writing
import ScriptGate.Proofs.Number.Whole
import ScriptGate.Proofs.Policy.Loading
import ScriptGate.Proofs.Record.Fields
import ScriptGate.Proofs.Source.Boundary
import ScriptGate.Proofs.Source.Decoding
import ScriptGate.Proofs.Source.Offsets
import ScriptGate.Proofs.Source.Units
import ScriptGate.Proofs.Syntax.Comments
import ScriptGate.Proofs.Syntax.Descent
import ScriptGate.Proofs.Syntax.Layout
import ScriptGate.Proofs.Syntax.Parentheses
import ScriptGate.Proofs.Syntax.Regions
import ScriptGate.Proofs.Syntax.Shape
import ScriptGate.Proofs.Syntax.Tree
import ScriptGate.Proofs.Syntax.Wholeness
import ScriptGate.Proofs.Text.Avoiding
import ScriptGate.Proofs.Text.Plain
import ScriptGate.Proofs.Text.RoundTrip
import ScriptGate.Record.Reader
import ScriptGate.Record.Validated
import ScriptGate.Report.Record
import ScriptGate.Request
import ScriptGate.Scope.Basic
import ScriptGate.Scope.Program
import ScriptGate.Source.Basic
import ScriptGate.Syntax.Node
import ScriptGate.Text.Basic
import ScriptGate.Text.Blank
import ScriptGate.Text.Digit
import ScriptGate.Text.Printable
import ScriptGate.Text.Quoted
import ScriptGate.Text.Utf8
