import BatchShell.Crash
import BatchShell.Text.Blank
import BatchShell.Text.Case
import BatchShell.Text.Split
import BatchShell.Text.Letter
import BatchShell.Text.Folding
import BatchShell.Text.Utf8
import BatchShell.Token.Basic
import BatchShell.Token.Lexer
import BatchShell.Token.Source
import BatchShell.Command
import BatchShell.Parser.Line
import BatchShell.Script
import BatchShell.Arithmetic.Eval
import BatchShell.FileTree
import BatchShell.State
import BatchShell.Expansion.Percent
import BatchShell.Expansion.Prompt
import BatchShell.Loop.Range
import BatchShell.Loop.LineOptions
import BatchShell.Wildcard
import BatchShell.Glob
import BatchShell.Matching
import BatchShell.Matching.Standard
import BatchShell.Condition
import BatchShell.Builtin.Name
import BatchShell.Resolution
import BatchShell.Outcome
import BatchShell.Builtin.Echo
import BatchShell.Regex.Basic
import BatchShell.Regex.Parser
import BatchShell.Complaint
import BatchShell.Builtin.Assign
import BatchShell.Builtin.Scope
import BatchShell.Builtin.Directory
import BatchShell.Builtin.Transfer
import BatchShell.Builtin.Console
import BatchShell.Builtin.Filter
import BatchShell.Builtin.Findstr
import BatchShell.Redirection.Plan
import BatchShell.Host
import BatchShell.Loop.Values
import BatchShell.Engine.Basic
import BatchShell.Engine.Pipeline
import BatchShell.Engine.Iteration
import BatchShell.Engine.Dispatch
import BatchShell.Engine.Frame
import BatchShell.Engine.Run
import BatchShell.Session
import BatchShell.Config.Toml
import BatchShell.Config.Basic
import BatchShell.Text.Hex
import BatchShell.Text.Json
import BatchShell.CommandLine
import BatchShell.Main
import BatchShell.Token
import BatchShell.Proofs.Engine.Ends
import BatchShell.Proofs.Arithmetic.Assignments
import BatchShell.Proofs.Engine.Frames
import BatchShell.Proofs.Session.Stacks
import BatchShell.Proofs.Session.Status
import BatchShell.Proofs.Engine.Trace
import BatchShell.Proofs.Engine.Unwinding
import BatchShell.Proofs.Session.Phases
import BatchShell.Proofs.Environment.Lookup
import BatchShell.Proofs.Environment.Snapshots
import BatchShell.Proofs.Token.Lexemes
import BatchShell.Proofs.Token.RoundTrip
import BatchShell.Proofs.Engine.Inquiry
import BatchShell.Proofs.Engine.Budget
import BatchShell.Proofs.Engine.Termination
import BatchShell.Proofs.Parser.Readers
import BatchShell.Proofs.Parser.Forms
import BatchShell.Proofs.Parser.Grammar
import BatchShell.Proofs.Parser.Precedence
import BatchShell.Proofs.Parser.Independence
import BatchShell.Proofs.Engine.Transparency
import BatchShell.Proofs.Parser.Parentheses
import BatchShell.Proofs.Script.Blocks
import BatchShell.Proofs.Pipeline.Streaming
import BatchShell.Proofs.Session.Spending
import BatchShell.Proofs.Token.Words
import BatchShell.Proofs.Engine.Calls
import BatchShell.Proofs.Pipeline.Channel
import BatchShell.Proofs.Pipeline.Network
import BatchShell.Proofs.Pipeline.Composition
import BatchShell.Proofs.Expansion.Blanks
import BatchShell.Proofs.Expansion.References
import BatchShell.Proofs.Engine.Hosts
import BatchShell.Proofs.Session.Breaks
import BatchShell.Proofs.Numeral.Decimal
import BatchShell.Proofs.Arithmetic.Expression
import BatchShell.Proofs.Arithmetic.Rendering
import BatchShell.Proofs.Arithmetic.Spelling
import BatchShell.Proofs.Parser.Heads
import BatchShell.Proofs.Parser.Compounds
import BatchShell.Proofs.Parser.Renderings
import BatchShell.Proofs.Loop.Ranges
import BatchShell.Proofs.Loop.Values
import BatchShell.Proofs.Loop.Options
import BatchShell.Proofs.Loop.Written
import BatchShell.Proofs.Loop.Fields
import BatchShell.Proofs.Engine.Turns
import BatchShell.Proofs.Script.Lines
import BatchShell.Proofs.Files.Writes
import BatchShell.Proofs.Redirection.Descriptors
import BatchShell.Proofs.Engine.Diagnostics
import BatchShell.Proofs.Session.Reports
import BatchShell.Proofs.Text.Bytes
import BatchShell.Proofs.Expansion.Replacements
import BatchShell.Proofs.Expansion.Substrings
import BatchShell.Proofs.Numeral.Constants
import BatchShell.Proofs.Path.Normal
import BatchShell.Proofs.Token.Tiling
import BatchShell.Proofs.Expansion.PathParts
import BatchShell.Proofs.Builtin.Find
import BatchShell.Proofs.Builtin.Directories
import BatchShell.Proofs.Parser.Arguments
import BatchShell.Proofs.Script.Continuation
