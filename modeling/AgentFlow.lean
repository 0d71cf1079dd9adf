import AgentFlow.Check.Bracket
import AgentFlow.Check.Detect
import AgentFlow.Check.Pattern
import AgentFlow.Check.Selection
import AgentFlow.Check.Symbol
import AgentFlow.CommandLine.Arguments
import AgentFlow.CommandLine.Program
import AgentFlow.Compiler
import AgentFlow.Decimal.Shortest
import AgentFlow.Execution
import AgentFlow.Finding
import AgentFlow.Framework.Adk
import AgentFlow.Framework.Basic
import AgentFlow.Framework.Custom
import AgentFlow.Framework.LangGraph
import AgentFlow.Framework.OpenAIAgents
import AgentFlow.Graph.Adjacency
import AgentFlow.Graph.Basic
import AgentFlow.Graph.Capability
import AgentFlow.Graph.Codec
import AgentFlow.Graph.Defect
import AgentFlow.Graph.Editor
import AgentFlow.Graph.Wiring
import AgentFlow.Json.Double
import AgentFlow.Json.Fields
import AgentFlow.Json.Lexer
import AgentFlow.Json.Number
import AgentFlow.Json.Parser
import AgentFlow.Json.Printer
import AgentFlow.Json.Value
import AgentFlow.Launch.Basic
import AgentFlow.Launch.Codec
import AgentFlow.Launch.OfGraph
import AgentFlow.Main
import AgentFlow.Naming
import AgentFlow.PatternFix
import AgentFlow.Plan
import AgentFlow.Proofs.Bracket.Clean
import AgentFlow.Proofs.Bracket.Nesting
import AgentFlow.Proofs.Bracket.Pieces
import AgentFlow.Proofs.Bracket.Position
import AgentFlow.Proofs.Bracket.Reader
import AgentFlow.Proofs.Bracket.Scan
import AgentFlow.Proofs.Check.Calls
import AgentFlow.Proofs.Check.Cut
import AgentFlow.Proofs.Check.Edit
import AgentFlow.Proofs.Check.Lines
import AgentFlow.Proofs.Check.Shift
import AgentFlow.Proofs.Check.Traits
import AgentFlow.Proofs.Compiler.Redraw
import AgentFlow.Proofs.Compiler.Renaming
import AgentFlow.Proofs.Execution
import AgentFlow.Proofs.Framework.Bindings
import AgentFlow.Proofs.Framework.Brackets
import AgentFlow.Proofs.Framework.Closed
import AgentFlow.Proofs.Framework.Declarations
import AgentFlow.Proofs.Framework.Docstring
import AgentFlow.Proofs.Framework.Form
import AgentFlow.Proofs.Framework.Shadowing
import AgentFlow.Proofs.Graph.Defects
import AgentFlow.Proofs.Graph.Document
import AgentFlow.Proofs.Graph.Neighbors
import AgentFlow.Proofs.Graph.Reach
import AgentFlow.Proofs.Graph.Renaming
import AgentFlow.Proofs.Graph.Stored
import AgentFlow.Proofs.Json.Literal
import AgentFlow.Proofs.Json.Reading
import AgentFlow.Proofs.Json.Records
import AgentFlow.Proofs.Json.Rounding
import AgentFlow.Proofs.Launch.Dedupe
import AgentFlow.Proofs.Launch.Joining
import AgentFlow.Proofs.Launch.Normal
import AgentFlow.Proofs.Limiter.Breaker
import AgentFlow.Proofs.Limiter.Cancel
import AgentFlow.Proofs.Limiter.Gate
import AgentFlow.Proofs.Limiter.Traffic
import AgentFlow.Proofs.Limiter.Trial
import AgentFlow.Proofs.Naming
import AgentFlow.Proofs.Naming.Fresh
import AgentFlow.Proofs.Naming.Requests
import AgentFlow.Proofs.Naming.Slug
import AgentFlow.Proofs.PatternFix
import AgentFlow.Proofs.PatternFix.Credential
import AgentFlow.Proofs.PatternFix.Landing
import AgentFlow.Proofs.Plan.Labels
import AgentFlow.Proofs.Plan.Names
import AgentFlow.Proofs.Plan.Parts
import AgentFlow.Proofs.Plan.Toolsets
import AgentFlow.Proofs.Python.Docstring
import AgentFlow.Proofs.Python.Faithful
import AgentFlow.Proofs.Python.Form
import AgentFlow.Proofs.Python.Fragment
import AgentFlow.Proofs.Python.Keyword
import AgentFlow.Proofs.Python.Mentions
import AgentFlow.Proofs.Python.Parse
import AgentFlow.Proofs.Python.Plain
import AgentFlow.Proofs.Python.Render
import AgentFlow.Proofs.Python.Rows
import AgentFlow.Proofs.Python.Token
import AgentFlow.Proofs.Python.Value
import AgentFlow.Proofs.Python.Width
import AgentFlow.Proofs.Repair.Reply
import AgentFlow.Proofs.Source.Fence
import AgentFlow.Proofs.Source.Projection
import AgentFlow.Proofs.Text.Fragment
import AgentFlow.Proofs.Text.Latin
import AgentFlow.Proofs.Text.Lines
import AgentFlow.Proofs.TextMap
import AgentFlow.Proofs.Verify.Accounting
import AgentFlow.Proofs.Verify.Again
import AgentFlow.Proofs.Verify.Budget
import AgentFlow.Proofs.Verify.Cancel
import AgentFlow.Proofs.Verify.Confidence
import AgentFlow.Proofs.Verify.Stages
import AgentFlow.Proofs.Verify.Standing
import AgentFlow.Proofs.Verify.Step
import AgentFlow.Proofs.Verify.Truth
import AgentFlow.Python.Expr
import AgentFlow.Python.Layout
import AgentFlow.Python.Literal
import AgentFlow.Python.Module
import AgentFlow.Python.Render
import AgentFlow.Repair.Basic
import AgentFlow.Repair.Chat
import AgentFlow.Service.Backoff
import AgentFlow.Service.Error
import AgentFlow.Service.Http
import AgentFlow.Service.Limiter
import AgentFlow.Settings
import AgentFlow.Source
import AgentFlow.Text.Alphabetic
import AgentFlow.Text.Basic
import AgentFlow.Text.Class
import AgentFlow.Text.Mark
import AgentFlow.Text.Numeral
import AgentFlow.TextMap
import AgentFlow.Verify.Options
import AgentFlow.Verify.Result
import AgentFlow.Verify.Run
