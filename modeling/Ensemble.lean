import Ensemble.Agent.Handle
import Ensemble.Agent.Model
import Ensemble.Agent.Registry
import Ensemble.Agent.Tool
import Ensemble.Clock
import Ensemble.Compile
import Ensemble.Config
import Ensemble.Decimal.Notation
import Ensemble.Decimal.Reading
import Ensemble.Decode.Source
import Ensemble.Definition.Basic
import Ensemble.Definition.Loading
import Ensemble.Definition.Notation
import Ensemble.Engine
import Ensemble.Error
import Ensemble.Error.Notation
import Ensemble.Input.Resolution
import Ensemble.Input.Schema
import Ensemble.Json.Basic
import Ensemble.Json.Document
import Ensemble.Json.Printer
import Ensemble.Json.Reader
import Ensemble.Media.Base64
import Ensemble.Media.Payload
import Ensemble.Message
import Ensemble.Plan.Step
import Ensemble.Process.Basic
import Ensemble.Process.Fan
import Ensemble.Process.Schedule
import Ensemble.Process.Script
import Ensemble.Proofs.Agent.Conversation
import Ensemble.Proofs.Agent.Effects
import Ensemble.Proofs.Agent.Handle
import Ensemble.Proofs.Agent.Protocol
import Ensemble.Proofs.Agent.Rounds
import Ensemble.Proofs.Compile.Images
import Ensemble.Proofs.Compile.Injection
import Ensemble.Proofs.Compile.Messages
import Ensemble.Proofs.Compile.Names
import Ensemble.Proofs.Compile.References
import Ensemble.Proofs.Compile.Refusals
import Ensemble.Proofs.Compile.Slots
import Ensemble.Proofs.Compile.Steps
import Ensemble.Proofs.Compile.Structure
import Ensemble.Proofs.Decimal.Digits
import Ensemble.Proofs.Decode.Values
import Ensemble.Proofs.Definition.RoundTrip
import Ensemble.Proofs.Definition.Selection
import Ensemble.Proofs.Definition.Tree
import Ensemble.Proofs.Definition.Validation
import Ensemble.Proofs.Engine.Accounting
import Ensemble.Proofs.Engine.Answering
import Ensemble.Proofs.Engine.BestEffort
import Ensemble.Proofs.Engine.Dropping
import Ensemble.Proofs.Engine.Filing
import Ensemble.Proofs.Engine.Logging
import Ensemble.Proofs.Engine.Preflight
import Ensemble.Proofs.Engine.Preparation
import Ensemble.Proofs.Engine.Registration
import Ensemble.Proofs.Engine.Report
import Ensemble.Proofs.Engine.Statistics
import Ensemble.Proofs.Engine.Streaming
import Ensemble.Proofs.Except
import Ensemble.Proofs.Execution.Accounting
import Ensemble.Proofs.Execution.Answers
import Ensemble.Proofs.Execution.Calls
import Ensemble.Proofs.Execution.Composition
import Ensemble.Proofs.Execution.Covering
import Ensemble.Proofs.Execution.Crashing
import Ensemble.Proofs.Execution.Dropping
import Ensemble.Proofs.Execution.Efforts
import Ensemble.Proofs.Execution.Failures
import Ensemble.Proofs.Execution.Filing
import Ensemble.Proofs.Execution.Matching
import Ensemble.Proofs.Execution.Orderly
import Ensemble.Proofs.Execution.Outputs
import Ensemble.Proofs.Execution.Permits
import Ensemble.Proofs.Execution.Precedence
import Ensemble.Proofs.Execution.Reference
import Ensemble.Proofs.Execution.Refinement
import Ensemble.Proofs.Execution.Steps
import Ensemble.Proofs.Execution.Twins
import Ensemble.Proofs.Execution.Verdict
import Ensemble.Proofs.Execution.Visibility
import Ensemble.Proofs.Input.Checking
import Ensemble.Proofs.Input.Partition
import Ensemble.Proofs.Input.Requirements
import Ensemble.Proofs.Input.Resolution
import Ensemble.Proofs.Json.Numbers
import Ensemble.Proofs.Json.Printing
import Ensemble.Proofs.Json.RoundTrip
import Ensemble.Proofs.Media.Base64
import Ensemble.Proofs.Media.Payload
import Ensemble.Proofs.Plan.Binding
import Ensemble.Proofs.Plan.Tree
import Ensemble.Proofs.Plan.Validation
import Ensemble.Proofs.Plan.Visible
import Ensemble.Proofs.Process.Acts
import Ensemble.Proofs.Process.Counting
import Ensemble.Proofs.Process.Crashing
import Ensemble.Proofs.Process.Ending
import Ensemble.Proofs.Process.FanOut
import Ensemble.Proofs.Process.History
import Ensemble.Proofs.Process.Passing
import Ensemble.Proofs.Process.Permits
import Ensemble.Proofs.Process.Reach
import Ensemble.Proofs.Process.Run
import Ensemble.Proofs.Process.Schedule
import Ensemble.Proofs.Process.Termination
import Ensemble.Proofs.Process.TwinSchedules
import Ensemble.Proofs.Process.Twins
import Ensemble.Proofs.Run.Cover
import Ensemble.Proofs.Run.Efforts
import Ensemble.Proofs.Run.Entries
import Ensemble.Proofs.Run.Likeness
import Ensemble.Proofs.Run.Results
import Ensemble.Proofs.Run.Ticks
import Ensemble.Proofs.Run.Tokens
import Ensemble.Proofs.Run.Trace
import Ensemble.Proofs.Table
import Ensemble.Proofs.Template.Holes
import Ensemble.Proofs.Template.Occurrences
import Ensemble.Proofs.Text.Utf8
import Ensemble.Proofs.Time.Notation
import Ensemble.Proofs.Time.Order
import Ensemble.Proofs.Trace.Sink
import Ensemble.Proofs.Trace.Stream
import Ensemble.Proofs.Trace.Wire
import Ensemble.Proofs.Usage.Accounts
import Ensemble.Proofs.Usage.Buckets
import Ensemble.Proofs.Usage.Sessions
import Ensemble.Proofs.Usage.Tokens
import Ensemble.Proofs.Usage.Windows
import Ensemble.Rehearsal.Branches
import Ensemble.Rehearsal.Model
import Ensemble.Rehearsal.Notation
import Ensemble.Rehearsal.Tools
import Ensemble.Rehearsal.Transcript
import Ensemble.Request.Basic
import Ensemble.Request.Body
import Ensemble.Response
import Ensemble.Run.Act
import Ensemble.Run.Events
import Ensemble.Run.Execution
import Ensemble.Run.Log
import Ensemble.Run.Report
import Ensemble.Run.World
import Ensemble.Store.Memory
import Ensemble.Store.Services
import Ensemble.Template
import Ensemble.Text.Characters
import Ensemble.Text.Utf8
import Ensemble.Time.Instant
import Ensemble.Time.Reading
import Ensemble.Time.Span
import Ensemble.Trace.Chunk
import Ensemble.Trace.Sink
import Ensemble.Usage.Session
import Ensemble.Usage.Stat
import Ensemble.Usage.Tokens
import Ensemble.Yaml.Content
import Ensemble.Yaml.Cursor
import Ensemble.Yaml.Node
import Ensemble.Yaml.Reading
import Ensemble.Yaml.Scalar
import Ensemble.Yaml.Token
