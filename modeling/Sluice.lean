import Sluice.Border.Basic
import Sluice.Border.Perform
import Sluice.Border.Progress
import Sluice.Border.Reading
import Sluice.Border.Writing
import Sluice.Channel.Basic
import Sluice.Channel.Net
import Sluice.Channel.Transfer
import Sluice.Channel.Waiting
import Sluice.Cli.Command
import Sluice.Cli.Execute
import Sluice.Digest
import Sluice.Document
import Sluice.Error
import Sluice.Graph.Basic
import Sluice.Graph.Codec
import Sluice.Graph.File
import Sluice.Graph.Plan
import Sluice.Graph.Topology
import Sluice.Json.Basic
import Sluice.Json.Document
import Sluice.Json.Read
import Sluice.Main
import Sluice.Number.Binary64
import Sluice.Number.Decimal
import Sluice.Number.Integer
import Sluice.Number.Shortest
import Sluice.Number.Written
import Sluice.Proofs.Border.Dispatch
import Sluice.Proofs.Border.Intake
import Sluice.Proofs.Border.Journal
import Sluice.Proofs.Border.Rotation
import Sluice.Proofs.Border.Solo
import Sluice.Proofs.Border.Split
import Sluice.Proofs.Border.Steps
import Sluice.Proofs.Border.Totals
import Sluice.Proofs.Border.Uniform
import Sluice.Proofs.Border.Vigil
import Sluice.Proofs.Channel.History
import Sluice.Proofs.Channel.Locking
import Sluice.Proofs.Channel.Parking
import Sluice.Proofs.Channel.Turns
import Sluice.Proofs.Graph.Cycles
import Sluice.Proofs.Graph.Levels
import Sluice.Proofs.Graph.Order
import Sluice.Proofs.Graph.Reading
import Sluice.Proofs.Graph.Runnable
import Sluice.Proofs.Graph.Validity
import Sluice.Proofs.Json.Integers
import Sluice.Proofs.Json.Unambiguous
import Sluice.Proofs.Net.Ledger
import Sluice.Proofs.Net.Touch
import Sluice.Proofs.Number.Distinctness
import Sluice.Proofs.Number.Exactness
import Sluice.Proofs.Number.Numerals
import Sluice.Proofs.Number.Rounding
import Sluice.Proofs.Number.Shortening
import Sluice.Proofs.Number.Signs
import Sluice.Proofs.Number.Spelling
import Sluice.Proofs.Prelude
import Sluice.Proofs.Run.Afoot
import Sluice.Proofs.Run.Ages
import Sluice.Proofs.Run.Alone
import Sluice.Proofs.Run.Balance
import Sluice.Proofs.Run.Begun
import Sluice.Proofs.Run.Blueprint
import Sluice.Proofs.Run.Braking
import Sluice.Proofs.Run.Chart
import Sluice.Proofs.Run.Chronicle
import Sluice.Proofs.Run.Closing
import Sluice.Proofs.Run.Concatenation
import Sluice.Proofs.Run.Confluence
import Sluice.Proofs.Run.CutOff
import Sluice.Proofs.Run.Deadlock
import Sluice.Proofs.Run.Deeds
import Sluice.Proofs.Run.Determinacy
import Sluice.Proofs.Run.EndOfStream
import Sluice.Proofs.Run.Ending
import Sluice.Proofs.Run.Failing
import Sluice.Proofs.Run.Faults
import Sluice.Proofs.Run.Filtering
import Sluice.Proofs.Run.Lanes
import Sluice.Proofs.Run.Layout
import Sluice.Proofs.Run.Live
import Sluice.Proofs.Run.Outcomes
import Sluice.Proofs.Run.Owed
import Sluice.Proofs.Run.Preparing
import Sluice.Proofs.Run.Reference
import Sluice.Proofs.Run.Refusals
import Sluice.Proofs.Run.Regraphed
import Sluice.Proofs.Run.Report
import Sluice.Proofs.Run.Rigging
import Sluice.Proofs.Run.Selecting
import Sluice.Proofs.Run.Staffed
import Sluice.Proofs.Run.Station
import Sluice.Proofs.Run.Steady
import Sluice.Proofs.Run.Steps
import Sluice.Proofs.Run.Stopped
import Sluice.Proofs.Run.Swept
import Sluice.Proofs.Run.Tally
import Sluice.Proofs.Run.Todo
import Sluice.Proofs.Run.Tracking
import Sluice.Proofs.Run.Wakeups
import Sluice.Proofs.Run.Wired
import Sluice.Proofs.Run.Wiring
import Sluice.Proofs.Step.Answers
import Sluice.Proofs.Step.Catalog
import Sluice.Proofs.Step.Conditions
import Sluice.Proofs.Step.Finished
import Sluice.Proofs.Step.Layouts
import Sluice.Proofs.Step.Literals
import Sluice.Proofs.Step.Logic
import Sluice.Proofs.Step.Order
import Sluice.Proofs.Step.Rows
import Sluice.Proofs.Step.Rowwise
import Sluice.Proofs.Step.Sources
import Sluice.Proofs.Value.Conversions
import Sluice.Proofs.Value.Preorder
import Sluice.Row
import Sluice.Run.Action
import Sluice.Run.Basic
import Sluice.Run.Control
import Sluice.Run.Error
import Sluice.Run.History
import Sluice.Run.Lifecycle
import Sluice.Run.Lifetime
import Sluice.Run.Manifest
import Sluice.Run.Producer
import Sluice.Run.Report
import Sluice.Run.Schedule
import Sluice.Run.Unit
import Sluice.Run.Wiring
import Sluice.Schema
import Sluice.Schema.Codec
import Sluice.Settings
import Sluice.Shape
import Sluice.Step.Abort
import Sluice.Step.Append
import Sluice.Step.Catalog
import Sluice.Step.Condition
import Sluice.Step.Error
import Sluice.Step.Filter
import Sluice.Step.Generate
import Sluice.Step.Loop
import Sluice.Step.Script
import Sluice.Step.Select
import Sluice.Step.Task
import Sluice.Step.Type
import Sluice.Table
import Sluice.Text.Blank
import Sluice.Text.Hex
import Sluice.Text.Hidden
import Sluice.Text.Quoted
import Sluice.UnitId
import Sluice.Value.Basic
import Sluice.Value.Codec
import Sluice.Value.Convert
import Sluice.Value.Order
import Sluice.Yaml.Cursor
import Sluice.Yaml.Document
import Sluice.Yaml.Node
import Sluice.Yaml.Plain
import Sluice.Yaml.Scalar
import Sluice.Yaml.Token
import Sluice.Yaml.Tokens
