import EventRelay.Calendar
import EventRelay.Command.Arguments
import EventRelay.Command.Execute
import EventRelay.Command.Report
import EventRelay.Command.Spec
import EventRelay.Command.Usage
import EventRelay.Config.Document
import EventRelay.Config.Format.Ini
import EventRelay.Config.Format.Json5
import EventRelay.Config.Format.Scan
import EventRelay.Config.Format.Toml
import EventRelay.Config.Format.Yaml
import EventRelay.Config.Layers
import EventRelay.Config.Load
import EventRelay.Config.Settings
import EventRelay.Config.Value
import EventRelay.Context
import EventRelay.Decimal.Notation
import EventRelay.Decimal.Reading
import EventRelay.Decimal.Shortest
import EventRelay.Event
import EventRelay.EventId
import EventRelay.Failure
import EventRelay.Json.Basic
import EventRelay.Json.Decode
import EventRelay.Json.Literal
import EventRelay.Json.Tree
import EventRelay.Json.Writer
import EventRelay.Location.Path
import EventRelay.Location.Tree
import EventRelay.Log
import EventRelay.Log.Filter
import EventRelay.Log.Render
import EventRelay.Log.Setup
import EventRelay.Main
import EventRelay.Pipeline
import EventRelay.Program
import EventRelay.Queue.Basic
import EventRelay.Queue.Flush
import EventRelay.Queue.Runner
import EventRelay.Resolve
import EventRelay.Retry
import EventRelay.Run.Advance
import EventRelay.Run.Await
import EventRelay.Run.Running
import EventRelay.Run.Tasks
import EventRelay.Run.Track
import EventRelay.Run.World
import EventRelay.Store.Basic
import EventRelay.Store.Database
import EventRelay.Store.Disk
import EventRelay.Store.Pending
import EventRelay.Store.Slot
import EventRelay.Text.Blank
import EventRelay.Text.Columns
import EventRelay.Text.Hidden
import EventRelay.Text.Lowercase
import EventRelay.Text.Quoted
import EventRelay.Text.Split
import EventRelay.Text.Table
import EventRelay.Tracker
import EventRelay.Transport.Address
import EventRelay.Transport.Basic
import EventRelay.Transport.Dialogue
import EventRelay.Transport.Handle
import EventRelay.Transport.Status
import EventRelay.Proofs.Queue.Books
import EventRelay.Proofs.Queue.Retention
import EventRelay.Proofs.Queue.Exclusion
import EventRelay.Proofs.Queue.SingleDelivery
import EventRelay.Proofs.Queue.Permits
import EventRelay.Proofs.Queue.Flushes
import EventRelay.Proofs.Queue.Chunks
import EventRelay.Proofs.Queue.Isolation
import EventRelay.Proofs.Queue.Interference
import EventRelay.Proofs.Json.Numbers
import EventRelay.Proofs.Json.Layout
import EventRelay.Proofs.Json.Fields
import EventRelay.Proofs.Json.Nesting
import EventRelay.Proofs.Event.Contexts
import EventRelay.Proofs.Event.RoundTrip
import EventRelay.Proofs.Store.Calls
import EventRelay.Proofs.Store.Refinement
import EventRelay.Proofs.Store.Reload
import EventRelay.Proofs.Store.Mishaps
import EventRelay.Proofs.Queue.Order
import EventRelay.Proofs.Queue.Turns
import EventRelay.Proofs.Queue.Ticks
import EventRelay.Proofs.Transport.Exchanges
import EventRelay.Proofs.Transport.Delivery
import EventRelay.Proofs.Run.Scripts
import EventRelay.Proofs.Run.Onward
import EventRelay.Proofs.Run.Talks
import EventRelay.Proofs.Transport.Law
import EventRelay.Proofs.Queue.Settlement
import EventRelay.Proofs.Queue.Usability
import EventRelay.Proofs.Queue.Progress
import EventRelay.Proofs.Queue.Runners
import EventRelay.Proofs.Run.Drift
import EventRelay.Proofs.Run.Histories
import EventRelay.Proofs.Run.LeftAlone
import EventRelay.Proofs.Run.LifeCycle
import EventRelay.Proofs.Location.Operations
import EventRelay.Proofs.Location.Lineage
import EventRelay.Proofs.Location.Walking
import EventRelay.Proofs.Location.Forest
import EventRelay.Proofs.Location.Collisions
import EventRelay.Proofs.Location.Identities
import EventRelay.Proofs.Run.Deliveries
import EventRelay.Proofs.Run.Tracking
import EventRelay.Proofs.Resolve.Slots
import EventRelay.Proofs.Resolve.Timetable
import EventRelay.Proofs.Run.Marks
import EventRelay.Proofs.Run.Clockwork
import EventRelay.Proofs.Run.Resolving
import EventRelay.Proofs.Run.Retries
import EventRelay.Proofs.Run.Together
import EventRelay.Proofs.Run.Posting
import EventRelay.Proofs.Run.Account
import EventRelay.Proofs.Run.Flushing
import EventRelay.Proofs.Command.Handover
import EventRelay.Proofs.Command.Sessions
import EventRelay.Proofs.Location.Removal
import EventRelay.Proofs.Location.Mounting
import EventRelay.Proofs.Json.NormalForm
import EventRelay.Proofs.Event.Canonical
import EventRelay.Proofs.Run.Sequence
import EventRelay.Proofs.Run.Assembly
import EventRelay.Proofs.Json.Grammar
import EventRelay.Proofs.Json.Limits
import EventRelay.Proofs.Json.Members
import EventRelay.Proofs.Event.Forms
import EventRelay.Proofs.Event.Format
import EventRelay.Proofs.Config.Paths
import EventRelay.Proofs.Config.Records
import EventRelay.Proofs.Config.Layering
import EventRelay.Proofs.Config.Variables
import EventRelay.Proofs.Config.Readiness
import EventRelay.Proofs.Text.Tables
import EventRelay.Proofs.Command.Specs
import EventRelay.Proofs.Command.Listing
import EventRelay.Proofs.Location.Traversals
