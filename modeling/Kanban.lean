import Kanban.Entries
import Kanban.Value
import Kanban.Text.Blank
import Kanban.Text.Digit
import Kanban.Text.Printable
import Kanban.Text.Uppercase
import Kanban.Text.Split
import Kanban.Text.Quoted
import Kanban.Decimal.Binary
import Kanban.Decimal.Shortest
import Kanban.Decimal.Layout
import Kanban.Decimal.Places
import Kanban.Decimal.Numeral
import Kanban.Value.Coerce
import Kanban.Json.Reader
import Kanban.Json.Writer
import Kanban.Sorting
import Kanban.Digest
import Kanban.Failure
import Kanban.Card
import Kanban.Stage
import Kanban.Directive
import Kanban.Allocator
import Kanban.Settings
import Kanban.Snapshot
import Kanban.Repository
import Kanban.Channel
import Kanban.Server
import Kanban.Transition
import Kanban.Service
import Kanban.Seeding
import Kanban.Projection.Basic
import Kanban.Projection.Moves
import Kanban.Projection.Events
import Kanban.Client
import Kanban.Http.MoveBody
import Kanban.Http.Target
import Kanban.Http.Route
import Kanban.Http.Answer
import Kanban.Http.Stream
import Kanban.Hub
import Kanban.CommandLine.Arguments
import Kanban.CommandLine.Command
import Kanban.CommandLine.Run
import Kanban.Main
import Kanban.Proofs.Entries
import Kanban.Proofs.Sorting
import Kanban.Proofs.Channel.Registry
import Kanban.Proofs.Channel.History
import Kanban.Proofs.Channel.Queue
import Kanban.Proofs.Channel.Tenants
import Kanban.Proofs.Decimal.Order
import Kanban.Proofs.Projection.Order
import Kanban.Proofs.Projection.Columns
import Kanban.Proofs.Projection.Ledger
import Kanban.Proofs.Projection.Agreement
import Kanban.Proofs.Projection.Hearing
import Kanban.Proofs.Projection.Wire
import Kanban.Proofs.Projection.Twin
import Kanban.Proofs.Projection.Onward
import Kanban.Proofs.Projection.Acts
import Kanban.Proofs.Projection.Shape
import Kanban.Proofs.Projection.Bookkeeping
import Kanban.Proofs.Operation
import Kanban.Proofs.Server.Records
import Kanban.Proofs.Server.Steps
import Kanban.Proofs.Server.Telling
import Kanban.Proofs.Server.Reading
import Kanban.Proofs.Server.Queue
import Kanban.Proofs.Watcher
import Kanban.Proofs.Fleet.System
import Kanban.Proofs.Fleet.Peer
import Kanban.Proofs.Fleet.Steps
import Kanban.Proofs.Fleet.Runs
import Kanban.Proofs.Storage.Writing
import Kanban.Proofs.Storage.Works
import Kanban.Proofs.Server.Folding
import Kanban.Proofs.Decimal.Numeral
import Kanban.Proofs.Storage.Using
import Kanban.Proofs.Server.Acts
import Kanban.Proofs.Server.Atomic
import Kanban.Proofs.Server.Housing
import Kanban.Proofs.Decimal.Bits
import Kanban.Proofs.Decimal.Closest
import Kanban.Proofs.Decimal.Shortest
import Kanban.Proofs.Json.Numbers
import Kanban.Proofs.Json.Strings
import Kanban.Proofs.Json.Values
import Kanban.Proofs.Storage.Loading
import Kanban.Proofs.Storage.Mirror
import Kanban.Proofs.Storage.Salvage
import Kanban.Proofs.Storage.Legible
import Kanban.Proofs.Decimal.Defined
import Kanban.Proofs.Projection.Display
import Kanban.Proofs.Projection.Provisional
import Kanban.Proofs.Projection.Awaited
import Kanban.Proofs.Server.Serving
import Kanban.Proofs.Server.Sending
import Kanban.Proofs.Replica
import Kanban.Proofs.Storage.InUse
import Kanban.Proofs.Server.Boards
import Kanban.Proofs.Service.Calls
import Kanban.Proofs.Service.Authorized
import Kanban.Proofs.Server.Positions
import Kanban.Proofs.Stream.Tape
import Kanban.Proofs.Stream.Delivery
import Kanban.Proofs.Readers.Turns
import Kanban.Proofs.Readers.Closing
import Kanban.Proofs.Decimal.Sums
import Kanban.Proofs.Server.Appends
import Kanban.Proofs.Projection.Spots
import Kanban.Proofs.Projection.Regular
import Kanban.Proofs.Projection.Overlaps
import Kanban.Proofs.Projection.Attempts
import Kanban.Proofs.Projection.Undoing
import Kanban.Proofs.Projection.Echoes
import Kanban.Proofs.Decimal.Equality
import Kanban.Proofs.Server.Foreseen
import Kanban.Proofs.Server.Deactivating
import Kanban.Proofs.Projection.Plain
import Kanban.Proofs.Projection.Duplicates
import Kanban.Proofs.Decimal.Whole
import Kanban.Proofs.Directive
import Kanban.Proofs.Service.Answers
import Kanban.Proofs.Service.Ids
import Kanban.Proofs.Service.Isolation
import Kanban.Proofs.Service.Listing
import Kanban.Proofs.Http.Numerals
import Kanban.Proofs.Http.Parameters
import Kanban.Proofs.Allocating
import Kanban.Proofs.Stream.Answers
import Kanban.Proofs.Seeding.Shown
import Kanban.Proofs.Storage.Numbering
import Kanban.Proofs.Projection.Phantoms
