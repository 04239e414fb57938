import Offload.Base64
import Offload.Bytes
import Offload.Chunk.Chunker
import Offload.Chunk.Packing
import Offload.Chunk.Strategy
import Offload.CommandLine
import Offload.Config.Basic
import Offload.Config.File
import Offload.Config.Lookup
import Offload.Digest.Compression
import Offload.Digest.Stream
import Offload.Failure
import Offload.Fields
import Offload.Job.Builder
import Offload.Job.Definition
import Offload.Job.Identity
import Offload.Job.Manifest
import Offload.Job.Status
import Offload.Job.Work
import Offload.Json.Basic
import Offload.Json.Fault
import Offload.Json.Parser
import Offload.Json.Printer
import Offload.Json.Utf8
import Offload.Json.Wire
import Offload.Link.Basic
import Offload.Link.Environment
import Offload.Link.Handle
import Offload.Link.Loop
import Offload.Link.Operation
import Offload.Link.Reply
import Offload.Log
import Offload.Main
import Offload.Node.Basic
import Offload.Node.Chats
import Offload.Node.Jobs
import Offload.Node.Peers
import Offload.Node.Query
import Offload.Node.Streams
import Offload.Node.Training
import Offload.Number.Binary
import Offload.Number.Decimal
import Offload.Record.Chat
import Offload.Record.Compute
import Offload.Record.Node
import Offload.Record.Stream
import Offload.Record.Training
import Offload.Session.Basic
import Offload.Session.Once
import Offload.Session.Record
import Offload.WordCount
import Offload.Proofs.Base64
import Offload.Proofs.Base64.Accepted
import Offload.Proofs.Base64.Size
import Offload.Proofs.Binary
import Offload.Proofs.Chunk.Greedy
import Offload.Proofs.Chunk.Packing
import Offload.Proofs.Chunk.Sizing
import Offload.Proofs.Chunk.Slices
import Offload.Proofs.Chunk.Splitting
import Offload.Proofs.Chunk.Tiling
import Offload.Proofs.Chunk.Transmission
import Offload.Proofs.CommandLine
import Offload.Proofs.Config.Port
import Offload.Proofs.Config.Settings
import Offload.Proofs.Config.Written
import Offload.Proofs.Decimal
import Offload.Proofs.Digest.Stream
import Offload.Proofs.Fields
import Offload.Proofs.Job.Accepted
import Offload.Proofs.Job.Definition
import Offload.Proofs.Job.Frozen
import Offload.Proofs.Job.Identity
import Offload.Proofs.Job.Manifest
import Offload.Proofs.Job.MapReduce
import Offload.Proofs.Job.Work
import Offload.Proofs.Json.Member
import Offload.Proofs.Json.Place
import Offload.Proofs.Json.Printer
import Offload.Proofs.Json.Shape
import Offload.Proofs.Json.Utf8
import Offload.Proofs.Json.Wire
import Offload.Proofs.Link.Actions
import Offload.Proofs.Link.Alike
import Offload.Proofs.Link.Attempt
import Offload.Proofs.Link.Books
import Offload.Proofs.Link.Calls
import Offload.Proofs.Link.Cancellation
import Offload.Proofs.Link.Classified
import Offload.Proofs.Link.Clock
import Offload.Proofs.Link.Connection
import Offload.Proofs.Link.Course
import Offload.Proofs.Link.Drive
import Offload.Proofs.Link.Exchange
import Offload.Proofs.Link.Followed
import Offload.Proofs.Link.GivenUp
import Offload.Proofs.Link.Handshake
import Offload.Proofs.Link.InFlight
import Offload.Proofs.Link.Inquiry
import Offload.Proofs.Link.Joined
import Offload.Proofs.Link.Kept
import Offload.Proofs.Link.Marks
import Offload.Proofs.Link.Numbering
import Offload.Proofs.Link.Once
import Offload.Proofs.Link.Outcome
import Offload.Proofs.Link.Passage
import Offload.Proofs.Link.Phases
import Offload.Proofs.Link.Reports
import Offload.Proofs.Link.Serving
import Offload.Proofs.Link.Spares
import Offload.Proofs.Link.Steady
import Offload.Proofs.Link.Stop
import Offload.Proofs.Link.Welcome
import Offload.Proofs.Link.Work
import Offload.Proofs.Node.Confirmed
import Offload.Proofs.Node.Contained
import Offload.Proofs.Node.Handover
import Offload.Proofs.Node.Heard
import Offload.Proofs.Node.Listed
import Offload.Proofs.Record
import Offload.Proofs.Session.Deadline
import Offload.Proofs.Session.Delivered
import Offload.Proofs.Session.Expiry
import Offload.Proofs.Session.History
import Offload.Proofs.Session.Manifest
import Offload.Proofs.Session.Once
import Offload.Proofs.Session.Refusal
import Offload.Proofs.Session.Replaced
import Offload.Proofs.Session.Run
import Offload.Proofs.Session.Settled
import Offload.Proofs.Session.Soundness
import Offload.Proofs.Session.Steady
import Offload.Proofs.Session.Submit
import Offload.Proofs.Session.Tracking
import Offload.Proofs.Session.Verification
import Offload.Proofs.WordCount
