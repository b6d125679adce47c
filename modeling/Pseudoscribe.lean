import Pseudoscribe.Answer
import Pseudoscribe.Assembly.Basic
import Pseudoscribe.Backend.Embedded
import Pseudoscribe.Backend.Kind
import Pseudoscribe.Backend.Manifest
import Pseudoscribe.Backend.Registry
import Pseudoscribe.Backend.Remote
import Pseudoscribe.Backend.Scripted
import Pseudoscribe.Backend.Spec
import Pseudoscribe.Block.Basic
import Pseudoscribe.Block.Json
import Pseudoscribe.Block.Nesting
import Pseudoscribe.Block.Shape
import Pseudoscribe.Cache.Store
import Pseudoscribe.Chunk.Basic
import Pseudoscribe.Chunk.Piece
import Pseudoscribe.Chunk.Plan
import Pseudoscribe.Code.Emitter
import Pseudoscribe.Code.Expression
import Pseudoscribe.Code.Form
import Pseudoscribe.Code.Generation
import Pseudoscribe.Code.Header
import Pseudoscribe.Code.Phrase
import Pseudoscribe.Code.Statement
import Pseudoscribe.Config.Basic
import Pseudoscribe.Config.Convert
import Pseudoscribe.Config.Layers
import Pseudoscribe.Config.Reader
import Pseudoscribe.Digest.Md5
import Pseudoscribe.Error
import Pseudoscribe.Event.Basic
import Pseudoscribe.Event.Publisher
import Pseudoscribe.Files
import Pseudoscribe.Http.Media
import Pseudoscribe.Http.Message
import Pseudoscribe.ImportLine
import Pseudoscribe.Issue
import Pseudoscribe.Json.Basic
import Pseudoscribe.Json.Form
import Pseudoscribe.Json.Members
import Pseudoscribe.Json.Printer
import Pseudoscribe.Json.Reader
import Pseudoscribe.Json.Record
import Pseudoscribe.Language
import Pseudoscribe.Main
import Pseudoscribe.Metrics
import Pseudoscribe.Number.Decimal
import Pseudoscribe.Number.Double
import Pseudoscribe.Number.Duration
import Pseudoscribe.Number.Total
import Pseudoscribe.Options
import Pseudoscribe.Pool.Basic
import Pseudoscribe.Pool.Crew
import Pseudoscribe.Prompt
import Pseudoscribe.Request
import Pseudoscribe.RequestId
import Pseudoscribe.Review
import Pseudoscribe.Run.Basic
import Pseudoscribe.Run.Chunk
import Pseudoscribe.Run.Engine
import Pseudoscribe.Scan.Scanner
import Pseudoscribe.Service.Basic
import Pseudoscribe.Service.Routes
import Pseudoscribe.Service.Socket
import Pseudoscribe.Service.Start
import Pseudoscribe.Task.Handle
import Pseudoscribe.Task.Retry
import Pseudoscribe.Task.State
import Pseudoscribe.Text.Alphabet
import Pseudoscribe.Text.Alphabet.Capitals
import Pseudoscribe.Text.Alphabet.Table
import Pseudoscribe.Text.Lines
import Pseudoscribe.Text.Quoted
import Pseudoscribe.Text.Trim
import Pseudoscribe.Toml.Complaint
import Pseudoscribe.Toml.Fault
import Pseudoscribe.Toml.Reader
import Pseudoscribe.Toml.Scalar
import Pseudoscribe.Toml.Tree
import Pseudoscribe.Tracker.Register
import Pseudoscribe.Url.Address
import Pseudoscribe.Url.Basic
import Pseudoscribe.Url.Punycode
import Pseudoscribe.Url.Reader
import Pseudoscribe.Worker.Fault
import Pseudoscribe.Worker.Link
import Pseudoscribe.Worker.Loop
import Pseudoscribe.Worker.Message
import Pseudoscribe.Worker.StandIn
import Pseudoscribe.Proofs.Block.Forest
import Pseudoscribe.Proofs.Chunk.Tiling
import Pseudoscribe.Proofs.Chunk.SafeCut
import Pseudoscribe.Proofs.Chunk.Seam
import Pseudoscribe.Proofs.Assembly.Accounts
import Pseudoscribe.Proofs.Code.FrameStep
import Pseudoscribe.Proofs.Scan.Alike
import Pseudoscribe.Proofs.Text.Pieces
import Pseudoscribe.Proofs.Text.Blur
import Pseudoscribe.Proofs.Scan.Content
import Pseudoscribe.Proofs.Block.Blur
import Pseudoscribe.Proofs.Chunk.Blur
import Pseudoscribe.Proofs.Code.Resume
import Pseudoscribe.Proofs.Code.Nesting
import Pseudoscribe.Proofs.Code.ChunkedNesting
import Pseudoscribe.Proofs.Code.Output
import Pseudoscribe.Proofs.Block.Depth
import Pseudoscribe.Proofs.Code.FrameBlock
import Pseudoscribe.Proofs.Code.Correspondence
import Pseudoscribe.Proofs.Pool.Run
import Pseudoscribe.Proofs.Pool.Flow
import Pseudoscribe.Proofs.Pool.Conservation
import Pseudoscribe.Proofs.Pool.Capacity
import Pseudoscribe.Proofs.Pool.Verdict
import Pseudoscribe.Proofs.Assembly.Ownership
import Pseudoscribe.Proofs.Run.Stages
import Pseudoscribe.Proofs.Run.Attempts
import Pseudoscribe.Proofs.Run.Moves
import Pseudoscribe.Proofs.Run.Result
import Pseudoscribe.Proofs.Run.Order
import Pseudoscribe.Proofs.Run.Cancellation
import Pseudoscribe.Proofs.Block.Intervals
import Pseudoscribe.Proofs.Code.Parts
import Pseudoscribe.Proofs.Code.Braces
import Pseudoscribe.Proofs.Code.Comments
import Pseudoscribe.Proofs.Code.Bodies
import Pseudoscribe.Proofs.Answer.Soundness
import Pseudoscribe.Proofs.Cache.Count
import Pseudoscribe.Proofs.Cache.Recency
import Pseudoscribe.Proofs.Code.Literals
import Pseudoscribe.Proofs.Cache.Key
import Pseudoscribe.Proofs.Worker.Wire
import Pseudoscribe.Proofs.Worker.Exchange
import Pseudoscribe.Proofs.Service.Cached
import Pseudoscribe.Proofs.Tracker.Lifecycle
import Pseudoscribe.Proofs.Tracker.Poller
import Pseudoscribe.Proofs.Run.Published
import Pseudoscribe.Proofs.Service.Progress
import Pseudoscribe.Proofs.Assembly.Literals
import Pseudoscribe.Proofs.Backend.FailClosed
import Pseudoscribe.Proofs.Backend.Transparency
import Pseudoscribe.Proofs.Assembly.Ranges
import Pseudoscribe.Proofs.Chunk.Context
import Pseudoscribe.Proofs.Scan.Brackets
import Pseudoscribe.Proofs.Review.Braces
import Pseudoscribe.Proofs.Chunk.Alone
import Pseudoscribe.Proofs.Block.Accounts
import Pseudoscribe.Proofs.Scan.Kept
import Pseudoscribe.Proofs.Code.Unknown
import Pseudoscribe.Proofs.Review.Places
import Pseudoscribe.Proofs.Code.Scopes
import Pseudoscribe.Proofs.Code.Alongside
import Pseudoscribe.Proofs.Code.Uncommented
import Pseudoscribe.Proofs.Backend.Coverage
import Pseudoscribe.Proofs.Block.Modifiers
import Pseudoscribe.Proofs.Code.Assignments
import Pseudoscribe.Proofs.Code.Introductions
import Pseudoscribe.Proofs.Backend.Budget
import Pseudoscribe.Proofs.Prompt.Fence
import Pseudoscribe.Proofs.Prompt.Echo
import Pseudoscribe.Proofs.Run.Warnings
import Pseudoscribe.Proofs.Task.Backoff
import Pseudoscribe.Proofs.Worker.Limits
import Pseudoscribe.Proofs.Event.Delivery
import Pseudoscribe.Proofs.Service.Watched
import Pseudoscribe.Proofs.Run.Figures
import Pseudoscribe.Proofs.Run.Metered
import Pseudoscribe.Proofs.Config.Usable
