import CodeIndex.Batch.Optimizer
import CodeIndex.Batch.Retry
import CodeIndex.Bytes
import CodeIndex.Change.ChangeSet
import CodeIndex.Change.Confirm
import CodeIndex.Change.Detect
import CodeIndex.Change.FileState
import CodeIndex.Change.NameStatus
import CodeIndex.Change.Target
import CodeIndex.Cli.Options
import CodeIndex.Cli.Program
import CodeIndex.Config.Basic
import CodeIndex.Config.Document
import CodeIndex.Config.Fields
import CodeIndex.Config.Layer
import CodeIndex.Config.Secret
import CodeIndex.Digest.Fingerprint
import CodeIndex.Digest.Sha256
import CodeIndex.Disk.Basic
import CodeIndex.Disk.Change
import CodeIndex.Entity.Basic
import CodeIndex.Entity.Json
import CodeIndex.Entity.Mint
import CodeIndex.Extraction.Declaration
import CodeIndex.Extraction.Extractor
import CodeIndex.Extraction.Tree
import CodeIndex.Extraction.Walk
import CodeIndex.Git.Command
import CodeIndex.Git.Rename
import CodeIndex.Git.Repository
import CodeIndex.Git.Similarity
import CodeIndex.Git.Snapshot
import CodeIndex.Git.Step
import CodeIndex.Git.View
import CodeIndex.Git.Worktree
import CodeIndex.Glob.Parse
import CodeIndex.Glob.Pattern
import CodeIndex.Json.Access
import CodeIndex.Json.Decode
import CodeIndex.Json.Printer
import CodeIndex.Json.Reader
import CodeIndex.Json.Value
import CodeIndex.Main
import CodeIndex.Number.Decimal
import CodeIndex.Number.Double
import CodeIndex.Number.Shortest
import CodeIndex.Path
import CodeIndex.Points.Point
import CodeIndex.Points.Service
import CodeIndex.Points.Store
import CodeIndex.Points.Uuid
import CodeIndex.Proofs.Batch.Limits
import CodeIndex.Proofs.Change.ChangeSet
import CodeIndex.Proofs.Change.Complete
import CodeIndex.Proofs.Change.Confirm
import CodeIndex.Proofs.Change.Detect
import CodeIndex.Proofs.Change.Grammar
import CodeIndex.Proofs.Change.Mended
import CodeIndex.Proofs.Change.Pairing
import CodeIndex.Proofs.Change.Sound
import CodeIndex.Proofs.Digest.Fields
import CodeIndex.Proofs.Disk.Frame
import CodeIndex.Proofs.Disk.Linkless
import CodeIndex.Proofs.Entity.Mint
import CodeIndex.Proofs.Extraction.Group
import CodeIndex.Proofs.Extraction.Placed
import CodeIndex.Proofs.Extraction.Reach
import CodeIndex.Proofs.Json.Decode
import CodeIndex.Proofs.Json.RoundTrip
import CodeIndex.Proofs.Points.Mirror
import CodeIndex.Proofs.Points.Payload
import CodeIndex.Proofs.Points.Requests
import CodeIndex.Proofs.Points.Uuid
import CodeIndex.Proofs.Provider.Vectors
import CodeIndex.Proofs.Run.Accounting
import CodeIndex.Proofs.Run.Advance
import CodeIndex.Proofs.Run.Agreement
import CodeIndex.Proofs.Run.Asking
import CodeIndex.Proofs.Run.Balance
import CodeIndex.Proofs.Run.Batched
import CodeIndex.Proofs.Run.Bookkeeping
import CodeIndex.Proofs.Run.Calm
import CodeIndex.Proofs.Run.Cancelled
import CodeIndex.Proofs.Run.Chronicle
import CodeIndex.Proofs.Run.Described
import CodeIndex.Proofs.Run.Division
import CodeIndex.Proofs.Run.Draining
import CodeIndex.Proofs.Run.Edits
import CodeIndex.Proofs.Run.Execute
import CodeIndex.Proofs.Run.Filing
import CodeIndex.Proofs.Run.Filling
import CodeIndex.Proofs.Run.Handing
import CodeIndex.Proofs.Run.Interrupted
import CodeIndex.Proofs.Run.Ledger
import CodeIndex.Proofs.Run.Leftover
import CodeIndex.Proofs.Run.Lineage
import CodeIndex.Proofs.Run.Loading
import CodeIndex.Proofs.Run.Logic
import CodeIndex.Proofs.Run.Performed
import CodeIndex.Proofs.Run.Preparation
import CodeIndex.Proofs.Run.Progress
import CodeIndex.Proofs.Run.Provenance
import CodeIndex.Proofs.Run.Quiet
import CodeIndex.Proofs.Run.Reconcile
import CodeIndex.Proofs.Run.Records
import CodeIndex.Proofs.Run.Refresh
import CodeIndex.Proofs.Run.Relocation
import CodeIndex.Proofs.Run.Repeat
import CodeIndex.Proofs.Run.Replay
import CodeIndex.Proofs.Run.Rerun
import CodeIndex.Proofs.Run.Restored
import CodeIndex.Proofs.Run.Restructure
import CodeIndex.Proofs.Run.Resumed
import CodeIndex.Proofs.Run.Rules
import CodeIndex.Proofs.Run.Saving
import CodeIndex.Proofs.Run.Sending
import CodeIndex.Proofs.Run.Showing
import CodeIndex.Proofs.Run.Since
import CodeIndex.Proofs.Run.Torn
import CodeIndex.Proofs.Run.Touching
import CodeIndex.Proofs.Run.Transparent
import CodeIndex.Proofs.Run.Undecided
import CodeIndex.Proofs.Run.Unwritten
import CodeIndex.Proofs.Run.Verdict
import CodeIndex.Proofs.Scan.Reach
import CodeIndex.Proofs.Scan.Walk
import CodeIndex.Proofs.State.Files
import CodeIndex.Proofs.State.Manifest
import CodeIndex.Proofs.Store.Curated
import CodeIndex.Proofs.Store.Memory
import CodeIndex.Proofs.Store.Shown
import CodeIndex.Proofs.Store.Sizes
import CodeIndex.Proofs.Text.Utf8
import CodeIndex.Proofs.Time.Timestamp
import CodeIndex.Provider.Client
import CodeIndex.Provider.Response
import CodeIndex.Run.Batch
import CodeIndex.Run.Batching
import CodeIndex.Run.Embed
import CodeIndex.Run.Error
import CodeIndex.Run.Pipeline
import CodeIndex.Run.Prepare
import CodeIndex.Run.Progress
import CodeIndex.Run.Result
import CodeIndex.Run.Session
import CodeIndex.Run.State
import CodeIndex.Run.StateFiles
import CodeIndex.Run.Structural
import CodeIndex.Run.World
import CodeIndex.Scan.Filter
import CodeIndex.Scan.IgnoreRule
import CodeIndex.Scan.Walk
import CodeIndex.State.Checkpoint
import CodeIndex.State.CheckpointFile
import CodeIndex.State.Freshness
import CodeIndex.State.Manifest
import CodeIndex.State.ManifestFile
import CodeIndex.Store.Entry
import CodeIndex.Store.Memory
import CodeIndex.Store.VectorStore
import CodeIndex.Store.Writer
import CodeIndex.Text.Alphanumeric
import CodeIndex.Text.Blank
import CodeIndex.Text.Hex
import CodeIndex.Text.Hidden
import CodeIndex.Text.Line
import CodeIndex.Text.Quoted
import CodeIndex.Text.Ranges
import CodeIndex.Text.Uri
import CodeIndex.Text.Utf8
import CodeIndex.Time.Duration
import CodeIndex.Time.Timestamp
import CodeIndex.Toml.DateTime
import CodeIndex.Toml.Printer
import CodeIndex.Toml.Reader
import CodeIndex.Toml.Scalar
import CodeIndex.Toml.Value
import CodeIndex.Proofs.Run.Watched
