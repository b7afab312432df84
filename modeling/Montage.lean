import Montage.Artifact.Name
import Montage.Artifact.Store
import Montage.Artifact.Upload
import Montage.Checksum
import Montage.CommandLine.Basic
import Montage.CommandLine.Run
import Montage.Compose.Download
import Montage.Compose.Error
import Montage.Compose.Floor
import Montage.Compose.Job
import Montage.Compose.Layout
import Montage.Compose.Link
import Montage.Compose.Workspace
import Montage.Disk.Basic
import Montage.Disk.Change
import Montage.Disk.Error
import Montage.Disk.Path
import Montage.Document.Basic
import Montage.Document.Fields
import Montage.Document.Json.Printer
import Montage.Document.Json.Reader
import Montage.Document.Lookup
import Montage.Document.Toml.Node
import Montage.Document.Toml.Reader
import Montage.Document.Toml.Scan
import Montage.Edit
import Montage.Fetch.Client
import Montage.Fetch.Fetcher
import Montage.Fetch.Network
import Montage.Geometry
import Montage.Graph.Basic
import Montage.Graph.Compile
import Montage.Graph.Filter
import Montage.Graph.Statement
import Montage.Graph.Stream
import Montage.Main
import Montage.Media.Info
import Montage.Media.Probe
import Montage.Media.Report
import Montage.Metrics
import Montage.Number.Decimal
import Montage.Number.Precision
import Montage.Number.Scalar
import Montage.Number.Word
import Montage.Pipeline.Board
import Montage.Pipeline.Run
import Montage.Program
import Montage.Proofs.Acts
import Montage.Proofs.Artifact.Addresses
import Montage.Proofs.Artifact.Finishing
import Montage.Proofs.Artifact.Leftovers
import Montage.Proofs.Artifact.Moves
import Montage.Proofs.Artifact.Names
import Montage.Proofs.Artifact.Publishing
import Montage.Proofs.Artifact.Rivals
import Montage.Proofs.Artifact.Uploading
import Montage.Proofs.Compose.Acceptance
import Montage.Proofs.Compose.Agreement
import Montage.Proofs.Compose.Alone
import Montage.Proofs.Compose.Attempts
import Montage.Proofs.Compose.Balance
import Montage.Proofs.Compose.Conduct
import Montage.Proofs.Compose.Course
import Montage.Proofs.Compose.Downloads
import Montage.Proofs.Compose.Endings
import Montage.Proofs.Compose.Extensions
import Montage.Proofs.Compose.Fetching
import Montage.Proofs.Compose.Filing
import Montage.Proofs.Compose.Inputs
import Montage.Proofs.Compose.Layouts
import Montage.Proofs.Compose.Naming
import Montage.Proofs.Compose.Prediction
import Montage.Proofs.Compose.Rehearsal
import Montage.Proofs.Compose.Rendering
import Montage.Proofs.Compose.Slots
import Montage.Proofs.Compose.Steps
import Montage.Proofs.Compose.Targets
import Montage.Proofs.Compose.Turning
import Montage.Proofs.Compose.Upholding
import Montage.Proofs.Compose.Window
import Montage.Proofs.Disk.Changes
import Montage.Proofs.Disk.Directories
import Montage.Proofs.Disk.Files
import Montage.Proofs.Disk.Keeping
import Montage.Proofs.Disk.Paths
import Montage.Proofs.Disk.Sparing
import Montage.Proofs.Disk.Ways
import Montage.Proofs.Disk.Written
import Montage.Proofs.Document.RoundTrip
import Montage.Proofs.Document.Values
import Montage.Proofs.Fetch.Saving
import Montage.Proofs.Graph.Arguments
import Montage.Proofs.Graph.Clause
import Montage.Proofs.Graph.Cuts
import Montage.Proofs.Graph.Frame
import Montage.Proofs.Graph.Joins
import Montage.Proofs.Graph.Label
import Montage.Proofs.Graph.Layout
import Montage.Proofs.Graph.Lengths
import Montage.Proofs.Graph.Pads
import Montage.Proofs.Graph.Paths
import Montage.Proofs.Graph.Pieces
import Montage.Proofs.Graph.Printed
import Montage.Proofs.Graph.Rotations
import Montage.Proofs.Graph.Sound
import Montage.Proofs.Graph.Survivors
import Montage.Proofs.Graph.Trail
import Montage.Proofs.Graph.Wiring
import Montage.Proofs.Graph.Writing
import Montage.Proofs.Journal
import Montage.Proofs.Media.Presence
import Montage.Proofs.Number.Digits
import Montage.Proofs.Number.Nearest
import Montage.Proofs.Number.Order
import Montage.Proofs.Number.Places
import Montage.Proofs.Number.Powers
import Montage.Proofs.Number.Ranges
import Montage.Proofs.Number.Rounding
import Montage.Proofs.Pipeline.Calls
import Montage.Proofs.Pipeline.Facts
import Montage.Proofs.Pipeline.Flattening
import Montage.Proofs.Pipeline.Links
import Montage.Proofs.Pipeline.Order
import Montage.Proofs.Pipeline.Outputs
import Montage.Proofs.Pipeline.Receivers
import Montage.Proofs.Pipeline.Running
import Montage.Proofs.Pipeline.Sessions
import Montage.Proofs.Record.Archive
import Montage.Proofs.Record.Tables
import Montage.Proofs.Record.TimeText
import Montage.Proofs.Record.Times
import Montage.Proofs.Settings.Backoff
import Montage.Proofs.Text.Characters
import Montage.Proofs.Text.Encoding
import Montage.Proofs.Text.Percent
import Montage.Proofs.Transcoder.Ends
import Montage.Proofs.Transcoder.Lines
import Montage.Proofs.Transcoder.Modes
import Montage.Proofs.Transcoder.Reports
import Montage.Proofs.Transcoder.Stream
import Montage.Proofs.Transcoder.Watching
import Montage.Record.Store
import Montage.Record.Table
import Montage.Record.Timestamp
import Montage.Record.Video
import Montage.Rehearsal.Crew
import Montage.Rehearsal.Media
import Montage.Rehearsal.Program
import Montage.Rehearsal.Requests
import Montage.Rehearsal.Script
import Montage.Rehearsal.Services
import Montage.Rehearsal.Transcoding
import Montage.Render.Error
import Montage.Report.Failure
import Montage.Report.Result
import Montage.Report.Tally
import Montage.Scenario.Basic
import Montage.Scenario.Request
import Montage.Settings.Basic
import Montage.Settings.Environment
import Montage.Settings.Render
import Montage.Settings.Retry
import Montage.Text.Blank
import Montage.Text.Percent
import Montage.Text.Quoted
import Montage.Text.Unprintable
import Montage.Text.Utf8
import Montage.Transcoder.Basic
import Montage.Transcoder.Child
import Montage.Transcoder.Line
import Montage.Transcoder.Progress
import Montage.World
