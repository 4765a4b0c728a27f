import CommitVerdict.Batch
import CommitVerdict.ChangeSet
import CommitVerdict.CommandLine.Options
import CommitVerdict.CommandLine.Parser
import CommitVerdict.Config
import CommitVerdict.DecodeError
import CommitVerdict.Description
import CommitVerdict.Description.Machine
import CommitVerdict.Differential
import CommitVerdict.Duration
import CommitVerdict.Event.Basic
import CommitVerdict.Event.Display
import CommitVerdict.FileSystem
import CommitVerdict.Git.CommitId
import CommitVerdict.Git.Delta
import CommitVerdict.Git.Error
import CommitVerdict.Git.Pathspec
import CommitVerdict.Git.Repository
import CommitVerdict.Git.Revision
import CommitVerdict.Git.WorkingCopy
import CommitVerdict.Host
import CommitVerdict.Json.Basic
import CommitVerdict.Json.Decode
import CommitVerdict.Json.Number
import CommitVerdict.Json.Printer
import CommitVerdict.Json.Reader
import CommitVerdict.Leaf
import CommitVerdict.Locator
import CommitVerdict.LogFile
import CommitVerdict.Logger
import CommitVerdict.Main
import CommitVerdict.Number.Binary64
import CommitVerdict.Number.Decimal
import CommitVerdict.Number.Literal
import CommitVerdict.OsError
import CommitVerdict.Path
import CommitVerdict.PathText
import CommitVerdict.Process.Capture
import CommitVerdict.Process.Launch
import CommitVerdict.Process.Run
import CommitVerdict.Process.Stream
import CommitVerdict.Report
import CommitVerdict.Session
import CommitVerdict.Shell.Arithmetic
import CommitVerdict.Shell.Builtin
import CommitVerdict.Shell.Command
import CommitVerdict.Shell.Expansion
import CommitVerdict.Shell.Field
import CommitVerdict.Shell.Interpreter
import CommitVerdict.Shell.Program
import CommitVerdict.Shell.State
import CommitVerdict.Shell.Token
import CommitVerdict.Shell.Word
import CommitVerdict.Suite
import CommitVerdict.Suite.Command
import CommitVerdict.Suite.Expectation
import CommitVerdict.Suite.Scripted
import CommitVerdict.TestCommand
import CommitVerdict.TestRun
import CommitVerdict.Text.Blank
import CommitVerdict.Text.Glob
import CommitVerdict.Text.Hex
import CommitVerdict.Text.Lines
import CommitVerdict.Text.Quoted
import CommitVerdict.Text.Regex
import CommitVerdict.Text.Style
import CommitVerdict.Text.Utf8
import CommitVerdict.Text.Visible
import CommitVerdict.Toml.Basic
import CommitVerdict.Toml.Reader
import CommitVerdict.Toml.Scalar
import CommitVerdict.Tree
import CommitVerdict.Utility.Basic
import CommitVerdict.Utility.Catalogue
import CommitVerdict.Utility.Condition
import CommitVerdict.Utility.Files
import CommitVerdict.Utility.Filters
import CommitVerdict.Utility.Print
import CommitVerdict.Verdict
import CommitVerdict.VerificationError
import CommitVerdict.Workspace
import CommitVerdict.Proofs.Tree.Lookup
import CommitVerdict.Proofs.Tree.Overlay
import CommitVerdict.Proofs.WorkingCopy.Data
import CommitVerdict.Proofs.Differential.Phases
import CommitVerdict.Proofs.Differential.Reconstruction
import CommitVerdict.Proofs.Batch.Independence
import CommitVerdict.Proofs.Area.PathBytes
import CommitVerdict.Proofs.Area.Components
import CommitVerdict.Proofs.Area.Matching
import CommitVerdict.Proofs.Area.Reading
import CommitVerdict.Proofs.Area.Probe
import CommitVerdict.Proofs.Area.Selection
import CommitVerdict.Proofs.Area.Agreement
import CommitVerdict.Proofs.Differential.Leftovers
import CommitVerdict.Proofs.Differential.TestsArea
import CommitVerdict.Proofs.Differential.Interruption
import CommitVerdict.Proofs.Repository.Deltas
import CommitVerdict.Proofs.Repository.Changes
import CommitVerdict.Proofs.Repository.FirstParent
import CommitVerdict.Proofs.Batch.Resolution
import CommitVerdict.Proofs.Batch.Course
import CommitVerdict.Proofs.Batch.Runs
import CommitVerdict.Proofs.Batch.Soundness
import CommitVerdict.Proofs.Batch.Interruption
import CommitVerdict.Proofs.Batch.Lock
import CommitVerdict.Proofs.Batch.Protocol
import CommitVerdict.Proofs.Session.Startup
import CommitVerdict.Proofs.Session.Protocol
import CommitVerdict.Proofs.Batch.Results
import CommitVerdict.Proofs.Session.Summary
import CommitVerdict.Proofs.Session.Outputs
import CommitVerdict.Proofs.Area.Spelling
import CommitVerdict.Proofs.Area.Plain
import CommitVerdict.Proofs.Batch.Interchange
import CommitVerdict.Proofs.Batch.Spelling
import CommitVerdict.Proofs.Repository.Cloning
import CommitVerdict.Proofs.Repository.BranchNames
import CommitVerdict.Proofs.Differential.Reversion
import CommitVerdict.Proofs.Toml.Names
import CommitVerdict.Proofs.Session.Settings
import CommitVerdict.Proofs.Session.Checks
import CommitVerdict.Proofs.Json.Lexemes
import CommitVerdict.Proofs.Json.Documents
import CommitVerdict.Proofs.Number.Interval
import CommitVerdict.Proofs.Text.Hex
import CommitVerdict.Proofs.Text.Lines
import CommitVerdict.Proofs.Text.Lossy
import CommitVerdict.Proofs.Process.Stream
import CommitVerdict.Proofs.Process.Capture
import CommitVerdict.Proofs.Process.Delivery
import CommitVerdict.Proofs.Process.Captured
import CommitVerdict.Proofs.Process.Decoding
import CommitVerdict.Proofs.Number.Rounding
import CommitVerdict.Proofs.Number.Shortest
import CommitVerdict.Proofs.Number.Notation
import CommitVerdict.Proofs.Json.Readings
import CommitVerdict.Proofs.Json.Records
import CommitVerdict.Proofs.Event.Decoding
import CommitVerdict.Proofs.FileSystem.Contents
import CommitVerdict.Proofs.Event.Logging
import CommitVerdict.Proofs.Report.Document
import CommitVerdict.Proofs.Process.Status
import CommitVerdict.Proofs.Number.Seconds
import CommitVerdict.Proofs.Fallible
import CommitVerdict.Proofs.Json.Ordered
import CommitVerdict.Proofs.TestRun.Decoding
import CommitVerdict.Proofs.Area.Tidied
import CommitVerdict.Proofs.FileSystem.Canonical
import CommitVerdict.Proofs.FileSystem.Enclosing
import CommitVerdict.Proofs.Number.Positional
import CommitVerdict.Proofs.Repository.IdTexts
import CommitVerdict.Proofs.Event.Banner
