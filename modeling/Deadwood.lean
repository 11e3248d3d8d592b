import Deadwood.Analysis
import Deadwood.Cleanup.Outcome
import Deadwood.Cleanup.Run
import Deadwood.Cleanup.Stage
import Deadwood.CommandLine.Arguments
import Deadwood.CommandLine.Command
import Deadwood.CommandLine.Console
import Deadwood.CommandLine.Document
import Deadwood.CommandLine.Entry
import Deadwood.CommandLine.Inspection
import Deadwood.CommandLine.Snapshots
import Deadwood.CommandLine.Sweeping
import Deadwood.CommandLine.Toolkit
import Deadwood.Deletion.Item
import Deadwood.Deletion.Record
import Deadwood.Deletion.Session
import Deadwood.Diff.Blocks
import Deadwood.Diff.Unified
import Deadwood.Files.Links
import Deadwood.Files.Path
import Deadwood.Files.Tree
import Deadwood.Graph.Basic
import Deadwood.Graph.Build
import Deadwood.Graph.Indexed
import Deadwood.Graph.Reach
import Deadwood.Json.Double
import Deadwood.Json.Order
import Deadwood.Json.Printer
import Deadwood.Json.Reader
import Deadwood.Json.Value
import Deadwood.Keyed
import Deadwood.Main
import Deadwood.Moment
import Deadwood.Pattern.Matcher
import Deadwood.Pattern.Parser
import Deadwood.Pattern.Syntax
import Deadwood.Plan
import Deadwood.Removal
import Deadwood.Report.Basic
import Deadwood.Report.Csv
import Deadwood.Report.Detail
import Deadwood.Report.Dot
import Deadwood.Report.Files
import Deadwood.Report.Percent
import Deadwood.Report.Script
import Deadwood.Report.Summary
import Deadwood.Report.Tree
import Deadwood.Risk
import Deadwood.Roots
import Deadwood.Settings.Basic
import Deadwood.Settings.Keys
import Deadwood.Settings.Load
import Deadwood.Shell.Command
import Deadwood.Shell.Launcher
import Deadwood.Shell.Words
import Deadwood.Snapshot.Basic
import Deadwood.Snapshot.Log
import Deadwood.Snapshot.Rollback
import Deadwood.Snapshot.Store
import Deadwood.Source.Bracket
import Deadwood.Source.Definition
import Deadwood.Source.Extraction
import Deadwood.Source.Markup
import Deadwood.Source.Mask
import Deadwood.Source.Mention
import Deadwood.Source.Scan
import Deadwood.SourceFile
import Deadwood.SourceTree
import Deadwood.Text.AlphanumericRanges
import Deadwood.Text.CharClass
import Deadwood.Text.CharNames
import Deadwood.Text.Lines
import Deadwood.Text.LowercaseRuns
import Deadwood.Text.Order
import Deadwood.Text.PrintableRanges
import Deadwood.Text.Quoted
import Deadwood.Text.SigmaContext
import Deadwood.Text.SortedSet
import Deadwood.Text.Split
import Deadwood.Text.Styled
import Deadwood.Text.Utf8
import Deadwood.Toml.Document
import Deadwood.Toml.LogicalLines
import Deadwood.Toml.Reading
import Deadwood.Toml.Scalar
import Deadwood.Toml.Value
import Deadwood.Toml.Writer
import Deadwood.Validation
import Deadwood.World
import Deadwood.Proofs.AppliedSettings
import Deadwood.Proofs.ArrowExpressions
import Deadwood.Proofs.BindingIntroducers
import Deadwood.Proofs.BlockBodies
import Deadwood.Proofs.BrokenSnapshots
import Deadwood.Proofs.BuiltEdges
import Deadwood.Proofs.BuiltGraph
import Deadwood.Proofs.BuiltTables
import Deadwood.Proofs.Calls
import Deadwood.Proofs.ChainCalls
import Deadwood.Proofs.Claiming
import Deadwood.Proofs.CleanupEnds
import Deadwood.Proofs.CleanupSafety
import Deadwood.Proofs.ClockedRuns
import Deadwood.Proofs.CommentedMarkup
import Deadwood.Proofs.ConfinedSessions
import Deadwood.Proofs.ConverseLinks
import Deadwood.Proofs.DeletionLogs
import Deadwood.Proofs.DocumentKeys
import Deadwood.Proofs.FailedReadings
import Deadwood.Proofs.FailedSnapshots
import Deadwood.Proofs.FileOrder
import Deadwood.Proofs.FirstRemovals
import Deadwood.Proofs.GraphCalls
import Deadwood.Proofs.GrowingLogs
import Deadwood.Proofs.Growth
import Deadwood.Proofs.HiddenContents
import Deadwood.Proofs.Introducers
import Deadwood.Proofs.IsolatedFailures
import Deadwood.Proofs.ItemCommands
import Deadwood.Proofs.ItemRuns
import Deadwood.Proofs.JoinedLines
import Deadwood.Proofs.KeptLines
import Deadwood.Proofs.KeyedEntries
import Deadwood.Proofs.LastingSnapshots
import Deadwood.Proofs.LinkedCalls
import Deadwood.Proofs.LinkedSessions
import Deadwood.Proofs.ListedSnapshots
import Deadwood.Proofs.LiveCode
import Deadwood.Proofs.LocatedDefinitions
import Deadwood.Proofs.LoneDeletions
import Deadwood.Proofs.MaskShape
import Deadwood.Proofs.MaskTurns
import Deadwood.Proofs.MomentOrder
import Deadwood.Proofs.MomentTexts
import Deadwood.Proofs.MovingScans
import Deadwood.Proofs.NestedTemplates
import Deadwood.Proofs.PageSpans
import Deadwood.Proofs.Partition
import Deadwood.Proofs.PathLaws
import Deadwood.Proofs.PlacedDefinitions
import Deadwood.Proofs.PlacedMentions
import Deadwood.Proofs.PlainToolkits
import Deadwood.Proofs.QuotedTexts
import Deadwood.Proofs.Reachability
import Deadwood.Proofs.Rehearsal
import Deadwood.Proofs.RemoteChains
import Deadwood.Proofs.RemovalFrame
import Deadwood.Proofs.ReportAgreement
import Deadwood.Proofs.ReportDrawings
import Deadwood.Proofs.ReportFrame
import Deadwood.Proofs.ReportLists
import Deadwood.Proofs.ReportReading
import Deadwood.Proofs.ReportedTexts
import Deadwood.Proofs.RespelledPaths
import Deadwood.Proofs.RestoredOver
import Deadwood.Proofs.RetainedSnapshots
import Deadwood.Proofs.RiskGate
import Deadwood.Proofs.ScanLocality
import Deadwood.Proofs.ScriptReading
import Deadwood.Proofs.ScriptRuns
import Deadwood.Proofs.ScriptWords
import Deadwood.Proofs.Seam
import Deadwood.Proofs.SessionFrame
import Deadwood.Proofs.SettingsFrame
import Deadwood.Proofs.SettingsOrder
import Deadwood.Proofs.ShellReading
import Deadwood.Proofs.ShownWords
import Deadwood.Proofs.ShrinkingRemovals
import Deadwood.Proofs.Sightings
import Deadwood.Proofs.SnapshotCopy
import Deadwood.Proofs.SnapshotPruning
import Deadwood.Proofs.SnapshotRestore
import Deadwood.Proofs.SnapshotTaking
import Deadwood.Proofs.SpanBounds
import Deadwood.Proofs.SplicedIntroductions
import Deadwood.Proofs.Splicing
import Deadwood.Proofs.StableOrder
import Deadwood.Proofs.StoredLines
import Deadwood.Proofs.StyledLines
import Deadwood.Proofs.SweptAnalysis
import Deadwood.Proofs.TextBytes
import Deadwood.Proofs.TreeCopies
import Deadwood.Proofs.TreeLaws
import Deadwood.Proofs.TreeLayings
import Deadwood.Proofs.TwoViews
import Deadwood.Proofs.UnendedBodies
import Deadwood.Proofs.ViewPlaces
import Deadwood.Proofs.WidenedPlans
import Deadwood.Proofs.WrittenValues
