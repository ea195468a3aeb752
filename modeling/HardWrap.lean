import HardWrap.Audit
import HardWrap.Calendar
import HardWrap.CommandLine.Arguments
import HardWrap.CommandLine.Failure
import HardWrap.CommandLine.Files
import HardWrap.CommandLine.Halt
import HardWrap.CommandLine.Host
import HardWrap.CommandLine.Layout
import HardWrap.CommandLine.Options
import HardWrap.CommandLine.Page
import HardWrap.CommandLine.Parse
import HardWrap.CommandLine.Progress
import HardWrap.CommandLine.Run
import HardWrap.CommandLine.Timestamp
import HardWrap.CommandLine.Workspace
import HardWrap.CommandLine.Wrap
import HardWrap.Decimal.Binary64
import HardWrap.Decimal.Numeral
import HardWrap.Decimal.Shortest
import HardWrap.Document.Buffer
import HardWrap.Document.Edit
import HardWrap.Document.Keystroke
import HardWrap.Document.Request
import HardWrap.Document.Selection
import HardWrap.Document.View
import HardWrap.Engine
import HardWrap.Fill
import HardWrap.Json
import HardWrap.Limits
import HardWrap.Line.Basic
import HardWrap.Line.Command
import HardWrap.Line.Environment
import HardWrap.Line.Kind
import HardWrap.Line.Margin
import HardWrap.Main
import HardWrap.Note
import HardWrap.Proofs.Anchors
import HardWrap.Proofs.BatchRuns
import HardWrap.Proofs.BlankLines
import HardWrap.Proofs.Boundaries
import HardWrap.Proofs.CaretPlacement
import HardWrap.Proofs.CheckRuns
import HardWrap.Proofs.CheckedLookups
import HardWrap.Proofs.CommandGrammar
import HardWrap.Proofs.CommentFidelity
import HardWrap.Proofs.CommentSigns
import HardWrap.Proofs.Contents
import HardWrap.Proofs.EngineState
import HardWrap.Proofs.EnvironmentTokens
import HardWrap.Proofs.Escapes
import HardWrap.Proofs.FileRuns
import HardWrap.Proofs.FileTrees
import HardWrap.Proofs.FilledTexts
import HardWrap.Proofs.Filling
import HardWrap.Proofs.HardBoundaries
import HardWrap.Proofs.Idempotence
import HardWrap.Proofs.LayeredSettings
import HardWrap.Proofs.LayoutFaults
import HardWrap.Proofs.LineEndings
import HardWrap.Proofs.LineLists
import HardWrap.Proofs.LineTable
import HardWrap.Proofs.Lines
import HardWrap.Proofs.LiveText
import HardWrap.Proofs.OffsetLookup
import HardWrap.Proofs.OpenEnvironment
import HardWrap.Proofs.OptionSettings
import HardWrap.Proofs.Overrides
import HardWrap.Proofs.Packing
import HardWrap.Proofs.ParagraphLayout
import HardWrap.Proofs.Paragraphs
import HardWrap.Proofs.Preparation
import HardWrap.Proofs.RangeFaults
import HardWrap.Proofs.Reports
import HardWrap.Proofs.Rereading
import HardWrap.Proofs.Rewrap
import HardWrap.Proofs.Rows
import HardWrap.Proofs.Seams
import HardWrap.Proofs.Sections
import HardWrap.Proofs.SelectedRows
import HardWrap.Proofs.Settled
import HardWrap.Proofs.StableBlocks
import HardWrap.Proofs.SteadyHosts
import HardWrap.Proofs.TabMargins
import HardWrap.Proofs.Tables
import HardWrap.Proofs.TrimmedEdits
import HardWrap.Proofs.TypingSession
import HardWrap.Proofs.UnchangedTexts
import HardWrap.Proofs.WholeRange
import HardWrap.Proofs.WidthAudit
import HardWrap.Proofs.WidthBound
import HardWrap.Proofs.WordPreservation
import HardWrap.Proofs.Words
import HardWrap.Proofs.Writing
import HardWrap.Reflow
import HardWrap.Report
import HardWrap.Segment
import HardWrap.Settings.Basic
import HardWrap.Settings.Fault
import HardWrap.Settings.Layer
import HardWrap.Settings.Override
import HardWrap.Settings.Value
import HardWrap.Style
import HardWrap.Text.Agreement
import HardWrap.Text.Blank
import HardWrap.Text.Case
import HardWrap.Text.Cased
import HardWrap.Text.Control
import HardWrap.Text.Digit
import HardWrap.Text.Letter
import HardWrap.Text.Order
import HardWrap.Text.Quoted
import HardWrap.Text.Range
import HardWrap.Text.Resemblance
import HardWrap.Text.Unprintable
import HardWrap.Text.Utf8
import HardWrap.Toml.Compound
import HardWrap.Toml.Document
import HardWrap.Toml.Moment
import HardWrap.Toml.Reader
import HardWrap.Toml.Scalar
import HardWrap.Tree.Basic
import HardWrap.Tree.Fault
import HardWrap.Tree.Path
