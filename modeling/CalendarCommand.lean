import CalendarCommand.Text.Blank
import CalendarCommand.Text.Alphanumeric
import CalendarCommand.ContentLine.Physical
import CalendarCommand.ContentLine.Fold
import CalendarCommand.ContentLine.Unfold
import CalendarCommand.ContentLine.TextValue
import CalendarCommand.ContentLine.Splice
import CalendarCommand.Component.Basic
import CalendarCommand.Component.Reader
import CalendarCommand.Component.Writer
import CalendarCommand.Event.Basic
import CalendarCommand.Event.Reader
import CalendarCommand.Command.Fault
import CalendarCommand.Command.Builtin
import CalendarCommand.Command.Registry
import CalendarCommand.Time.Civil
import CalendarCommand.Time.Pattern
import CalendarCommand.Time.Stamp
import CalendarCommand.Settings.Basic
import CalendarCommand.Command.Outcome
import CalendarCommand.Command.Engine
import CalendarCommand.Decimal.Binary64
import CalendarCommand.Decimal.Shortest
import CalendarCommand.Json.Basic
import CalendarCommand.Json.Printer
import CalendarCommand.Json.Reader
import CalendarCommand.Exchange.Record
import CalendarCommand.Exchange.Event
import CalendarCommand.Exchange.Management
import CalendarCommand.Text.Utf8
import CalendarCommand.Files.Path
import CalendarCommand.Files.Tree
import CalendarCommand.Settings.Conversion
import CalendarCommand.Settings.KeyPath
import CalendarCommand.Settings.Layers
import CalendarCommand.Settings.Location
import CalendarCommand.Settings.DefaultFile
import CalendarCommand.Toml.Basic
import CalendarCommand.Toml.Scalar
import CalendarCommand.Toml.Text
import CalendarCommand.Toml.Document
import CalendarCommand.Http.MediaType
import CalendarCommand.Http.Target
import CalendarCommand.Http.Body
import CalendarCommand.Http.Service
import CalendarCommand.CommandLine.Arguments
import CalendarCommand.CommandLine.Style
import CalendarCommand.CommandLine.Failure
import CalendarCommand.CommandLine.Tasks
import CalendarCommand.CommandLine.Run
import CalendarCommand.Main
import CalendarCommand.Proofs.Text.Trimming
import CalendarCommand.Proofs.ContentLine.Lines
import CalendarCommand.Proofs.ContentLine.Folding
import CalendarCommand.Proofs.ContentLine.GreedyFolding
import CalendarCommand.Proofs.ContentLine.Escaping
import CalendarCommand.Proofs.ContentLine.EscapeUnits
import CalendarCommand.Proofs.ContentLine.Unfolding
import CalendarCommand.Proofs.ContentLine.FoldRoundTrip
import CalendarCommand.Proofs.ContentLine.PiecewiseUnfolding
import CalendarCommand.Proofs.ContentLine.TerminatedLines
import CalendarCommand.Proofs.ContentLine.WrittenLines
import CalendarCommand.Proofs.ContentLine.DescriptionFrame
import CalendarCommand.Proofs.ContentLine.SpliceUnfolding
import CalendarCommand.Proofs.ContentLine.SplicedLines
import CalendarCommand.Proofs.ContentLine.RepeatedSplice
import CalendarCommand.Proofs.ContentLine.LastWrite
import CalendarCommand.Proofs.ContentLine.SpanLine
import CalendarCommand.Proofs.Component.Scanning
import CalendarCommand.Proofs.Component.ClosedParameters
import CalendarCommand.Proofs.Component.Reading
import CalendarCommand.Proofs.Component.ReadingPlace
import CalendarCommand.Proofs.Component.PlainLine
import CalendarCommand.Proofs.Component.WrittenTree
import CalendarCommand.Proofs.Component.Rebuilding
import CalendarCommand.Proofs.Component.ChangedLine
import CalendarCommand.Proofs.Component.MeetingLine
import CalendarCommand.Proofs.Event.PlainBlock
import CalendarCommand.Proofs.Time.PatternGrammar
import CalendarCommand.Proofs.Time.StampText
import CalendarCommand.Proofs.Command.Handling
import CalendarCommand.Proofs.Command.RegistryTable
import CalendarCommand.Proofs.Command.Invocation
import CalendarCommand.Proofs.Files.Lookup
import CalendarCommand.Proofs.CommandLine.Candidates
import CalendarCommand.Proofs.CommandLine.ApplyingDirectory
import CalendarCommand.Proofs.Json.Reading
import CalendarCommand.Proofs.Json.RoundTrip
import CalendarCommand.Proofs.Exchange.Management
import CalendarCommand.Proofs.CommandLine.Agreement
import CalendarCommand.Proofs.Command.AuditLog
import CalendarCommand.Proofs.Command.Stamping
import CalendarCommand.Proofs.Command.Simulation
import CalendarCommand.Proofs.Event.ChangedProperty
import CalendarCommand.Proofs.Command.ReadBack
import CalendarCommand.Proofs.Event.WrittenCalendar
import CalendarCommand.Proofs.Event.ShownDescription
import CalendarCommand.Proofs.Command.SkippedBlock
import CalendarCommand.Proofs.Command.StoredText
import CalendarCommand.Proofs.CommandLine.Recognition
import CalendarCommand.Proofs.Exchange.Spelling
import CalendarCommand.Proofs.Settings.SettingsFile
import CalendarCommand.Proofs.Settings.Layering
import CalendarCommand.Proofs.Event.ClassNames
