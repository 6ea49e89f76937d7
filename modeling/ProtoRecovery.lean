import ProtoRecovery.Bus.Basic
import ProtoRecovery.Bus.Dispatch
import ProtoRecovery.Bus.Script
import ProtoRecovery.Cli.Command
import ProtoRecovery.Cli.Duration
import ProtoRecovery.Cli.Flag
import ProtoRecovery.Cli.Number
import ProtoRecovery.Cli.Settings
import ProtoRecovery.Cli.Usage
import ProtoRecovery.Disk.Basic
import ProtoRecovery.Disk.Error
import ProtoRecovery.Disk.Path
import ProtoRecovery.Dump.Event
import ProtoRecovery.Dump.Job
import ProtoRecovery.Dump.Machine
import ProtoRecovery.Dump.Report
import ProtoRecovery.Dump.Run
import ProtoRecovery.ErrorClass
import ProtoRecovery.Layout.Indent
import ProtoRecovery.Layout.Writer
import ProtoRecovery.Link.Closure
import ProtoRecovery.Link.Names
import ProtoRecovery.Link.Normal
import ProtoRecovery.Main
import ProtoRecovery.Outline.Basic
import ProtoRecovery.Outline.Clause
import ProtoRecovery.Outline.Fault
import ProtoRecovery.Outline.OfSchema
import ProtoRecovery.Outline.Position
import ProtoRecovery.Outline.Reader
import ProtoRecovery.Outline.Script
import ProtoRecovery.Outline.Shape
import ProtoRecovery.Outline.Token
import ProtoRecovery.Render
import ProtoRecovery.Rounding
import ProtoRecovery.RunId
import ProtoRecovery.Schema.Basic
import ProtoRecovery.Schema.Kind
import ProtoRecovery.Sink.Basic
import ProtoRecovery.Sink.Directory
import ProtoRecovery.Sink.Memory
import ProtoRecovery.Sink.Stamp
import ProtoRecovery.Sink.Stream
import ProtoRecovery.Sorting.Ordered
import ProtoRecovery.Sorting.Quicksort
import ProtoRecovery.Source.Basic
import ProtoRecovery.Source.Compile
import ProtoRecovery.Source.Lookup
import ProtoRecovery.Source.Standard
import ProtoRecovery.Source.Standard.Descriptors
import ProtoRecovery.Source.Standard.Text
import ProtoRecovery.Source.Standard.Types
import ProtoRecovery.Source.Standard.Values
import ProtoRecovery.Text.Blank
import ProtoRecovery.Text.Bytes
import ProtoRecovery.Text.Decimal
import ProtoRecovery.Text.Printable
import ProtoRecovery.Text.Quoted
import ProtoRecovery.Text.Template
import ProtoRecovery.Text.Utf8
import ProtoRecovery.Tracing
import ProtoRecovery.Wire.Decode
import ProtoRecovery.Wire.Encode
import ProtoRecovery.Wire.Fields
import ProtoRecovery.Wire.Grammar
import ProtoRecovery.Wire.Record
import ProtoRecovery.Wire.Varint
import ProtoRecovery.Proofs.Text.Splitting
import ProtoRecovery.Proofs.Layout.Rows
import ProtoRecovery.Proofs.Outline.Rows
import ProtoRecovery.Proofs.Text.Reading
import ProtoRecovery.Proofs.Outline.Clauses
import ProtoRecovery.Proofs.Outline.Scanning
import ProtoRecovery.Proofs.Outline.Spelling
import ProtoRecovery.Proofs.Outline.View
import ProtoRecovery.Proofs.Outline.Named
import ProtoRecovery.Proofs.Outline.Indentation
import ProtoRecovery.Proofs.Render.Lossless
import ProtoRecovery.Proofs.Source.Fields
import ProtoRecovery.Proofs.Source.Settled
import ProtoRecovery.Proofs.Source.Recompile
import ProtoRecovery.Proofs.Layout.Balance
import ProtoRecovery.Proofs.Outline.Balanced
import ProtoRecovery.Proofs.Render.Depth
import ProtoRecovery.Proofs.Render.Outcome
import ProtoRecovery.Proofs.Render.LayoutLaw
import ProtoRecovery.Proofs.Dump.History
import ProtoRecovery.Proofs.Dump.Books
import ProtoRecovery.Proofs.Dump.Ledger
import ProtoRecovery.Proofs.Dump.Completion
import ProtoRecovery.Proofs.Dump.Accounts
import ProtoRecovery.Proofs.Dump.Success
import ProtoRecovery.Proofs.Dump.Abort
import ProtoRecovery.Proofs.Dump.Diary
import ProtoRecovery.Proofs.Dump.Protocol
import ProtoRecovery.Proofs.Dump.Independence
import ProtoRecovery.Proofs.Tables
import ProtoRecovery.Proofs.Disk.Cleaning
import ProtoRecovery.Proofs.Disk.Frame
import ProtoRecovery.Proofs.Sink.Containment
import ProtoRecovery.Proofs.Layout.Calls
import ProtoRecovery.Proofs.Wire.Records
import ProtoRecovery.Proofs.Wire.Messages
import ProtoRecovery.Proofs.Wire.Stored
import ProtoRecovery.Proofs.Wire.Restored
import ProtoRecovery.Proofs.Wire.Boundaries
import ProtoRecovery.Proofs.Source.Sets
import ProtoRecovery.Proofs.Tracing.Moments
import ProtoRecovery.Proofs.Tracing.Spans
import ProtoRecovery.Proofs.Tracing.Runs
import ProtoRecovery.Proofs.Bus.History
import ProtoRecovery.Proofs.Bus.Delivery
import ProtoRecovery.Proofs.Outline.Places
import ProtoRecovery.Proofs.Layout.Pieces
import ProtoRecovery.Proofs.Render.Composition
import ProtoRecovery.Proofs.Render.Absent
import ProtoRecovery.Proofs.Source.Merging
import ProtoRecovery.Proofs.Source.Packages
import ProtoRecovery.Proofs.Dump.Names
import ProtoRecovery.Proofs.Link.Closure
import ProtoRecovery.Proofs.Disk.Writing
import ProtoRecovery.Proofs.Sink.Writes
import ProtoRecovery.Proofs.Render.Margins
import ProtoRecovery.Proofs.Sink.Recovery
import ProtoRecovery.Proofs.Render.Tokens
import ProtoRecovery.Proofs.Layout.Lines
import ProtoRecovery.Proofs.Layout.Levels
import ProtoRecovery.Proofs.Layout.Nesting
import ProtoRecovery.Proofs.Layout.Closing
