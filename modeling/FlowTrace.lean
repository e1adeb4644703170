import FlowTrace.Decimal
import FlowTrace.Json.Reader
import FlowTrace.Json.Writer
import FlowTrace.Json.Record
import FlowTrace.Text
import FlowTrace.Event.Kind
import FlowTrace.Arithmetic
import FlowTrace.Time.Instant
import FlowTrace.Time.Window
import FlowTrace.Time.Rfc3339
import FlowTrace.Event.Basic
import FlowTrace.Naming.Table
import FlowTrace.Naming.Heap
import FlowTrace.Trace.Record
import FlowTrace.Trace.Index
import FlowTrace.Trace.Calls
import FlowTrace.History
import FlowTrace.Dump.Reader
import FlowTrace.Time.Argument
import FlowTrace.Report.HopLatency
import FlowTrace.Report.Table
import FlowTrace.Trace.Json
import FlowTrace.Document
import FlowTrace.Files.Tree
import FlowTrace.Program.Run
import FlowTrace.Main
import FlowTrace.Proofs.Naming.Ids
import FlowTrace.Proofs.Trace.Entries
import FlowTrace.Proofs.Trace.Index
import FlowTrace.Proofs.Trace.Frame
import FlowTrace.Proofs.Trace.Folding
import FlowTrace.Proofs.Time.Earliest
import FlowTrace.Proofs.Trace.Modes
import FlowTrace.Proofs.Trace.Names
import FlowTrace.Proofs.Trace.Reading
import FlowTrace.Proofs.Time.Cuts
import FlowTrace.Proofs.Trace.Splitting
import FlowTrace.Proofs.Time.Tiling
import FlowTrace.Proofs.Trace.Origin
import FlowTrace.Proofs.Trace.LogSplitting
import FlowTrace.Proofs.Trace.Arrival
import FlowTrace.Proofs.Trace.Answers
import FlowTrace.Proofs.Naming.Growth
import FlowTrace.Proofs.Trace.Growth
import FlowTrace.Proofs.Trace.Sources
import FlowTrace.Proofs.Trace.Spelling
import FlowTrace.Proofs.Trace.Independence
import FlowTrace.Proofs.Trace.IdSpace
import FlowTrace.Proofs.Trace.Filing
import FlowTrace.Proofs.Dump.Times
import FlowTrace.Proofs.History
import FlowTrace.Proofs.Program.Build
import FlowTrace.Proofs.Program.Spans
import FlowTrace.Proofs.Trace.StickyOrigin
import FlowTrace.Proofs.Program.Inspect
import FlowTrace.Proofs.Files.Writing
import FlowTrace.Proofs.Naming.Heap
import FlowTrace.Proofs.Trace.OpenStamps
import FlowTrace.Proofs.Program.Cover
import FlowTrace.Proofs.Trace.Allocations
import FlowTrace.Proofs.Program.Retained
import FlowTrace.Proofs.Dump.SharedNames
import FlowTrace.Proofs.Trace.TaskIdentity
import FlowTrace.Proofs.Trace.EmptyName
import FlowTrace.Proofs.Trace.ReadingBack
import FlowTrace.Proofs.Json.Locality
import FlowTrace.Proofs.Arithmetic
import FlowTrace.Proofs.Report.Elapsed
import FlowTrace.Proofs.Report.NodeLoad
import FlowTrace.Proofs.Report.Listing
import FlowTrace.Proofs.Report.HopLatency
import FlowTrace.Proofs.Report.Bounded
import FlowTrace.Proofs.Dump.Records
import FlowTrace.Proofs.Dump.Lines
import FlowTrace.Proofs.Dump.Layouts
