import FlowTrace.Json.Reader
import FlowTrace.Json.Writer
import FlowTrace.Time.Instant
import FlowTrace.Time.Rfc3339
import FlowTrace.Trace.Json
import FlowTrace.Trace.Record
set_option autoImplicit false

/-!
# Document: traces on disk

A document holds the traces of successive windows and says which range they cover.  Its layout has a
version, so that readers can tell what they understand.  It is written as pretty JSON with its fields
in declared order, and read back from any layout of the same JSON.
-/

namespace FlowTrace

/-- What the records of a document stand for. -/
inductive Mode where
  /-- one record for each task -/
  | trace
  /-- one record for each event -/
  | log
  deriving DecidableEq, Repr, Inhabited

/-- The name of a mode. -/
def Mode.name : Mode → String
  | .trace => "trace"
  | .log => "log"

/-- The mode with a name. -/
def Mode.ofName? (name : String) : Option Mode :=
  [Mode.trace, Mode.log].find? fun mode => mode.name = name

/-- The traces of successive windows. -/
structure Document where
  version : String
  mode : Mode
  /-- the first instant covered -/
  windowBegin : Instant
  /-- the end of the covered range, not covered itself -/
  windowEnd : Instant
  /-- one trace for each window -/
  traces : List Trace
  /-- when the document was made -/
  generatedAt : String
  deriving DecidableEq, Repr

namespace Document

/-- The version of the layout. -/
def schemaVersion : String := "1.0.0"

/-- The number of records in all traces. -/
def recordCount (d : Document) : Nat := (d.traces.flatMap Trace.records).length

end Document

/-! ## JSON text -/

/-- The mode that a value names; a name may also stand as the only field of an object, with null. -/
def Mode.ofJson? : Json → Option Mode
  | .string text => text.bind Mode.ofName?
  | .object [(some name, .null)] => Mode.ofName? name
  | _ => none

/-- An instant in the free form of RFC 3339. -/
def Instant.ofJson? (value : Json) : Option Instant :=
  value.text?.bind fun text => Rfc3339.readFree? text.toList

namespace Document

/-- The names of the fields, in declared order. -/
def fieldNames : List String :=
  ["version", "mode", "window_begin", "window_end", "traces", "generated_at"]

/-- The document that a value describes. -/
def ofJson? (value : Json) : Option Document := do
  let record ← value.record? .refused fieldNames
  let version ← record.required? "version" Json.text?
  let mode ← record.required? "mode" Mode.ofJson?
  let windowBegin ← record.required? "window_begin" Instant.ofJson?
  let windowEnd ← record.required? "window_end" Instant.ofJson?
  let traces ← record.required? "traces" (Json.list? Trace.ofJson?)
  let generatedAt ← record.required? "generated_at" Json.text?
  return { version, mode, windowBegin, windowEnd, traces, generatedAt }

/-- The written form of a document. -/
def toJson (d : Document) : Json :=
  .object
    [Json.field "version" (.text d.version),
     Json.field "mode" (.text d.mode.name),
     Json.field "window_begin" (.text (Rfc3339.text .zulu d.windowBegin)),
     Json.field "window_end" (.text (Rfc3339.text .zulu d.windowEnd)),
     Json.field "traces" (.array (d.traces.map Trace.toJson)),
     Json.field "generated_at" (.text d.generatedAt)]

/-- The text of a document. -/
def text (d : Document) : String := d.toJson.prettyText

/-- The document that a text writes. -/
def ofText? (text : String) : Option Document := (Json.parse? text.toList).bind ofJson?

end Document

end FlowTrace
