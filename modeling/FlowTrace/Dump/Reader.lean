import FlowTrace.Event.Basic
import FlowTrace.Json.Reader
import FlowTrace.Json.Writer
import FlowTrace.Naming.Table
import FlowTrace.Text
import FlowTrace.Trace.Through
set_option autoImplicit false

/-!
# Dump: reading

A dump is the text that a recorder exports.  Reading it yields notices along the way and, as a whole,
events or a fault.  A dump that is one JSON value holds its records in an array, in an array inside an
object, or is a single record.  A dump that is not one JSON value is read line by line.  A record or
line that cannot be read is noted and passed over; a dump fails only when it has records and no event.
-/

namespace FlowTrace.Dump

/-! ## Layouts, notices and faults -/

/-- How the records are arranged in a dump. -/
inductive Layout where
  /-- one array of records -/
  | array
  /-- an object that holds the array in a field of a known name -/
  | wrapped
  /-- one record on each line -/
  | lines
  deriving DecidableEq, Repr, Inhabited

/-- The name of a layout. -/
def Layout.name : Layout → String
  | .array => "Array"
  | .wrapped => "Wrapped"
  | .lines => "JsonLines"

/-- What is told while a dump is read. -/
inductive Notice where
  /-- the layout and the number of records -/
  | layout (layout : Layout) (records : Nat)
  /-- a line that is no value; lines count from one -/
  | badLine (line : Nat)
  /-- a record that is no event; records count from zero -/
  | badEvent (record : Nat)
  /-- the number of distinct stream names -/
  | sharedNames (names : Nat)
  deriving DecidableEq, Repr, Inhabited

/-- The text of a notice. -/
def Notice.text : Notice → String
  | .layout arrangement count =>
    "Event dump is " ++ arrangement.name ++ " with " ++ Text.ofNat count ++ " records"
  | .badLine number => "Failed to parse line " ++ Text.ofNat number
  | .badEvent number => "Failed to parse event " ++ Text.ofNat number
  | .sharedNames count => "Canonicalized " ++ Text.ofNat count ++ " stream names"

/-- Why a dump has no events. -/
inductive Fault where
  /-- an object without a known array of events, which is no event either -/
  | noEventArray
  /-- a value that is neither an array nor an object -/
  | notContainer (found : Json)
  /-- no JSON as a whole, and none on any line -/
  | notJson
  /-- records, and none of them an event -/
  | noEvents
  deriving Repr, Inhabited

/-- The names under which an object may hold its array of events, in the order of preference. -/
def eventFieldNames : List String := ["events", "trace_events", "traceEvents", "trace"]

/-- What a fault says about the format. -/
def Fault.text : Fault → String
  | .noEventArray =>
    "No event array found (expected one of: " ++ String.intercalate ", " eventFieldNames ++ ")"
  | .notContainer found =>
    "Dump must be a JSON array or object, found " ++ found.compactText
  | .notJson => "Dump is neither JSON nor JSON Lines"
  | .noEvents => "All events failed to parse"

/-!
## Shared stream names

Every event read from a dump comes with an allocation of its own for its stream name.  Sharing lets
all events with the same name use the first of their allocations; no name changes its text.
-/

/-- The event with an allocation of its own for its stream name, numbered `allocation`. -/
def allocate (e : Event String) (allocation : Nat) : Event StreamName :=
  e.mapStream fun text => ⟨text, allocation⟩

/-- The events with allocations of their own. -/
def allocateAll (events : List (Event String)) : List (Event StreamName) :=
  events.zipIdx.map fun (e, i) => allocate e i

/-- The names that are shared, by their text. -/
abbrev SharedNames := Std.HashMap String StreamName

/-- The event with the shared allocation of its stream name, which is its own where it is the first
of that text. -/
def share (names : SharedNames) (e : Event StreamName) : Event StreamName × SharedNames :=
  match e.stream with
  | none => (e, names)
  | some name =>
    match names[name.text]? with
    | some shared => ({ e with stream := some shared }, names)
    | none => (e, names.insert name.text name)

/-- The events with shared stream names, and the names that they share. -/
def shareNames (events : List (Event StreamName)) : List (Event StreamName) × SharedNames :=
  mapThrough share Std.HashMap.emptyWithCapacity events

/-! ## Records and events -/

/-- The lines of a text; a carriage return before a line feed belongs to the line end. -/
def lines (text : List Char) : List (List Char) :=
  (text.splitOn '\n').map fun line =>
    if line.getLast? = some '\r' then line.dropLast else line

/-- The records of a dump, or why it has none. -/
abbrev Records := Except Fault (Layout × List Json)

/-- The records of an object: its first known array, or else the object if it is itself an event. -/
def objectRecords (fields : List (Option String × Json)) : Records :=
  let array? (name : String) : Option (List Json) :=
    match Json.lastField? name fields with
    | some (.array items) => some items
    | _ => none
  match eventFieldNames.findSome? array? with
  | some items => .ok (.wrapped, items)
  | none =>
    match Json.lastField? "event_time" fields with
    | some _ => .ok (.lines, [.object fields])
    | none => .error .noEventArray

/-- The records of a dump that is one value. -/
def valueRecords : Json → Records
  | .array items => .ok (.array, items)
  | .object fields => objectRecords fields
  | other => .error (.notContainer other)

/-- The value of one line, with its number where it has none; nothing for a blank line. -/
def lineValue? (line : List Char × Nat) : Option (Except Nat Json) :=
  let trimmed := Text.trim line.1
  if trimmed = [] then none
  else
    match Json.parseUsable? trimmed with
    | some value => some (.ok value)
    | none => some (.error line.2)

/-- The records of a dump with one record on each line, and notices of the lines that are none. -/
def lineRecords (text : List Char) : List Notice × Records :=
  let values := ((lines text).zipIdx 1).filterMap lineValue?
  let bad := values.filterMap fun value =>
    match value with
    | .error line => some (.badLine line)
    | .ok _ => none
  let records := values.filterMap Except.toOption
  (bad, if records.isEmpty && !bad.isEmpty then .error .notJson else .ok (.lines, records))

/-- The records of a dump, and notices of the lines that are none. -/
def records (text : List Char) : List Notice × Records :=
  let trimmed := Text.trimStart text
  if trimmed = [] then ([], .ok (.array, []))
  else
    match Json.parseUsable? trimmed with
    | some value => ([], valueRecords value)
    | none => lineRecords text

/-- The event of a record, or the number of the record. -/
def recordEvent (record : Json × Nat) : Except Nat (Event String) :=
  match Event.ofJson? .lastCounts record.1 with
  | some e => .ok e
  | none => .error record.2

/-- The events of some records, and notices of the records that are none. -/
def recordEvents (records : List Json) : List Notice × Except Fault (List (Event String)) :=
  let results := records.zipIdx.map recordEvent
  let bad := results.filterMap fun result =>
    match result with
    | .error record => some (.badEvent record)
    | .ok _ => none
  let events := results.filterMap Except.toOption
  (bad, if events.isEmpty && !records.isEmpty then .error .noEvents else .ok events)

/-- What reading a dump gives: the notices in their order, and the events or the fault. -/
structure Outcome where
  notices : List Notice
  result : Except Fault (List (Event StreamName))

/-- The events of a dump, in its order, with shared stream names. -/
def read (text : String) : Outcome :=
  let (badLines, found) := records text.toList
  match found with
  | .error fault => ⟨badLines, .error fault⟩
  | .ok (layout, records) =>
    let (badEvents, result) := recordEvents records
    let notices := badLines ++ .layout layout records.length :: badEvents
    match result with
    | .error fault => ⟨notices, .error fault⟩
    | .ok events =>
      let (shared, names) := shareNames (allocateAll events)
      ⟨notices ++ [.sharedNames names.size], .ok shared⟩

end FlowTrace.Dump
