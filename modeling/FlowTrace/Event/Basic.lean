import FlowTrace.Event.Kind
import FlowTrace.Json.Record
import FlowTrace.Text
import FlowTrace.Time.Instant
set_option autoImplicit false

/-!
# Event: instrumentation records

An event is what the running graph records when a calculator changes state or a packet crosses a
stream.  The type of stream names is a parameter: a dump gives plain texts, and in memory a name is
one of possibly several allocations of its text.
-/

namespace FlowTrace

/-!
## Logical timestamps

Packets carry logical times.  A few values at both ends of the 64-bit range are reserved for special
situations; the values between them are ordinary.
-/

/-- The logical time of a packet or of an input set. -/
structure Timestamp where
  value : Int64
  deriving DecidableEq, Repr, Hashable, Inhabited

namespace Timestamp

/-- No time was given. -/
def unset : Timestamp := ⟨-9223372036854775808⟩

/-- Before anything has started. -/
def unstarted : Timestamp := ⟨-9223372036854775807⟩

/-- Before the first packet. -/
def preStream : Timestamp := ⟨-9223372036854775806⟩

/-- The least ordinary time. -/
def least : Timestamp := ⟨-9223372036854775805⟩

/-- The greatest ordinary time. -/
def greatest : Timestamp := ⟨9223372036854775804⟩

/-- After the last packet. -/
def postStream : Timestamp := ⟨9223372036854775805⟩

/-- The bound behind the time after the last packet. -/
def oneOverPostStream : Timestamp := ⟨9223372036854775806⟩

/-- Nothing follows. -/
def done : Timestamp := ⟨9223372036854775807⟩

/-- The time is one of the ordinary ones. -/
def isOrdinary (t : Timestamp) : Bool := least.value ≤ t.value && t.value ≤ greatest.value

/-- The time is reserved. -/
def isSpecial (t : Timestamp) : Bool := !t.isOrdinary

/-- The time one tick later; nothing follows the last one. -/
def next (t : Timestamp) : Timestamp := ⟨Int64.ofIntClamp (t.value.toInt + 1)⟩

/-- The later of two times. -/
def later (a b : Timestamp) : Timestamp := ⟨max a.value b.value⟩

/-- The times that have a name of their own. -/
def named : List (Timestamp × String) :=
  [(unset, "Timestamp::Unset"), (unstarted, "Timestamp::Unstarted"),
   (preStream, "Timestamp::PreStream"), (least, "Timestamp::Min"), (greatest, "Timestamp::Max"),
   (postStream, "Timestamp::PostStream"), (oneOverPostStream, "Timestamp::OneOverPostStream"),
   (done, "Timestamp::Done")]

/-- The text of a time: its name, or its number. -/
def text (t : Timestamp) : String :=
  match named.lookup t with
  | some name => name
  | none => Text.ofInt t.value.toInt

end Timestamp

/-! ## Events -/

/-- One instrumentation record, whose stream is named by a `ν`. -/
structure Event (ν : Type) where
  /-- when the event was recorded -/
  time : Instant
  /-- the calculator -/
  node : Int32
  /-- the logical time of the input set at work -/
  inputStamp : Timestamp
  /-- the logical time of the packet -/
  packetStamp : Timestamp
  kind : EventKind
  /-- the stream that the packet travels on -/
  stream : Option ν
  /-- the handle of the packet's payload -/
  payload : Option UInt64
  thread : Int32
  /-- the event closes a span of time instead of opening one -/
  isFinish : Bool
  deriving DecidableEq, Repr

namespace Event

variable {ν μ : Type}

/-- The event with its stream named differently. -/
def mapStream (f : ν → μ) (e : Event ν) : Event μ :=
  { time := e.time, node := e.node, inputStamp := e.inputStamp, packetStamp := e.packetStamp,
    kind := e.kind, stream := e.stream.map f, payload := e.payload, thread := e.thread,
    isFinish := e.isFinish }

/-- When the event was recorded, in microseconds since the epoch. -/
def micros (e : Event ν) : Int64 := e.time.micros

end Event

/-!
## JSON form

Reading and writing events as JSON records.  All fields but the time may be left out; written events
leave out an absent stream and an absent payload only.
-/

namespace EventKind

/-- A kind, written as its ordinal or as its name. -/
def ofJson? : Json → Option EventKind
  | .string text => text.map ofName
  | value => value.int64?.map fun ordinal => ofOrdinal ordinal.toInt

/-- The written form of a kind. -/
def toJson (kind : EventKind) : Json := .text kind.name

end EventKind

namespace Timestamp

/-- A timestamp, written as its number. -/
def ofJson? (value : Json) : Option Timestamp := value.int64?.map Timestamp.mk

/-- The written form of a timestamp. -/
def toJson (t : Timestamp) : Json := .int t.value.toInt

end Timestamp

namespace Event

/-- The names of the fields of an event, in declared order. -/
def fieldNames : List String :=
  ["event_time", "node_id", "input_ts", "packet_ts", "event_type", "stream_id", "packet_data_id",
   "thread_id", "is_finish"]

/-- The time of an event, in whole microseconds. -/
def timeOfJson? (value : Json) : Option Instant :=
  (value.intWithin? Word.least Word.greatestUnsigned).bind Instant.ofMicros?

/-- The event that a record describes. -/
def ofRecord? (record : Json.Record) : Option (Event String) := do
  let time ← record.required? "event_time" timeOfJson?
  let node ← record.optional? "node_id" 0 Json.int32?
  let inputStamp ← record.optional? "input_ts" .unset Timestamp.ofJson?
  let packetStamp ← record.optional? "packet_ts" .unset Timestamp.ofJson?
  let kind ← record.optional? "event_type" .unknown EventKind.ofJson?
  let stream ← record.optional? "stream_id" none (Json.orNull? Json.text?)
  let payload ← record.optional? "packet_data_id" none (Json.orNull? Json.uint64?)
  let thread ← record.optional? "thread_id" 0 Json.int32?
  let isFinish ← record.optional? "is_finish" false Json.bool?
  return { time, node, inputStamp, packetStamp, kind, stream, payload, thread, isFinish }

/-- The event that a value describes. -/
def ofJson? (repeated : Json.Repeated) (value : Json) : Option (Event String) :=
  (value.record? repeated fieldNames).bind ofRecord?

/-- The written form of an event. -/
def toJson (e : Event String) : Json :=
  .object <|
    [Json.field "event_time" (.int e.time.microsInt),
     Json.field "node_id" (.int e.node.toInt),
     Json.field "input_ts" e.inputStamp.toJson,
     Json.field "packet_ts" e.packetStamp.toJson,
     Json.field "event_type" e.kind.toJson] ++
    (e.stream.map fun name => Json.field "stream_id" (.text name)).toList ++
    (e.payload.map fun handle => Json.field "packet_data_id" (.int handle.toNat)).toList ++
    [Json.field "thread_id" (.int e.thread.toInt),
     Json.field "is_finish" (.bool e.isFinish)]

end Event

end FlowTrace
