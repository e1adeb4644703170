import FlowTrace.Event.Basic
import FlowTrace.Trace.Record
set_option autoImplicit false

/-!
# Trace: JSON form

Traces and their records as JSON.  Absent times, stamps and ids are left out, and so are empty lists
of packets; reading takes null for an absent value as well.
-/

namespace FlowTrace

/-- An optional field. -/
def Json.fieldIf {α : Type} (name : String) (write : α → Json) (value : Option α) :
    List (Option String × Json) :=
  (value.map fun a => Json.field name (write a)).toList

/-- A word as a number. -/
def Json.ofInt64 (w : Int64) : Json := .int w.toInt

/-- A word as a number. -/
def Json.ofInt32 (w : Int32) : Json := .int w.toInt

namespace StreamRecord

/-- The names of the fields, in declared order. -/
def fieldNames : List String :=
  ["start_time", "finish_time", "packet_timestamp", "stream_id", "packet_id"]

/-- The packet that a value describes. -/
def ofJson? (value : Json) : Option StreamRecord := do
  let record ← value.record? .refused fieldNames
  let startTime ← record.optional? "start_time" none (Json.orNull? Json.int64?)
  let finishTime ← record.optional? "finish_time" none (Json.orNull? Json.int64?)
  let packetStamp ← record.required? "packet_timestamp" Json.int64?
  let streamId ← record.required? "stream_id" Json.int32?
  let payloadId ← record.optional? "packet_id" none (Json.orNull? Json.int32?)
  return { startTime, finishTime, packetStamp, streamId, payloadId }

/-- The written form of a packet. -/
def toJson (r : StreamRecord) : Json :=
  .object <|
    Json.fieldIf "start_time" Json.ofInt64 r.startTime ++
    Json.fieldIf "finish_time" Json.ofInt64 r.finishTime ++
    [Json.field "packet_timestamp" (Json.ofInt64 r.packetStamp),
     Json.field "stream_id" (Json.ofInt32 r.streamId)] ++
    Json.fieldIf "packet_id" Json.ofInt32 r.payloadId

end StreamRecord

namespace TaskRecord

/-- The names of the fields, in declared order. -/
def fieldNames : List String :=
  ["node_id", "input_timestamp", "event_type", "start_time", "finish_time", "input_trace",
   "output_trace", "thread_id"]

/-- The record that a value describes. -/
def ofJson? (value : Json) : Option TaskRecord := do
  let record ← value.record? .refused fieldNames
  let node ← record.required? "node_id" Json.int32?
  let inputStamp ← record.optional? "input_timestamp" none (Json.orNull? Json.int64?)
  let kind ← record.required? "event_type" EventKind.ofJson?
  let startTime ← record.optional? "start_time" none (Json.orNull? Json.int64?)
  let finishTime ← record.optional? "finish_time" none (Json.orNull? Json.int64?)
  let inputs ← record.optional? "input_trace" [] (Json.list? StreamRecord.ofJson?)
  let outputs ← record.optional? "output_trace" [] (Json.list? StreamRecord.ofJson?)
  let thread ← record.required? "thread_id" Json.int32?
  return { node, inputStamp, kind, startTime, finishTime, inputs, outputs, thread }

/-- A field with packets, left out when there are none. -/
def packets (name : String) (records : List StreamRecord) : List (Option String × Json) :=
  if records = [] then [] else [Json.field name (.array (records.map StreamRecord.toJson))]

/-- The written form of a record. -/
def toJson (r : TaskRecord) : Json :=
  .object <|
    [Json.field "node_id" (Json.ofInt32 r.node)] ++
    Json.fieldIf "input_timestamp" Json.ofInt64 r.inputStamp ++
    [Json.field "event_type" r.kind.toJson] ++
    Json.fieldIf "start_time" Json.ofInt64 r.startTime ++
    Json.fieldIf "finish_time" Json.ofInt64 r.finishTime ++
    packets "input_trace" r.inputs ++
    packets "output_trace" r.outputs ++
    [Json.field "thread_id" (Json.ofInt32 r.thread)]

end TaskRecord

namespace Trace

/-- The names of the fields, in declared order. -/
def fieldNames : List String :=
  ["base_time", "base_timestamp", "calculator_trace", "stream_name"]

/-- The trace that a value describes. -/
def ofJson? (value : Json) : Option Trace := do
  let record ← value.record? .refused fieldNames
  let baseTime ← record.required? "base_time" Json.int64?
  let baseStamp ← record.required? "base_timestamp" Json.int64?
  let records ← record.optional? "calculator_trace" [] (Json.list? TaskRecord.ofJson?)
  let streamNames ← record.optional? "stream_name" [] (Json.list? Json.text?)
  return { baseTime, baseStamp, records, streamNames }

/-- The written form of a trace. -/
def toJson (t : Trace) : Json :=
  .object
    [Json.field "base_time" (Json.ofInt64 t.baseTime),
     Json.field "base_timestamp" (Json.ofInt64 t.baseStamp),
     Json.field "calculator_trace" (.array (t.records.map TaskRecord.toJson)),
     Json.field "stream_name" (.array (t.streamNames.map Json.text))]

end Trace

end FlowTrace
