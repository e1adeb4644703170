import Std.Data.HashSet
import FlowTrace.Trace.Index
import FlowTrace.Trace.Record
import FlowTrace.Trace.Through
set_option autoImplicit false

/-!
# Trace: a session and its calls

A session makes traces and logs of successive windows over one space of ids and one origin.  A
trace folds the events of each task into one record and looks up, for every packet a task took in,
who produced it; a log has one record for every event.  A session answers calls one after the other;
what it can come to is whatever some calls make of the empty session.
-/

namespace FlowTrace

/-- The id tables that grow while records are made. -/
structure IdTables where
  streams : StreamIds
  payloads : IdTable UInt64

namespace IdTables

/-- Only the empty name and the null handle have ids. -/
def empty : IdTables := ⟨NameIds.empty, IdTable.reserving 0⟩

/-- Forget all names and handles. -/
def clear (t : IdTables) : IdTables := ⟨t.streams.clear, t.payloads.clear 0⟩

/-- The id of a stream. -/
def stream (t : IdTables) (name : Option StreamName) : Int32 × IdTables :=
  let (id, streams) := t.streams.internName name
  (Int32.ofNat id, { t with streams })

/-- The id of a payload; a missing one has the id of the null handle. -/
def payload (t : IdTables) (handle : Option UInt64) : Int32 × IdTables :=
  match handle with
  | none => (0, t)
  | some address =>
    let (id, payloads) := t.payloads.intern address
    (Int32.ofNat id, { t with payloads })

end IdTables

/-- An event as one of the records of a trace sees it. -/
abbrev NamedEvent := Event StreamName

/-- The event describes a packet on a stream. -/
def Event.describesHop {ν : Type} (e : Event ν) : Bool := e.kind.isHop && e.stream.isSome

/-! ## Records of single events -/

/-- The packet of an event as a log shows it: without times. -/
def logHop (o : Origin) (t : IdTables) (e : NamedEvent) : StreamRecord × IdTables :=
  let (streamId, t) := t.stream e.stream
  let (payloadId, t) := t.payload e.payload
  ({ startTime := none, finishTime := none, packetStamp := o.stamp e.packetStamp, streamId,
     payloadId := some payloadId }, t)

/-- The record of one event, not folded with others. -/
def logRecord (o : Origin) (t : IdTables) (e : NamedEvent) : TaskRecord × IdTables :=
  let (hops, t) := if e.describesHop then mapThrough (logHop o) t [e] else ([], t)
  let time := some (o.time e.time)
  ({ node := e.node, inputStamp := o.inputStamp e.inputStamp, kind := e.kind,
     startTime := if e.isFinish then none else time,
     finishTime := if e.isFinish then time else none,
     inputs := if e.isFinish then [] else hops,
     outputs := if e.isFinish then hops else [],
     thread := e.thread }, t)

/-! ## Records of tasks -/

/-- What the records of tasks are made from. -/
structure TaskView where
  origin : Origin
  events : Array NamedEvent
  index : EventIndex

namespace TaskView

/-- When the producer of a hop was done, if one was seen. -/
def producedAt? (v : TaskView) (hop : HopId) : Option Int64 :=
  ((v.index.hopPosition? hop).bind fun position => v.events[position]?).map fun e =>
    v.origin.time e.time

/-- The packet of a task's event, and whether the event is a finish.  A packet taken in has the time
of its producer, its own time and the id of its payload; a packet put out has none of these. -/
def hop (v : TaskView) (t : IdTables) (e : NamedEvent) : (Bool × StreamRecord) × IdTables :=
  let (streamId, t) := t.stream e.stream
  let packetStamp := v.origin.stamp e.packetStamp
  if e.isFinish then
    ((true, { startTime := none, finishTime := none, packetStamp, streamId, payloadId := none }), t)
  else
    let (id, streams) := HopId.ofEvent e t.streams
    let (payloadId, t) := { t with streams }.payload e.payload
    ((false, { startTime := v.producedAt? id, finishTime := some (v.origin.time e.time),
               packetStamp, streamId, payloadId := some payloadId }), t)

/-- The events of a task, in their order. -/
def members (v : TaskView) (task : TaskId) : List NamedEvent :=
  (v.index.taskPositions task).filterMap fun position => v.events[position]?

/-- The relative time of the earliest of some events. -/
def earliest? (v : TaskView) (events : List NamedEvent) : Option Int64 :=
  ((events.map Event.time).min?).map v.origin.time

/-- All events of one task folded into one record. -/
def taskRecord (v : TaskView) (t : IdTables) (task : TaskId) : TaskRecord × IdTables :=
  let members := v.members task
  match members with
  | [] => (default, t)
  | first :: _ =>
    let (hops, t) := mapThrough v.hop t (members.filter Event.describesHop)
    ({ node := first.node, inputStamp := v.origin.inputStamp first.inputStamp, kind := first.kind,
       startTime := v.earliest? (members.filter fun e => !e.isFinish),
       finishTime := v.earliest? (members.filter fun e => e.isFinish),
       inputs := (hops.filter fun h => !h.1).map Prod.snd,
       outputs := (hops.filter fun h => h.1).map Prod.snd,
       thread := first.thread }, t)

end TaskView

/-- What one record of a trace is about. -/
inductive Subject where
  | task (task : TaskId)
  | event (e : NamedEvent)

/-- One more event: a task is listed at its first event, an event outside tasks for itself. -/
def Subject.add (state : Array Subject × Std.HashSet TaskId) (e : NamedEvent) :
    Array Subject × Std.HashSet TaskId :=
  let (subjects, seen) := state
  if e.kind.isTask then
    let task := TaskId.ofEvent e
    if seen.contains task then state else (subjects.push (.task task), seen.insert task)
  else (subjects.push (.event e), seen)

/-- What the records of some events are about, by first occurrence. -/
def Subject.ofEvents (events : List NamedEvent) : List Subject :=
  (events.foldl Subject.add (#[], Std.HashSet.emptyWithCapacity)).1.toList

/-- The record of a subject. -/
def TaskView.record (v : TaskView) (t : IdTables) : Subject → TaskRecord × IdTables
  | .task task => v.taskRecord t task
  | .event e => logRecord v.origin t e

/-! ## Sessions -/

/-- What is kept from one call to the next. -/
structure Session where
  /-- the tasks and hops of the last trace -/
  index : EventIndex
  ids : IdTables
  /-- fixed by the first window that holds an event -/
  origin : Option Origin

namespace Session

/-- A session that has seen nothing. -/
def empty : Session := ⟨EventIndex.empty, IdTables.empty, none⟩

/-- The stream names in the order of their ids. -/
def streamNames (s : Session) : List String := s.ids.streams.names

/-- The origin after some events: the one fixed before, else the one they fix. -/
def originAfter (s : Session) (events : List NamedEvent) : Option Origin :=
  match s.origin with
  | some origin => some origin
  | none => Origin.ofEvents? events

/-- A trace with the names of the session. -/
def finish (s : Session) (records : List TaskRecord) : Trace :=
  let origin := s.origin.getD .zero
  { baseTime := origin.baseTime, baseStamp := origin.baseStamp, records,
    streamNames := s.streamNames }

/-- The trace of a window: one record for each task, and one for each event outside tasks. -/
def trace (s : Session) (buffer : List NamedEvent) (w : Window) : Trace × Session :=
  let events := w.events buffer
  let origin := s.originAfter events
  let (index, streams) := s.index.rebuild events s.ids.streams
  let view : TaskView := ⟨origin.getD .zero, events.toArray, index⟩
  let (records, ids) := mapThrough view.record { s.ids with streams } (Subject.ofEvents events)
  let s : Session := ⟨index, ids, origin⟩
  (s.finish records, s)

/-- The log of a window: one record for each event. -/
def log (s : Session) (buffer : List NamedEvent) (w : Window) : Trace × Session :=
  let events := w.events buffer
  let origin := s.originAfter events
  let (records, ids) := mapThrough (logRecord (origin.getD .zero)) s.ids events
  let s : Session := ⟨s.index, ids, origin⟩
  (s.finish records, s)

/-- Forget the tasks and hops; ids and origin stay. -/
def clear (s : Session) : Session := { s with index := s.index.clear }

/-- Forget everything: tasks and hops, ids, and the origin. -/
def reset (s : Session) : Session := ⟨s.index.clear, s.ids.clear, none⟩

end Session

/-! ## Calls -/

/-- What a session can be asked to do. -/
inductive SessionCall where
  /-- the trace of a window -/
  | trace (buffer : List NamedEvent) (window : Window)
  /-- the log of a window -/
  | log (buffer : List NamedEvent) (window : Window)
  /-- forget tasks and hops -/
  | clear
  /-- forget everything -/
  | reset

namespace Session

/-- One call: the trace or log it returns, if it is one of those that do, and the session after
it. -/
def call (s : Session) : SessionCall → Option Trace × Session
  | .trace buffer window => ((s.trace buffer window).1, (s.trace buffer window).2)
  | .log buffer window => ((s.log buffer window).1, (s.log buffer window).2)
  | .clear => (none, s.clear)
  | .reset => (none, s.reset)

/-- What the calls return, and the session after them. -/
def run (s : Session) (calls : List SessionCall) : List (Option Trace) × Session :=
  mapThrough call s calls

/-- The session comes about by some calls. -/
def Reachable (s : Session) : Prop := ∃ calls, s = (run empty calls).2

end Session

end FlowTrace
