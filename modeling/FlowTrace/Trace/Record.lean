import FlowTrace.Arithmetic
import FlowTrace.Event.Basic
import FlowTrace.Event.Kind
import FlowTrace.Time.Window
set_option autoImplicit false

/-!
# Trace: records and their origin

A trace is a list of records over one range of time.  Times are microseconds after the base time,
logical stamps are relative to the base stamp, and streams appear as ids into the list of names.
-/

namespace FlowTrace

/-! ## Records -/

/-- One packet at the boundary of a task. -/
structure StreamRecord where
  /-- when the producer was done with the packet -/
  startTime : Option Int64
  /-- when the consumer began with the packet -/
  finishTime : Option Int64
  packetStamp : Int64
  streamId : Int32
  payloadId : Option Int32
  deriving DecidableEq, Repr, Inhabited

/-- One task of a calculator, or one event of a log. -/
structure TaskRecord where
  node : Int32
  inputStamp : Option Int64
  kind : EventKind
  startTime : Option Int64
  finishTime : Option Int64
  /-- the packets consumed -/
  inputs : List StreamRecord
  /-- the packets produced -/
  outputs : List StreamRecord
  thread : Int32
  deriving DecidableEq, Repr, Inhabited

/-- A reconstructed trace. -/
structure Trace where
  /-- the time that counts as 0, in microseconds since the epoch -/
  baseTime : Int64
  /-- the logical stamp that counts as 0 -/
  baseStamp : Int64
  records : List TaskRecord
  /-- the stream names, each at the place of its id -/
  streamNames : List String
  deriving DecidableEq, Repr, Inhabited

/-- A trace without records and names. -/
def Trace.empty : Trace := ⟨0, 0, [], []⟩

/-- The time between two ends, where both are known. -/
def elapsed (start finish : Option Int64) : Except Overflow (Option Int64) :=
  match start, finish with
  | some s, some f => (Word.sub f s).map some
  | _, _ => .ok none

/-- How long the task was busy, where both of its ends were seen. -/
def TaskRecord.duration (r : TaskRecord) : Except Overflow (Option Int64) :=
  elapsed r.startTime r.finishTime

/-- How long the packet took from producer to consumer, where both are known. -/
def StreamRecord.latency (r : StreamRecord) : Except Overflow (Option Int64) :=
  elapsed r.startTime r.finishTime

/-!
## Events of a window and their origin

The events of a window keep the order of the buffer.  The first events seen fix the origin: the
earliest time and the least ordinary stamp among them count as 0 from then on.
-/

variable {ν : Type}

/-- The events inside the window, in their order. -/
def Window.events (w : Window) (buffer : List (Event ν)) : List (Event ν) :=
  buffer.filter fun e => w.contains e.time

/-- The first input stamp that the events before an instant leave open.  The buffer is read in its
order and only up to the first event that is not before the instant. -/
def timestampAfter (buffer : List (Event ν)) (start : Instant) : Timestamp :=
  let earlier := buffer.takeWhile fun e => e.time < start
  ((earlier.map Event.inputStamp).foldl Timestamp.later .least).next

/-- The time and the stamp that count as 0. -/
structure Origin where
  /-- microseconds since the epoch -/
  baseTime : Int64
  baseStamp : Int64
  deriving DecidableEq, Repr, Inhabited

namespace Origin

/-- The origin before any event has been seen. -/
def zero : Origin := ⟨0, 0⟩

/-- The ordinary ones among the stamps of an event. -/
def ordinaryStamps (e : Event ν) : List Int64 :=
  ([e.inputStamp, e.packetStamp].filter Timestamp.isOrdinary).map Timestamp.value

/-- The origin that some events fix; none without events. -/
def ofEvents? (events : List (Event ν)) : Option Origin :=
  match (events.map Event.micros).min? with
  | none => none
  | some baseTime => some ⟨baseTime, ((events.flatMap ordinaryStamps).min?).getD 0⟩

/-- Microseconds after the base time. -/
def time (o : Origin) (t : Instant) : Int64 := Word.clampedSub t.micros o.baseTime

/-- A logical time relative to the base stamp. -/
def stamp (o : Origin) (t : Timestamp) : Int64 := Word.clampedSub t.value o.baseStamp

/-- The relative input stamp; none where the stamp is not set. -/
def inputStamp (o : Origin) (t : Timestamp) : Option Int64 :=
  if t = .unset then none else some (o.stamp t)

end Origin

end FlowTrace
