import FlowTrace.Event.Basic
import FlowTrace.Naming.Table
set_option autoImplicit false

/-!
# Trace: tasks and hops among events

Events that share calculator, input stamp and kind belong to one task.  Events that share stream,
packet stamp and kind belong to one hop, the way of one packet across one stream.  One pass over the
events finds the positions of all events of a task and the last event that finished a hop, and gives
ids to the stream names on the way.
-/

namespace FlowTrace

/-- One invocation of a calculator. -/
structure TaskId where
  node : Int32
  inputStamp : Timestamp
  kind : EventKind
  deriving DecidableEq, Repr, Hashable, Inhabited

/-- The task that an event belongs to. -/
def TaskId.ofEvent {ν : Type} (e : Event ν) : TaskId := ⟨e.node, e.inputStamp, e.kind⟩

/-- The way of one packet across one stream, the stream given by its id. -/
structure HopId where
  streamId : Nat
  packetStamp : Timestamp
  kind : EventKind
  deriving DecidableEq, Repr, Hashable, Inhabited

/-- The hop that an event belongs to; its stream gets an id if it has none. -/
def HopId.ofEvent (e : Event StreamName) (streams : StreamIds) : HopId × StreamIds :=
  let (id, streams) := streams.internName e.stream
  (⟨id, e.packetStamp, e.kind⟩, streams)

/-- Positions of events in the list they were indexed from. -/
structure EventIndex where
  /-- the positions of the events of each task -/
  tasks : Std.HashMap TaskId (Array Nat)
  /-- the position of the last event that finished each hop -/
  hops : Std.HashMap HopId Nat

namespace EventIndex

/-- Nothing has been indexed. -/
def empty : EventIndex := ⟨Std.HashMap.emptyWithCapacity, Std.HashMap.emptyWithCapacity⟩

/-- The positions of the events of a task, ascending. -/
def taskPositions (index : EventIndex) (task : TaskId) : List Nat :=
  (index.tasks.getD task #[]).toList

/-- The position of the event that finished a hop. -/
def hopPosition? (index : EventIndex) (hop : HopId) : Option Nat := index.hops[hop]?

/-- The number of tasks. -/
def taskCount (index : EventIndex) : Nat := index.tasks.size

/-- The number of hops that were finished. -/
def hopCount (index : EventIndex) : Nat := index.hops.size

/-- The index with one more event; events outside tasks are passed over. -/
def add (state : EventIndex × StreamIds) (entry : Event StreamName × Nat) :
    EventIndex × StreamIds :=
  let (index, streams) := state
  let (e, position) := entry
  if e.kind.isTask then
    let (hop, streams) := HopId.ofEvent e streams
    let hops := if e.isFinish then index.hops.insert hop position else index.hops
    let tasks := index.tasks.alter (TaskId.ofEvent e) fun positions =>
      some ((positions.getD #[]).push position)
    (⟨tasks, hops⟩, streams)
  else (index, streams)

/-- Forget all positions. -/
def clear (index : EventIndex) : EventIndex := ⟨emptied index.tasks, emptied index.hops⟩

/-- The index of some events in place of what was indexed before, and the ids with the streams of
their tasks. -/
def rebuild (index : EventIndex) (events : List (Event StreamName)) (streams : StreamIds) :
    EventIndex × StreamIds :=
  events.zipIdx.foldl add (index.clear, streams)

end EventIndex

end FlowTrace
