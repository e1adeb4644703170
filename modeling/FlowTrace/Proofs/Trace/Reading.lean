import FlowTrace.Proofs.Trace.Folding
import FlowTrace.Proofs.Trace.Names
set_option autoImplicit false

/-!
# Trace: reading a trace along its entries

The records of a trace stand in the order of the entries that open them, so that a trace together
with the entries of its window tells which record is about which task and which packet is from which
event.  Ids are read back to names through the list that the trace carries.  `Reading.Shows` says
that a reading is the one of a frame; everything read from it is then a filter of the entries.
-/

namespace FlowTrace

open Entries

/-- The name that the trace has for the stream of a packet. -/
def Trace.nameOf? (t : Trace) (h : StreamRecord) : Option String :=
  match h.streamId.toInt with
  | .ofNat place => t.streamNames[place]?
  | .negSucc _ => none

/-- There are no more names than ids, which are the numbers below `2 ^ 31`. -/
def Trace.NamesFit (t : Trace) : Prop := t.streamNames.length ≤ 2147483648

/-- The id of a listed stream is read back to the text of its name. -/
theorem Trace.nameOf?_eq {t : Trace} {ids : IdTables} (hnames : t.streamNames = ids.streams.names)
    (hfit : t.NamesFit) {name : Option StreamName}
    (hlisted : StreamName.textOf name ∈ ids.streams.names) {p : StreamRecord}
    (hp : p.streamId = ids.streamId name) : t.nameOf? p = some (StreamName.textOf name) := by
  rw [NamesFit, hnames] at hfit
  obtain ⟨place, hshown, hplace⟩ := IdTable.exists_place_of_mem hfit hlisted
  have hid : p.streamId.toInt = place := hp ▸ hshown
  rw [nameOf?, hid, hnames]
  exact hplace

/-- What the record of a task says about the task itself. -/
theorem Frame.taskRecord_of_task (f : Frame) {task : TaskId} {events : List NamedEvent} (hne : events ≠ [])
    (htask : ∀ e ∈ events, e.task? = some task) :
    (f.taskRecord events).node = task.node ∧ (f.taskRecord events).kind = task.kind ∧
      (f.taskRecord events).inputStamp = f.origin.inputStamp task.inputStamp := by
  obtain ⟨e, rest, rfl⟩ := List.exists_cons_of_ne_nil hne
  have he := htask e List.mem_cons_self
  have hid : TaskId.ofEvent e = task := by
    simpa [Event.task?, Event.isTask_of_task? he] using he
  subst hid
  exact ⟨rfl, rfl, rfl⟩

/-- A trace with the entries of its window. -/
structure Reading where
  entries : List Entry
  trace : Trace

namespace Reading

/-- The records, each with the entry that opens it. -/
def records (r : Reading) : List (Entry × TaskRecord) := (leads r.entries).zip r.trace.records

/-- The records of one task. -/
def recordsOf (r : Reading) (task : TaskId) : List TaskRecord :=
  (r.records.filter fun p => p.1.1.task? = some task).map Prod.snd

/-- The records of events outside tasks, each with the entry of the event. -/
def others (r : Reading) : List (Entry × TaskRecord) := r.records.filter fun p => p.1.1.task? = none

/-- The packets that a task took in, each with the entry it comes from. -/
def inputsOf (r : Reading) (task : TaskId) : List (Entry × StreamRecord) :=
  ((ofTask r.entries task).filter fun x => x.1.takesIn).zip
    ((r.recordsOf task).flatMap TaskRecord.inputs)

/-- The packets that a task took in: the name of the stream, the stamp and the time. -/
def packetsIn (r : Reading) (task : TaskId) : List (Option String × Int64 × Option Int64) :=
  (r.recordsOf task).flatMap fun record =>
    record.inputs.map fun h => (r.trace.nameOf? h, h.packetStamp, h.finishTime)

/-- The packets that a task put out: the name of the stream and the stamp. -/
def packetsOut (r : Reading) (task : TaskId) : List (Option String × Int64) :=
  (r.recordsOf task).flatMap fun record =>
    record.outputs.map fun h => (r.trace.nameOf? h, h.packetStamp)

/-- The relative times of those events of a task that are on one side of it. -/
def timesOf (r : Reading) (o : Origin) (side : NamedEvent → Bool) (task : TaskId) : List Int64 :=
  ((ofTask r.entries task).filter fun x => side x.1).map fun x => o.time x.1.time

/-- Pairing with the entries leaves out nothing. -/
structure Complete (r : Reading) : Prop where
  records : r.trace.records.length = (leads r.entries).length
  inputs : ∀ task, ((r.recordsOf task).flatMap TaskRecord.inputs).length =
    ((ofTask r.entries task).filter fun x => x.1.takesIn).length

/-- The reading is that of the frame, whose ids know the streams of all tasks. -/
structure Shows (r : Reading) (f : Frame) : Prop where
  ascending : Ascending r.entries
  events : r.entries.map Prod.fst = f.events
  records : r.trace.records = (leads r.entries).map (f.openedRecord r.entries)
  names : r.trace.streamNames = f.ids.streams.names
  known : ∀ e ∈ f.events, e.kind.isTask = true →
    ∃ id, f.ids.streams.id? (StreamName.textOf e.stream) = some id

/-- A time that the record of a task has for one of its sides is the least one of that side. -/
theorem taskRecord_eq_min? (r : Reading) (f : Frame) {field : TaskRecord → Option Int64}
    {side : NamedEvent → Bool}
    (hfield : ∀ (f : Frame) (events : List NamedEvent),
      field (f.taskRecord events) = f.origin.earliest? (events.filter side))
    (hleap : ∀ x ∈ r.entries, x.1.time.isLeap = false) (task : TaskId) :
    field (f.taskRecord ((ofTask r.entries task).map Prod.fst)) =
      (r.timesOf f.origin side task).min? := by
  have hside : ∀ e ∈ ((ofTask r.entries task).map Prod.fst).filter side,
      e.time.isLeap = false := by
    intro e he
    obtain ⟨x, hx, rfl⟩ := List.mem_map.1 (List.mem_filter.1 he).1
    exact hleap x (mem_ofTask.1 hx).1
  rw [hfield, Origin.earliest?_eq_min? _ hside, List.filter_map, List.map_map]
  rfl

/-! ## Records -/

section

variable {r : Reading} {f : Frame} (h : r.Shows f)

include h

theorem Shows.records_eq :
    r.records = (leads r.entries).map fun x => (x, f.openedRecord r.entries x) := by
  rw [Reading.records, h.records, List.map_prod_left_eq_zip]

theorem Shows.recordsOf_eq (task : TaskId) :
    r.recordsOf task = ((ofTask r.entries task).take 1).map fun _ =>
      f.taskRecord ((ofTask r.entries task).map Prod.fst) := by
  have hopen : (leads r.entries).filter (fun x => x.1.task? = some task) =
      (ofTask r.entries task).take 1 := filter_leads_task h.ascending task
  rw [recordsOf, h.records_eq, List.filter_map, List.map_map, ← hopen]
  refine List.map_congr_left fun x hx => ?_
  have htask : x.1.task? = some task := of_decide_eq_true (List.mem_filter.1 hx).2
  simp [Frame.openedRecord, htask]

/-- What is read from all records of a task is what its one record says about its entries. -/
theorem Shows.flatMap_recordsOf {β : Type} {g : TaskRecord → List β} (hg : g default = [])
    (task : TaskId) :
    (r.recordsOf task).flatMap g = g (f.taskRecord ((ofTask r.entries task).map Prod.fst)) := by
  rw [h.recordsOf_eq]
  cases ofTask r.entries task with
  | nil => exact hg.symm
  | cons x rest => simp

theorem Shows.recordsOf_eq_nil_iff (task : TaskId) :
    r.recordsOf task = [] ↔ ofTask r.entries task = [] := by
  rw [h.recordsOf_eq]
  cases ofTask r.entries task <;> simp

theorem Shows.others_eq :
    r.others = (r.entries.filter fun x => x.1.task? = none).map fun x =>
      (x, TaskRecord.plain f.origin x.1) := by
  rw [others, h.records_eq, List.filter_map, ← filter_leads_outside]
  refine List.map_congr_left fun x hx => ?_
  have htask : x.1.task? = none := of_decide_eq_true (List.mem_filter.1 hx).2
  simp [Frame.openedRecord, htask, f.eventRecord_of_outside htask]

/-! ## Packets -/

theorem Shows.flatMap_inputs (task : TaskId) :
    (r.recordsOf task).flatMap TaskRecord.inputs =
      ((ofTask r.entries task).filter fun x => x.1.takesIn).map fun x => f.inputPacket x.1 := by
  rw [h.flatMap_recordsOf rfl, Frame.taskRecord_inputs, List.filter_map, List.map_map]
  rfl

theorem Shows.complete : r.Complete where
  records := by rw [h.records, List.length_map]
  inputs task := by rw [h.flatMap_inputs, List.length_map]

theorem Shows.inputsOf_eq (task : TaskId) :
    r.inputsOf task = ((ofTask r.entries task).filter fun x => x.1.takesIn).map fun x =>
      (x, f.inputPacket x.1) := by
  rw [inputsOf, h.flatMap_inputs, List.map_prod_left_eq_zip]

/-- The id of a stream is read back to the text of its name. -/
theorem Shows.nameOf?_eq (hfit : r.trace.NamesFit) {task : TaskId} {x : Entry}
    (hx : x ∈ ofTask r.entries task) {p : StreamRecord}
    (hp : p.streamId = f.ids.streamId x.1.stream) :
    r.trace.nameOf? p = some (StreamName.textOf x.1.stream) := by
  obtain ⟨hin, htask⟩ := mem_ofTask.1 hx
  have he : x.1 ∈ f.events := h.events ▸ List.mem_map_of_mem hin
  have hlisted : StreamName.textOf x.1.stream ∈ f.ids.streams.names :=
    StreamIds.mem_names_iff.2 (h.known x.1 he (Event.isTask_of_task? htask))
  exact Trace.nameOf?_eq h.names hfit hlisted hp

theorem Shows.packetsIn_eq (hfit : r.trace.NamesFit) (task : TaskId) :
    r.packetsIn task = ((ofTask r.entries task).filter fun x => x.1.takesIn).map fun x =>
      (some (StreamName.textOf x.1.stream), f.origin.stamp x.1.packetStamp,
        some (f.origin.time x.1.time)) := by
  rw [packetsIn, h.flatMap_recordsOf rfl, Frame.taskRecord_inputs, List.filter_map, List.map_map,
    List.map_map]
  refine List.map_congr_left fun x hx => ?_
  have hname := h.nameOf?_eq hfit (List.mem_filter.1 hx).1 (p := f.inputPacket x.1) rfl
  simp only [Function.comp_apply, hname]
  rfl

theorem Shows.packetsOut_eq (hfit : r.trace.NamesFit) (task : TaskId) :
    r.packetsOut task = ((ofTask r.entries task).filter fun x => x.1.putsOut).map fun x =>
      (some (StreamName.textOf x.1.stream), f.origin.stamp x.1.packetStamp) := by
  rw [packetsOut, h.flatMap_recordsOf rfl, Frame.taskRecord_outputs, List.filter_map, List.map_map,
    List.map_map]
  refine List.map_congr_left fun x hx => ?_
  have hname := h.nameOf?_eq hfit (List.mem_filter.1 hx).1 (p := f.outputPacket x.1) rfl
  simp only [Function.comp_apply, hname]
  rfl

/-- Every packet of a task has a name. -/
theorem Shows.isSome_nameOf? (hfit : r.trace.NamesFit) {task : TaskId} {record : TaskRecord}
    (hrecord : record ∈ r.recordsOf task) {p : StreamRecord}
    (hp : p ∈ record.inputs ++ record.outputs) : (r.trace.nameOf? p).isSome = true := by
  have hshown : ∃ x ∈ ofTask r.entries task, p.streamId = f.ids.streamId x.1.stream := by
    rw [h.recordsOf_eq] at hrecord
    obtain ⟨_, _, rfl⟩ := List.mem_map.1 hrecord
    rw [Frame.taskRecord_inputs, Frame.taskRecord_outputs] at hp
    rcases List.mem_append.1 hp with hp | hp
    · obtain ⟨e, he, rfl⟩ := List.mem_map.1 hp
      obtain ⟨x, hx, rfl⟩ := List.mem_map.1 (List.mem_filter.1 he).1
      exact ⟨x, hx, rfl⟩
    · obtain ⟨e, he, rfl⟩ := List.mem_map.1 hp
      obtain ⟨x, hx, rfl⟩ := List.mem_map.1 (List.mem_filter.1 he).1
      exact ⟨x, hx, rfl⟩
  obtain ⟨x, hx, hid⟩ := hshown
  rw [h.nameOf?_eq hfit hx hid]
  rfl

end

end Reading

/-! ## Readings of a session -/

/-- The trace of a window with the entries of the window, and the session after it. -/
def Session.read (s : Session) (buffer : List NamedEvent) (w : Window) : Reading × Session :=
  (⟨w.entries buffer, (s.trace buffer w).1⟩, (s.trace buffer w).2)

theorem Session.shows_read {s : Session} (hs : s.ids.Faithful) (buffer : List NamedEvent)
    (w : Window) : (s.read buffer w).1.Shows (s.traceFrame buffer w) where
  ascending := w.ascending_entries buffer
  events := w.map_fst_entries buffer
  records := trace_records buffer w hs
  names := rfl
  known _ he hkind := exists_id_of_trace buffer w hs he hkind

end FlowTrace
