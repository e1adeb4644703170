import FlowTrace.Proofs.Time.Earliest
import FlowTrace.Proofs.Trace.Index
import FlowTrace.Trace.Calls
set_option autoImplicit false

/-!
# Trace: records without the machinery

What a call returns is determined by three things: the id tables as they are after it, the origin,
and the events of its window.  A `Frame` holds these, and the records it gives are written with
filters and minima over the list of events.  The main statements are that the records of
`Session.trace` and of `Session.log` are the ones of their frames (`trace_records`, `log_records`),
for every session whose ids are faithful, and that every reachable session is one.
-/

namespace FlowTrace

open Entries

/-! ## Packets and records of a frame -/

namespace Event

/-- The packet of the event was taken in by its task. -/
def takesIn {ν : Type} (e : Event ν) : Bool := e.describesHop && !e.isFinish

/-- The packet of the event was put out by its task. -/
def putsOut {ν : Type} (e : Event ν) : Bool := e.describesHop && e.isFinish

/-- The finish `p` produced the packet that `e` takes in: stream name, packet stamp and kind agree,
where a missing name counts as the empty one. -/
def Produces (p e : NamedEvent) : Prop :=
  p.kind.isTask = true ∧ p.isFinish = true ∧
    StreamName.textOf p.stream = StreamName.textOf e.stream ∧
    p.packetStamp = e.packetStamp ∧ p.kind = e.kind

instance (p e : NamedEvent) : Decidable (p.Produces e) :=
  inferInstanceAs (Decidable (_ ∧ _ ∧ _ ∧ _ ∧ _))

end Event

/-- The relative time of the earliest of some events. -/
def Origin.earliest? (o : Origin) (events : List NamedEvent) : Option Int64 :=
  ((events.map Event.time).min?).map o.time

/-- Outside leap seconds, the earliest of some events has the least of the relative times. -/
theorem Origin.earliest?_eq_min? (o : Origin) {events : List NamedEvent}
    (hleap : ∀ e ∈ events, e.time.isLeap = false) :
    o.earliest? events = (events.map fun e => o.time e.time).min? := by
  have hmono : ∀ a ∈ events.map Event.time, ∀ b ∈ events.map Event.time, a ≤ b →
      o.time a ≤ o.time b := by
    intro a ha b _ hab
    obtain ⟨e, he, rfl⟩ := List.mem_map.1 ha
    exact o.time_le_time (hleap e he) hab
  rw [earliest?, map_min? hmono, List.map_map]
  rfl

/-- What the records of a call are determined by. -/
structure Frame where
  /-- the ids as they are after the call -/
  ids : IdTables
  origin : Origin
  /-- the events of the window -/
  events : List NamedEvent

namespace Frame

/-- The last event of the window that produced the packet of `e`. -/
def producer? (f : Frame) (e : NamedEvent) : Option NamedEvent :=
  (f.events.filter fun p => p.Produces e).getLast?

/-- The producer is found among the entries of the window as well. -/
theorem producer?_eq (f : Frame) {xs : List Entry} (h : xs.map Prod.fst = f.events)
    (e : NamedEvent) :
    f.producer? e = ((xs.filter fun x => x.1.Produces e).getLast?).map Prod.fst := by
  rw [producer?, ← h, List.filter_map, List.getLast?_map]
  rfl

/-- A packet taken in. -/
def inputPacket (f : Frame) (e : NamedEvent) : StreamRecord where
  startTime := (f.producer? e).map fun p => f.origin.time p.time
  finishTime := some (f.origin.time e.time)
  packetStamp := f.origin.stamp e.packetStamp
  streamId := f.ids.streamId e.stream
  payloadId := some (f.ids.payloadId e.payload)

/-- A packet put out. -/
def outputPacket (f : Frame) (e : NamedEvent) : StreamRecord where
  startTime := none
  finishTime := none
  packetStamp := f.origin.stamp e.packetStamp
  streamId := f.ids.streamId e.stream
  payloadId := none

/-- A packet in a log. -/
def loggedPacket (f : Frame) (e : NamedEvent) : StreamRecord where
  startTime := none
  finishTime := none
  packetStamp := f.origin.stamp e.packetStamp
  streamId := f.ids.streamId e.stream
  payloadId := some (f.ids.payloadId e.payload)

/-- A packet of a task, and whether it was put out. -/
def packet (f : Frame) (e : NamedEvent) : Bool × StreamRecord :=
  (e.isFinish, if e.isFinish then f.outputPacket e else f.inputPacket e)

/-- The record of the events of one task. -/
def taskRecord (f : Frame) : List NamedEvent → TaskRecord
  | [] => default
  | first :: rest => {
      node := first.node
      inputStamp := f.origin.inputStamp first.inputStamp
      kind := first.kind
      startTime := f.origin.earliest? ((first :: rest).filter fun e => !e.isFinish)
      finishTime := f.origin.earliest? ((first :: rest).filter fun e => e.isFinish)
      inputs := ((first :: rest).filter Event.takesIn).map f.inputPacket
      outputs := ((first :: rest).filter Event.putsOut).map f.outputPacket
      thread := first.thread }

/-- The record of one event for itself. -/
def eventRecord (f : Frame) (e : NamedEvent) : TaskRecord where
  node := e.node
  inputStamp := f.origin.inputStamp e.inputStamp
  kind := e.kind
  startTime := if e.isFinish then none else some (f.origin.time e.time)
  finishTime := if e.isFinish then some (f.origin.time e.time) else none
  inputs := if e.takesIn then [f.loggedPacket e] else []
  outputs := if e.putsOut then [f.loggedPacket e] else []
  thread := e.thread

/-- The record that an entry opens. -/
def openedRecord (f : Frame) (xs : List Entry) (x : Entry) : TaskRecord :=
  match x.1.task? with
  | some task => f.taskRecord ((ofTask xs task).map Prod.fst)
  | none => f.eventRecord x.1

theorem taskRecord_startTime (f : Frame) (events : List NamedEvent) :
    (f.taskRecord events).startTime = f.origin.earliest? (events.filter fun e => !e.isFinish) := by
  cases events <;> rfl

theorem taskRecord_finishTime (f : Frame) (events : List NamedEvent) :
    (f.taskRecord events).finishTime = f.origin.earliest? (events.filter fun e => e.isFinish) := by
  cases events <;> rfl

theorem taskRecord_inputs (f : Frame) (events : List NamedEvent) :
    (f.taskRecord events).inputs = (events.filter Event.takesIn).map f.inputPacket := by
  cases events <;> rfl

theorem taskRecord_outputs (f : Frame) (events : List NamedEvent) :
    (f.taskRecord events).outputs = (events.filter Event.putsOut).map f.outputPacket := by
  cases events <;> rfl

/-- The record of a subject. -/
def subjectRecord (f : Frame) : Subject → TaskRecord
  | .task task => f.taskRecord (f.events.filter fun e => e.task? = some task)
  | .event e => f.eventRecord e

theorem subjectRecord_of (f : Frame) {xs : List Entry} (h : xs.map Prod.fst = f.events)
    (x : Entry) : f.subjectRecord (.of x.1) = f.openedRecord xs x := by
  cases htask : x.1.task? with
  | none => simp [Subject.of, subjectRecord, openedRecord, htask]
  | some task => simp [Subject.of, subjectRecord, openedRecord, htask, map_fst_ofTask, h]

end Frame

/-! ## Records of single events -/

open IdTables

theorem makes_logHop (o : Origin) (events : List NamedEvent) {t : IdTables} (ht : t.Faithful)
    (e : NamedEvent) : t.Makes (logHop o t e) fun u => (Frame.mk u o events).loggedPacket e := by
  obtain ⟨hfaithful, hwithin, hstream⟩ := makes_stream ht e.stream
  obtain ⟨hfaithful', hwithin', hpayload⟩ := makes_payload hfaithful e.payload
  refine ⟨hfaithful', hwithin.trans hwithin', fun u hu => ?_⟩
  simp only [logHop, Frame.loggedPacket, hstream u (hwithin'.trans hu), hpayload u hu]

theorem makes_logRecord (o : Origin) (events : List NamedEvent) {t : IdTables} (ht : t.Faithful)
    (e : NamedEvent) : t.Makes (logRecord o t e) fun u => (Frame.mk u o events).eventRecord e := by
  by_cases hhop : e.describesHop = true
  · have hone : t.Makes (mapThrough (logHop o) t [e])
        fun u => [e].map (Frame.mk u o events).loggedPacket :=
      makes_mapThrough (fun t a ht _ _ => makes_logHop o events ht a) ht (Within.refl t)
    refine ⟨?_, ?_, fun u hu => ?_⟩
    · simpa [logRecord, hhop] using hone.faithful
    · simpa [logRecord, hhop] using hone.within
    · have hvalue := hone.value_eq u (by simpa [logRecord, hhop] using hu)
      cases hfinish : e.isFinish <;>
        simp [logRecord, Frame.eventRecord, Event.takesIn, Event.putsOut, hhop, hvalue, hfinish]
  · refine ⟨by simpa [logRecord, hhop] using ht, by simpa [logRecord, hhop] using Within.refl t, ?_⟩
    intro u _
    simp [logRecord, Frame.eventRecord, Event.takesIn, Event.putsOut, hhop]

/-! ## Records of tasks -/

section

variable {start streams : StreamIds} {events : List NamedEvent} {index : EventIndex}

/-- A position filed for an event of the list leads back to it. -/
theorem getElem?_of_mem_zipIdx {x : Entry} (h : x ∈ events.zipIdx) :
    events.toArray[x.2]? = some x.1 := by
  rw [List.getElem?_toArray]
  exact List.mem_zipIdx_iff_getElem?.1 h

theorem members_eq (h : EventIndex.Covers start events.zipIdx (index, streams)) (o : Origin)
    (task : TaskId) :
    (TaskView.mk o events.toArray index).members task =
      events.filter fun e => e.task? = some task := by
  have hpositions : index.taskPositions task = (ofTask events.zipIdx task).map Prod.snd :=
    h.tasks task
  have hback : ∀ x ∈ ofTask events.zipIdx task, events.toArray[x.2]? = some x.1 :=
    fun x hx => getElem?_of_mem_zipIdx (mem_ofTask.1 hx).1
  calc (TaskView.mk o events.toArray index).members task
      = (ofTask events.zipIdx task).filterMap fun x => events.toArray[x.2]? := by
        rw [TaskView.members, hpositions, List.filterMap_map]
        rfl
    _ = (ofTask events.zipIdx task).map Prod.fst := by
        rw [List.filterMap_congr hback, List.filterMap_eq_map']
    _ = events.filter fun e => e.task? = some task := by
        rw [map_fst_ofTask, List.zipIdx_map_fst]

/-- The producer of a packet is found under the id of its stream, since no other text has that
id. -/
theorem producedAt?_eq (h : EventIndex.Covers start events.zipIdx (index, streams)) (f : Frame)
    (hevents : f.events = events) {e : NamedEvent} {id : Nat}
    (hid : streams.id? (StreamName.textOf e.stream) = some id) :
    (TaskView.mk f.origin events.toArray index).producedAt? ⟨id, e.packetStamp, e.kind⟩ =
      (f.producer? e).map fun p => f.origin.time p.time := by
  subst hevents
  have hsame : ∀ p : NamedEvent,
      HopId.FinishedBy ⟨id, e.packetStamp, e.kind⟩ streams p ↔ p.Produces e := by
    intro p
    simp only [HopId.FinishedBy, Event.Produces]
    refine and_congr_right fun _ => and_congr_right fun _ => and_congr_left fun _ => ?_
    constructor
    · exact fun hp => IdTable.id?_injective hp hid
    · exact fun htext => htext ▸ hid
  have hlookup := h.hops ⟨id, e.packetStamp, e.kind⟩
  simp only [hsame] at hlookup
  rw [TaskView.producedAt?, hlookup, f.producer?_eq (List.zipIdx_map_fst 0 f.events)]
  cases hlast : (f.events.zipIdx.filter fun x => x.1.Produces e).getLast? with
  | none => rfl
  | some x =>
    have hx := (List.mem_filter.1 (List.mem_of_getLast? hlast)).1
    simp only [Option.map_some, Option.bind_some]
    rw [getElem?_of_mem_zipIdx hx, Option.map_some]

variable {base t : IdTables}

theorem makes_hop (h : EventIndex.Covers start events.zipIdx (index, base.streams)) (o : Origin)
    (ht : t.Faithful) (hbase : base.Within t) {e : NamedEvent} (he : e ∈ events)
    (hkind : e.kind.isTask = true) :
    t.Makes ((TaskView.mk o events.toArray index).hop t e) fun u =>
      (Frame.mk u o events).packet e := by
  obtain ⟨hfaithful, hwithin, hstream⟩ := makes_stream ht e.stream
  cases hfinish : e.isFinish with
  | true =>
    refine ⟨by simpa [TaskView.hop, hfinish] using hfaithful,
      by simpa [TaskView.hop, hfinish] using hwithin, fun u hu => ?_⟩
    have hu' : (t.stream e.stream).2.Within u := by simpa [TaskView.hop, hfinish] using hu
    simp [TaskView.hop, Frame.packet, Frame.outputPacket, hfinish, hstream u hu']
  | false =>
    obtain ⟨hfaithful₁, hwithin₁, -⟩ := makes_internName hfaithful e.stream
    obtain ⟨hfaithful₂, hwithin₂, hpayload⟩ := makes_payload hfaithful₁ e.payload
    -- the stream was numbered when the event was filed, and it is looked up under that number
    obtain ⟨place, hplace⟩ := List.mem_iff_getElem?.1 he
    obtain ⟨id, hid⟩ := h.known (e, place) (List.mem_zipIdx_iff_getElem?.2 hplace) hkind
    have hlater := (hbase.trans hwithin).streams_id? hid
    have hnumber : ((t.stream e.stream).2.streams.internName e.stream).1 = id := by
      have hgiven := StreamIds.id?_internName hfaithful.streams e.stream
      rw [hwithin₁.streams_id? hlater] at hgiven
      exact (Option.some.inj hgiven).symm
    refine ⟨by simpa [TaskView.hop, HopId.ofEvent, hfinish] using hfaithful₂, ?_, fun u hu => ?_⟩
    · have hall := hwithin.trans (hwithin₁.trans hwithin₂)
      simpa [TaskView.hop, HopId.ofEvent, hfinish] using hall
    · have hu' : (({ (t.stream e.stream).2 with
          streams := ((t.stream e.stream).2.streams.internName e.stream).2 } :
            IdTables).payload e.payload).2.Within u := by
        simpa [TaskView.hop, HopId.ofEvent, hfinish] using hu
      have hproducer := producedAt?_eq h (Frame.mk u o events) rfl hid
      simp [TaskView.hop, HopId.ofEvent, Frame.packet, Frame.inputPacket, hfinish, hnumber,
        hproducer, hstream u ((hwithin₁.trans hwithin₂).trans hu'), hpayload u hu']

/-- Packets of a task in two lists, by the side of the task they are on. -/
theorem inputs_of_packets (f : Frame) (members : List NamedEvent) :
    (((members.filter Event.describesHop).map f.packet).filter fun h => !h.1).map Prod.snd =
      (members.filter Event.takesIn).map f.inputPacket := by
  induction members with
  | nil => rfl
  | cons e members ih =>
    cases hhop : e.describesHop <;> cases hfinish : e.isFinish <;>
      simp [hhop, hfinish, Frame.packet, Event.takesIn, ih]

theorem outputs_of_packets (f : Frame) (members : List NamedEvent) :
    (((members.filter Event.describesHop).map f.packet).filter fun h => h.1).map Prod.snd =
      (members.filter Event.putsOut).map f.outputPacket := by
  induction members with
  | nil => rfl
  | cons e members ih =>
    cases hhop : e.describesHop <;> cases hfinish : e.isFinish <;>
      simp [hhop, hfinish, Frame.packet, Event.putsOut, ih]

theorem makes_taskRecord (h : EventIndex.Covers start events.zipIdx (index, base.streams))
    (o : Origin) (ht : t.Faithful) (hbase : base.Within t) (task : TaskId) :
    t.Makes ((TaskView.mk o events.toArray index).taskRecord t task) fun u =>
      (Frame.mk u o events).taskRecord (events.filter fun e => e.task? = some task) := by
  have hmembers := members_eq h o task
  rw [TaskView.taskRecord, hmembers]
  cases hlist : events.filter fun e => e.task? = some task with
  | nil => exact Makes.pure ht default
  | cons first rest =>
    have hhops : t.Makes
        (mapThrough (TaskView.mk o events.toArray index).hop t
          ((first :: rest).filter Event.describesHop))
        fun u => ((first :: rest).filter Event.describesHop).map (Frame.mk u o events).packet := by
      refine makes_mapThrough (fun t e ht hbase he => ?_) ht hbase
      have hmem : e ∈ first :: rest := (List.mem_filter.1 he).1
      rw [← hlist] at hmem
      obtain ⟨hin, htask⟩ := List.mem_filter.1 hmem
      exact makes_hop h o ht hbase hin (Event.isTask_of_task? (of_decide_eq_true htask))
    refine ⟨hhops.faithful, hhops.within, fun u hu => ?_⟩
    have hvalue := hhops.value_eq u hu
    simp only [hvalue, inputs_of_packets, outputs_of_packets]
    rfl

theorem makes_record (h : EventIndex.Covers start events.zipIdx (index, base.streams))
    (o : Origin) (ht : t.Faithful) (hbase : base.Within t) (subject : Subject) :
    t.Makes ((TaskView.mk o events.toArray index).record t subject) fun u =>
      (Frame.mk u o events).subjectRecord subject := by
  cases subject with
  | task task => exact makes_taskRecord h o ht hbase task
  | event e => exact makes_logRecord o events ht e

end

/-! ## Calls of a session -/

namespace Session

/-- The frame of a trace. -/
def traceFrame (s : Session) (buffer : List NamedEvent) (w : Window) : Frame where
  ids := (s.trace buffer w).2.ids
  origin := (s.originAfter (w.events buffer)).getD .zero
  events := w.events buffer

/-- The frame of a log. -/
def logFrame (s : Session) (buffer : List NamedEvent) (w : Window) : Frame where
  ids := (s.log buffer w).2.ids
  origin := (s.originAfter (w.events buffer)).getD .zero
  events := w.events buffer

variable {s : Session} (buffer : List NamedEvent) (w : Window)

/-- The ids as they are when the events of a window have been filed, before any record is made. -/
def filedIds (s : Session) (buffer : List NamedEvent) (w : Window) : IdTables :=
  { s.ids with streams := (s.index.rebuild (w.events buffer) s.ids.streams).2 }

theorem makes_subjects (hs : s.ids.Faithful) :
    (s.filedIds buffer w).Makes ((s.trace buffer w).1.records, (s.trace buffer w).2.ids) fun u =>
      (Subject.ofEvents (w.events buffer)).map
        (Frame.subjectRecord
          ⟨u, (s.originAfter (w.events buffer)).getD .zero, w.events buffer⟩) := by
  have hcovers : EventIndex.Covers s.ids.streams (w.events buffer).zipIdx
      ((s.index.rebuild (w.events buffer) s.ids.streams).1, (s.filedIds buffer w).streams) :=
    EventIndex.covers_rebuild s.index (w.events buffer) hs.streams
  exact makes_mapThrough (fun t subject ht hin _ => makes_record hcovers _ ht hin subject)
    ⟨hcovers.faithful, hs.null⟩ (Within.refl _)

theorem makes_trace (hs : s.ids.Faithful) :
    s.ids.Makes ((s.trace buffer w).1.records, (s.trace buffer w).2.ids) fun u =>
      (leads (w.entries buffer)).map
        (Frame.openedRecord ⟨u, (s.originAfter (w.events buffer)).getD .zero, w.events buffer⟩
          (w.entries buffer)) := by
  have hcovers := EventIndex.covers_rebuild s.index (w.events buffer) hs.streams
  have hfiled : s.ids.Within (s.filedIds buffer w) := ⟨hcovers.grown, List.prefix_refl _⟩
  have hrecords := makes_subjects buffer w hs
  have hsubjects : Subject.ofEvents (w.events buffer) =
      (leads (w.entries buffer)).map fun x => Subject.of x.1 := by
    rw [← w.map_fst_entries]
    exact Subject.ofEvents_eq (w.ascending_entries buffer)
  refine ⟨hrecords.faithful, hfiled.trans hrecords.within, fun u hu => ?_⟩
  refine (hrecords.value_eq u hu).trans ?_
  rw [hsubjects, List.map_map]
  refine List.map_congr_left fun x _ => ?_
  exact Frame.subjectRecord_of _ (w.map_fst_entries buffer) x

/-- Filing gives ids to the streams of all tasks. -/
theorem exists_id_of_filed (hs : s.ids.Faithful) {e : NamedEvent} (he : e ∈ w.events buffer)
    (hkind : e.kind.isTask = true) :
    ∃ id, (s.filedIds buffer w).streams.id? (StreamName.textOf e.stream) = some id := by
  have hcovers := EventIndex.covers_rebuild s.index (w.events buffer) hs.streams
  obtain ⟨place, hplace⟩ := List.mem_iff_getElem?.1 he
  exact hcovers.known (e, place) (List.mem_zipIdx_iff_getElem?.2 hplace) hkind

theorem exists_id_of_trace (hs : s.ids.Faithful) {e : NamedEvent} (he : e ∈ w.events buffer)
    (hkind : e.kind.isTask = true) :
    ∃ id, (s.trace buffer w).2.ids.streams.id? (StreamName.textOf e.stream) = some id := by
  obtain ⟨id, hid⟩ := exists_id_of_filed buffer w hs he hkind
  exact ⟨id, (makes_subjects buffer w hs).within.streams_id? hid⟩

theorem makes_log (hs : s.ids.Faithful) :
    s.ids.Makes ((s.log buffer w).1.records, (s.log buffer w).2.ids) fun u =>
      (w.events buffer).map
        (Frame.eventRecord
          ⟨u, (s.originAfter (w.events buffer)).getD .zero, w.events buffer⟩) :=
  makes_mapThrough (fun _ e ht _ _ => makes_logRecord _ (w.events buffer) ht e) hs (Within.refl _)

/-- The records of a trace are the ones that the entries of its window open. -/
theorem trace_records (hs : s.ids.Faithful) :
    (s.trace buffer w).1.records =
      (leads (w.entries buffer)).map
        ((s.traceFrame buffer w).openedRecord (w.entries buffer)) :=
  (makes_trace buffer w hs).value_eq _ (Within.refl _)

/-- The records of a log are those of the single events of its window. -/
theorem log_records (hs : s.ids.Faithful) :
    (s.log buffer w).1.records = (w.events buffer).map (s.logFrame buffer w).eventRecord :=
  (makes_log buffer w hs).value_eq _ (Within.refl _)

/-! ## Reachable sessions -/

theorem faithful_call (hs : s.ids.Faithful) (c : SessionCall) : (s.call c).2.ids.Faithful := by
  cases c with
  | trace buffer w => exact (makes_trace buffer w hs).faithful
  | log buffer w => exact (makes_log buffer w hs).faithful
  | clear => exact hs
  | reset => exact IdTables.faithful_clear s.ids

theorem faithful_run (hs : s.ids.Faithful) (calls : List SessionCall) :
    (s.run calls).2.ids.Faithful :=
  mapThrough_induct (p := fun s : Session => s.ids.Faithful) (fun _ c _ hs => faithful_call hs c) hs

/-- In every session that some calls lead to, ids depend on texts and handles alone. -/
theorem Reachable.faithful (h : s.Reachable) : s.ids.Faithful := by
  obtain ⟨calls, rfl⟩ := h
  exact faithful_run IdTables.faithful_empty calls

end Session

end FlowTrace
