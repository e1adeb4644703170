import FlowTrace.Proofs.Trace.IdSpace
import FlowTrace.Proofs.Trace.Reading
set_option autoImplicit false

/-!
# Trace: reading a log back

Each record of a log tells which event it is about: calculator, kind, thread and side, the time to the
microsecond, the input stamp, and for kinds that describe packets also the stream and the stamp of
the packet.  Times and stamps are read back by adding them to the base values, and a stream by looking
its id up in the list of names, all of which come with the records.  The base values may have been
fixed long before the log.  Only where a difference to them has no room in a word, the value is lost
(`Session.log_givesBack`).
-/

namespace FlowTrace

/-- A difference that has room in a word is undone by adding. -/
theorem Word.add_clampedSub {a b : Int64} (h : Fits (a.toInt - b.toInt)) :
    b.toInt + (clampedSub a b).toInt = a.toInt := by
  obtain ⟨hleast, hgreatest⟩ := h
  rw [clampedSub, toInt_ofIntClamp]
  omega

/-- The event can be read back from its record in the trace. -/
structure TaskRecord.GivesBack (t : Trace) (e : NamedEvent) (r : TaskRecord) : Prop where
  node : r.node = e.node
  kind : r.kind = e.kind
  thread : r.thread = e.thread
  /-- the record has one of its two times -/
  oneTime : r.startTime.isSome = !r.finishTime.isSome
  isFinish : e.isFinish = r.finishTime.isSome
  micros : Word.Fits (e.micros.toInt - t.baseTime.toInt) →
    ∀ time, r.startTime = some time ∨ r.finishTime = some time →
      t.baseTime.toInt + time.toInt = e.micros.toInt
  unset : e.inputStamp = .unset ↔ r.inputStamp = none
  inputStamp : Word.Fits (e.inputStamp.value.toInt - t.baseStamp.toInt) →
    ∀ stamp, r.inputStamp = some stamp →
      t.baseStamp.toInt + stamp.toInt = e.inputStamp.value.toInt
  /-- an event that may describe a packet names no stream just if the record has no packet -/
  noPacket : e.kind.isHop = true → (e.stream = none ↔ r.inputs = [] ∧ r.outputs = [])
  /-- else it has one, which shows the name of the stream and the stamp of the packet -/
  packet : e.kind.isHop = true → ∀ name, e.stream = some name →
    ∃ p, r.inputs ++ r.outputs = [p] ∧ (t.NamesFit → t.nameOf? p = some name.text) ∧
      (Word.Fits (e.packetStamp.value.toInt - t.baseStamp.toInt) →
        t.baseStamp.toInt + p.packetStamp.toInt = e.packetStamp.value.toInt)

namespace Frame

variable (f : Frame) {e : NamedEvent}

/-- An event has its packet at one side of its record. -/
theorem eventRecord_boundary (e : NamedEvent) :
    (f.eventRecord e).boundary = if e.describesHop then [f.loggedPacket e] else [] := by
  cases hhop : e.describesHop <;> cases hfinish : e.isFinish <;>
    simp [TaskRecord.boundary, eventRecord, Event.takesIn, Event.putsOut, hhop, hfinish]

/-- The record of an event gives it back through the base values and the names of the frame. -/
theorem givesBack_eventRecord {t : Trace} (horigin : t.origin = f.origin)
    (hnames : t.streamNames = f.ids.streams.names)
    (hlisted : e.describesHop = true → StreamName.textOf e.stream ∈ f.ids.streams.names) :
    (f.eventRecord e).GivesBack t e := by
  have hbaseTime : t.baseTime = f.origin.baseTime := congrArg Origin.baseTime horigin
  have hbaseStamp : t.baseStamp = f.origin.baseStamp := congrArg Origin.baseStamp horigin
  have htimes : ∀ time, (f.eventRecord e).startTime = some time ∨
      (f.eventRecord e).finishTime = some time → time = f.origin.time e.time := by
    intro time htime
    cases hfinish : e.isFinish <;> simp [eventRecord, hfinish] at htime <;> exact htime.symm
  refine ⟨rfl, rfl, rfl, ?_, ?_, ?_, ?_, ?_, ?_, ?_⟩
  · cases hfinish : e.isFinish <;> simp [eventRecord, hfinish]
  · cases hfinish : e.isFinish <;> simp [eventRecord, hfinish]
  · intro hfits time htime
    rw [htimes time htime, hbaseTime]
    exact Word.add_clampedSub (hbaseTime ▸ hfits)
  · by_cases hunset : e.inputStamp = .unset <;> simp [eventRecord, Origin.inputStamp, hunset]
  · intro hfits stamp hstamp
    have hshown : f.origin.inputStamp e.inputStamp = some stamp := hstamp
    unfold Origin.inputStamp at hshown
    split at hshown
    · cases hshown
    · rw [← Option.some.inj hshown, hbaseStamp]
      exact Word.add_clampedSub (hbaseStamp ▸ hfits)
  · intro hkind
    rw [← List.append_eq_nil_iff]
    change _ ↔ (f.eventRecord e).boundary = []
    rw [eventRecord_boundary]
    cases hstream : e.stream <;> simp [Event.describesHop, hkind, hstream]
  · intro hkind name hname
    have hhop : e.describesHop = true := by simp [Event.describesHop, hkind, hname]
    refine ⟨f.loggedPacket e, ?_, ?_, ?_⟩
    · exact (f.eventRecord_boundary e).trans (if_pos hhop)
    · intro hfit
      rw [Trace.nameOf?_eq hnames hfit (hlisted hhop) rfl, hname]
      rfl
    · intro hfits
      rw [hbaseStamp]
      exact Word.add_clampedSub (hbaseStamp ▸ hfits)

end Frame

namespace Session

/-- The records of a log stand in the order of the events of its window, from its start on and before
its stop, and each gives its event back. -/
theorem log_givesBack {s : Session} (h : s.Reachable) (buffer : List NamedEvent) (w : Window) :
    List.Forall₂ (TaskRecord.GivesBack (s.log buffer w).1)
      (buffer.filter fun e => w.start ≤ e.time ∧ e.time < w.stop) (s.log buffer w).1.records := by
  have hevents : (buffer.filter fun e => w.start ≤ e.time ∧ e.time < w.stop) = w.events buffer :=
    List.filter_congr fun e _ => by simp [Window.contains]
  have hlisted : ∀ e ∈ w.events buffer, e.describesHop = true →
      StreamName.textOf e.stream ∈ (s.log buffer w).2.streamNames := by
    intro e he hhop
    rw [names_log buffer w h.faithful, List.mem_eraseDups]
    refine List.mem_append_right _ (List.mem_flatMap.2 ⟨e, he, ?_⟩)
    rw [Event.loggedTexts, if_pos hhop]
    exact List.mem_singleton.2 rfl
  rw [hevents, log_records buffer w h.faithful, List.forall₂_map_right_iff, List.forall₂_same]
  intro e he
  exact (s.logFrame buffer w).givesBack_eventRecord rfl rfl (hlisted e he)

/-- The records of the handover in a log: its packet has the first stream and the first payload. -/
def handoverRecords : List TaskRecord :=
  [⟨1, some 0, .processed, some 0, none, [], [], 7⟩,
   ⟨2, some 0, .processed, some 3000000, none, [⟨none, none, 0, 1, some 1⟩], [], 8⟩,
   ⟨3, some 0, .readyForProcess, some 1000000, none, [], [], 7⟩,
   ⟨1, some 0, .processed, none, some 2000000, [], [⟨none, none, 0, 1, some 1⟩], 7⟩,
   ⟨2, some 0, .processed, none, some 4000000, [], [], 8⟩]

theorem map_eventRecord_handover {f : Frame} (horigin : f.origin = ⟨0, 10⟩)
    (hstream : f.ids.streams.id? "frames" = some 1) (hpayload : f.ids.payloads.id? 64 = some 1) :
    handover.map f.eventRecord = handoverRecords := by
  have hstamp : Origin.stamp ⟨0, 10⟩ ⟨10⟩ = 0 := by decide
  have hpacket : ∀ e ∈ handover, e.describesHop = true →
      f.loggedPacket e = ⟨none, none, 0, 1, some 1⟩ := by
    simp [handover, Event.describesHop, EventKind.isHop, Frame.loggedPacket, IdTables.streamId,
      IdTables.payloadId, StreamName.textOf, hstream, hpayload, horigin, hstamp]
  simp only [handover, handoverRecords, List.forall_mem_cons, List.map_cons, List.map_nil,
    Frame.eventRecord, horigin] at hpacket ⊢
  obtain ⟨-, hin, -, hout, -⟩ := hpacket
  rw [hin rfl, hout rfl]
  rfl

theorem streamNames_logHandover :
    (traced.log handover .firstMinute).2.streamNames = ["", "frames"] := by
  have htraced : traced.streamNames = ["", "frames"] :=
    (names_trace handover .firstMinute IdTables.faithful_empty).trans (by decide)
  rw [names_log handover .firstMinute reachable_traced.faithful, htraced]
  decide

theorem handles_logHandover : (traced.log handover .firstMinute).2.ids.handles = [0, 64] := by
  have htraced : traced.ids.handles = [0, 64] := by
    refine (handles_trace handover .firstMinute IdTables.faithful_empty).trans ?_
    rw [handles_traceHandover]
    decide
  rw [handles_log handover .firstMinute reachable_traced.faithful, htraced]
  decide

/-- The log of the handover gives its five events back, in a session whose origin an earlier trace has
fixed. -/
theorem log_givesBack_handover :
    traced.Reachable ∧ traced.origin = some ⟨0, 10⟩ ∧
      (traced.log handover .firstMinute).1.records = handoverRecords ∧
      (traced.log handover .firstMinute).1.streamNames = ["", "frames"] ∧
      List.Forall₂ (TaskRecord.GivesBack (traced.log handover .firstMinute).1) handover
        handoverRecords := by
  have hnames := streamNames_logHandover
  have hstream : (traced.log handover .firstMinute).2.ids.streams.id? "frames" = some 1 := by
    rw [NameIds.id?, IdTable.id?_eq_some_iff]
    exact congrArg (fun names : List String => names[1]?) hnames
  have hpayload : (traced.log handover .firstMinute).2.ids.payloads.id? 64 = some 1 := by
    rw [IdTable.id?_eq_some_iff]
    exact congrArg (fun handles : List UInt64 => handles[1]?) handles_logHandover
  have hrecords : (traced.log handover .firstMinute).1.records = handoverRecords := by
    rw [log_records handover .firstMinute reachable_traced.faithful]
    exact map_eventRecord_handover rfl hstream hpayload
  have hevents : (handover.filter fun e => Window.firstMinute.start ≤ e.time ∧
      e.time < Window.firstMinute.stop) = handover := by decide
  have hback := log_givesBack reachable_traced handover .firstMinute
  rw [hevents, hrecords] at hback
  exact ⟨reachable_traced, rfl, hrecords, hnames, hback⟩

end Session

end FlowTrace
