import FlowTrace.Proofs.Trace.Folding
set_option autoImplicit false

/-!
# Trace: traces and logs of one window

A trace folds what a log lists.  Both modes write their own records and give out ids in different
orders, yet a trace made right after the log of the same window is the fold of that log: ids stay
what the log made them, the origin stays where the log put it, and the earliest of some events has
the least of their relative times.
-/

namespace FlowTrace

open Entries

/-- The record of a task says what the log records of its events say one by one. -/
structure TaskRecord.FoldsLogs (logs : List TaskRecord) (r : TaskRecord) : Prop where
  first : ∃ l, logs.head? = some l ∧ r.node = l.node ∧ r.kind = l.kind ∧
    r.inputStamp = l.inputStamp ∧ r.thread = l.thread
  startTime : r.startTime = (logs.filterMap TaskRecord.startTime).min?
  finishTime : r.finishTime = (logs.filterMap TaskRecord.finishTime).min?
  inputs : r.inputs.map (fun h => (h.streamId, h.packetStamp, h.payloadId, h.finishTime)) =
    logs.flatMap fun l =>
      l.inputs.map fun h => (h.streamId, h.packetStamp, h.payloadId, l.startTime)
  outputs : r.outputs.map (fun h => (h.streamId, h.packetStamp)) =
    logs.flatMap fun l => l.outputs.map fun h => (h.streamId, h.packetStamp)

/-- The log records of the entries of one task, in order. -/
def Trace.logsOfTask (l : Trace) (xs : List Entry) (task : TaskId) : List TaskRecord :=
  ((xs.zip l.records).filter fun p => p.1.1.task? = some task).map Prod.snd

/-- The trace `t` and the log `l` of the same entries agree. -/
structure Trace.AgreesWithLog (t l : Trace) (xs : List Entry) : Prop where
  baseTime : t.baseTime = l.baseTime
  baseStamp : t.baseStamp = l.baseStamp
  /-- the log has one record for each entry -/
  logged : l.records.length = xs.length
  /-- tasks are folded, and an event outside tasks has the record that the log has for it -/
  records : List.Forall₂
    (fun x r => match x.1.task? with
      | some task => TaskRecord.FoldsLogs (l.logsOfTask xs task) r
      | none => (x, r) ∈ xs.zip l.records)
    (leads xs) t.records

/-! ## Folding the records of a frame -/

namespace Frame

variable (f : Frame)

theorem filterMap_startTime (events : List NamedEvent) :
    (events.map f.eventRecord).filterMap TaskRecord.startTime =
      (events.filter fun e => !e.isFinish).map fun e => f.origin.time e.time := by
  induction events with
  | nil => rfl
  | cons e events ih => cases hfinish : e.isFinish <;> simp [eventRecord, hfinish, ih]

theorem filterMap_finishTime (events : List NamedEvent) :
    (events.map f.eventRecord).filterMap TaskRecord.finishTime =
      (events.filter fun e => e.isFinish).map fun e => f.origin.time e.time := by
  induction events with
  | nil => rfl
  | cons e events ih => cases hfinish : e.isFinish <;> simp [eventRecord, hfinish, ih]

theorem flatMap_inputs (events : List NamedEvent) :
    ((events.map f.eventRecord).flatMap fun l =>
        l.inputs.map fun h => (h.streamId, h.packetStamp, h.payloadId, l.startTime)) =
      ((events.filter Event.takesIn).map f.inputPacket).map fun h =>
        (h.streamId, h.packetStamp, h.payloadId, h.finishTime) := by
  induction events with
  | nil => rfl
  | cons e events ih =>
    rw [List.map_cons, List.flatMap_cons, ih]
    cases htakes : e.takesIn with
    | false => simp [eventRecord, htakes]
    | true =>
      have hfinish : e.isFinish = false := by
        rw [Event.takesIn, Bool.and_eq_true, Bool.not_eq_true'] at htakes
        exact htakes.2
      simp [eventRecord, htakes, hfinish, loggedPacket, inputPacket]

theorem flatMap_outputs (events : List NamedEvent) :
    ((events.map f.eventRecord).flatMap fun l =>
        l.outputs.map fun h => (h.streamId, h.packetStamp)) =
      ((events.filter Event.putsOut).map f.outputPacket).map fun h =>
        (h.streamId, h.packetStamp) := by
  induction events with
  | nil => rfl
  | cons e events ih =>
    rw [List.map_cons, List.flatMap_cons, ih]
    cases hputs : e.putsOut <;> simp [eventRecord, hputs, loggedPacket, outputPacket]

/-- Folding the events of a task says the same as folding the log records of the events. -/
theorem foldsLogs_taskRecord {events : List NamedEvent} (h : events ≠ [])
    (hleap : ∀ e ∈ events, e.time.isLeap = false) :
    TaskRecord.FoldsLogs (events.map f.eventRecord) (f.taskRecord events) := by
  have hpart : ∀ p : NamedEvent → Bool, ∀ e ∈ events.filter p, e.time.isLeap = false :=
    fun p e he => hleap e (List.mem_filter.1 he).1
  refine ⟨?_, ?_, ?_, ?_, ?_⟩
  · obtain ⟨first, rest, rfl⟩ := List.exists_cons_of_ne_nil h
    exact ⟨f.eventRecord first, rfl, rfl, rfl, rfl, rfl⟩
  · rw [taskRecord_startTime, Origin.earliest?_eq_min? _ (hpart _), filterMap_startTime]
  · rw [taskRecord_finishTime, Origin.earliest?_eq_min? _ (hpart _), filterMap_finishTime]
  · rw [taskRecord_inputs, flatMap_inputs]
  · rw [taskRecord_outputs, flatMap_outputs]

end Frame

/-! ## A trace after a log -/

namespace Session

variable (s : Session) (buffer : List NamedEvent) (w : Window)

/-- A call leaves the origin where it found it, if the events have already been used to fix it. -/
theorem originAfter_of_eq {s' : Session} {events : List NamedEvent}
    (h : s'.origin = s.originAfter events) : s'.originAfter events = s.originAfter events := by
  cases hs : s.origin with
  | some o =>
    rw [originAfter, hs] at h
    rw [originAfter, h, originAfter, hs]
  | none =>
    rw [originAfter, hs] at h
    rw [originAfter, h, originAfter, hs]
    cases Origin.ofEvents? events <;> simp

/-- The records of a log, with the ids as they are after the trace that follows it. -/
theorem log_records_of_trace (hs : s.ids.Faithful) :
    (s.log buffer w).1.records =
      (w.events buffer).map ((s.log buffer w).2.traceFrame buffer w).eventRecord := by
  have hlog := makes_log buffer w hs
  have htrace := makes_trace buffer w hlog.faithful
  have horigin : (s.log buffer w).2.originAfter (w.events buffer) =
      s.originAfter (w.events buffer) := s.originAfter_of_eq rfl
  rw [traceFrame, horigin]
  exact hlog.value_eq _ htrace.within

end Session

/-- A trace that is made right after the log of the same window folds the records of that log. -/
theorem Session.trace_agreesWithLog {s : Session} (h : s.Reachable) {buffer : List NamedEvent}
    (hleap : ∀ e ∈ buffer, e.time.isLeap = false) (w : Window) :
    ((s.log buffer w).2.trace buffer w).1.AgreesWithLog (s.log buffer w).1
      (w.entries buffer) := by
  have hids := h.faithful
  have hlogged := s.log_records_of_trace buffer w hids
  have hrecords := trace_records buffer w (makes_log buffer w hids).faithful
  have horigin : ((s.log buffer w).2.trace buffer w).2.origin = (s.log buffer w).2.origin :=
    s.originAfter_of_eq rfl
  generalize (s.log buffer w).2.traceFrame buffer w = f at hlogged hrecords
  rw [← w.map_fst_entries, List.map_map] at hlogged
  refine ⟨?_, ?_, ?_, ?_⟩
  · exact congrArg (fun o : Option Origin => (o.getD .zero).baseTime) horigin
  · exact congrArg (fun o : Option Origin => (o.getD .zero).baseStamp) horigin
  · rw [hlogged, List.length_map]
  · rw [hrecords, List.forall₂_map_right_iff, List.forall₂_same]
    intro x hx
    cases htask : x.1.task? with
    | none =>
      simp only [Frame.openedRecord, htask]
      rw [hlogged, ← List.map_prod_left_eq_zip]
      exact List.mem_map.2 ⟨x, (mem_leads.1 hx).1, rfl⟩
    | some task =>
      have hne := ofTask_ne_nil_of_mem_leads (w.ascending_entries buffer) hx htask
      have hmembers : ∀ e ∈ (ofTask (w.entries buffer) task).map Prod.fst,
          e.time.isLeap = false := by
        intro e he
        obtain ⟨y, hy, rfl⟩ := List.mem_map.1 he
        exact hleap y.1 (Window.mem_of_mem_entries (mem_ofTask.1 hy).1)
      have hlogs : (s.log buffer w).1.logsOfTask (w.entries buffer) task =
          ((ofTask (w.entries buffer) task).map Prod.fst).map f.eventRecord := by
        rw [Trace.logsOfTask, hlogged, ← List.map_prod_left_eq_zip, List.filter_map, List.map_map,
          List.map_map]
        rfl
      simp only [Frame.openedRecord, htask]
      rw [hlogs]
      exact f.foldsLogs_taskRecord (by simpa using hne) hmembers

theorem Session.trace_agreesWithLog_handover :
    traced.Reachable ∧ (∀ e ∈ handover, e.time.isLeap = false) ∧
      ((traced.log handover .firstMinute).2.trace handover .firstMinute).1.AgreesWithLog
        (traced.log handover .firstMinute).1 (Window.firstMinute.entries handover) := by
  have hleap : ∀ e ∈ handover, e.time.isLeap = false := by decide
  exact ⟨reachable_traced, hleap, trace_agreesWithLog reachable_traced hleap .firstMinute⟩

end FlowTrace
