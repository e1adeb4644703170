import FlowTrace.Proofs.Naming.Growth
import FlowTrace.Proofs.Trace.Answers
import FlowTrace.Proofs.Trace.Names
set_option autoImplicit false

/-!
# Trace: what a call adds to the tables

A log asks for the streams and payloads of the packets it shows; a trace asks for the streams of all
tasks when it files them, and for the payloads that tasks took in when it makes their records.  What
a call asks for can be told from the call alone, and so can what the tables list after it
(`Session.names_call`, `Session.handles_call`).
-/

namespace FlowTrace

open Entries IdTables

namespace Event

/-- The handle that the payload is numbered under; a missing one counts as the null handle. -/
def handle {ν : Type} (e : Event ν) : UInt64 := e.payload.getD 0

/-- What a log asks for to show an event. -/
def loggedTexts (e : NamedEvent) : List String :=
  if e.describesHop then [StreamName.textOf e.stream] else []

def loggedHandles (e : NamedEvent) : List UInt64 := if e.describesHop then [e.handle] else []

/-- The handle that the record of a task asks for to show a packet, which it does for those taken
in. -/
def takenHandles (e : NamedEvent) : List UInt64 := if e.isFinish then [] else [e.handle]

/-- What filing asks for. -/
def filedTexts (e : NamedEvent) : List String :=
  if e.kind.isTask then [StreamName.textOf e.stream] else []

end Event

/-- The handles that the record of a subject asks for. -/
def Subject.handles (events : List NamedEvent) : Subject → List UInt64
  | .task id =>
    ((events.filter fun e => e.task? = some id).filter Event.describesHop).flatMap
      Event.takenHandles
  | .event e => e.loggedHandles

namespace SessionCall

/-- The texts that a call asks for. -/
def texts : SessionCall → List String
  | .trace buffer w => (w.events buffer).flatMap Event.filedTexts
  | .log buffer w => (w.events buffer).flatMap Event.loggedTexts
  | .clear => []
  | .reset => []

/-- The handles that a call asks for. -/
def handles : SessionCall → List UInt64
  | .trace buffer w => (Subject.ofEvents (w.events buffer)).flatMap
      (Subject.handles (w.events buffer))
  | .log buffer w => (w.events buffer).flatMap Event.loggedHandles
  | .clear => []
  | .reset => []

variable {buffer : List NamedEvent} {w : Window} {e : NamedEvent}

/-- A trace asks for the streams of all tasks. -/
theorem mem_texts_trace (he : e ∈ w.events buffer) (hkind : e.kind.isTask = true) :
    StreamName.textOf e.stream ∈ (trace buffer w).texts :=
  List.mem_flatMap.2 ⟨e, he, by simp [Event.filedTexts, hkind]⟩

/-- A trace asks for the payloads of all packets taken in. -/
theorem mem_handles_trace (he : e ∈ w.events buffer) (htaken : e.takesIn = true) :
    e.handle ∈ (trace buffer w).handles := by
  obtain ⟨hhop, hstart⟩ : e.describesHop = true ∧ e.isFinish = false := by
    simpa [Event.takesIn] using htaken
  have htask : e.task? = some (TaskId.ofEvent e) := by
    have hkind : e.kind.isHop = true := (Bool.and_eq_true_iff.1 hhop).1
    simp [Event.task?, EventKind.isTask_of_isHop hkind]
  -- the task of the event is a subject, because one of its entries opens a record
  rw [← w.map_fst_entries] at he
  obtain ⟨y, hy, rfl⟩ := List.mem_map.1 he
  obtain ⟨x, hx, hshare⟩ := exists_lead_of_mem (w.ascending_entries buffer) hy
  have hsubject : Subject.of x.1 = .task (TaskId.ofEvent y.1) := by
    simp [Subject.of, task?_of_mem_share hshare, htask]
  refine List.mem_flatMap.2 ⟨.task (TaskId.ofEvent y.1), ?_, ?_⟩
  · rw [← w.map_fst_entries, Subject.ofEvents_eq (w.ascending_entries buffer), ← hsubject]
    exact List.mem_map_of_mem hx
  · rw [← w.map_fst_entries]
    refine List.mem_flatMap.2 ⟨y.1, ?_, by simp [Event.takenHandles, hstart]⟩
    exact List.mem_filter.2 ⟨List.mem_filter.2 ⟨he, decide_eq_true htask⟩, hhop⟩

end SessionCall

/-! ## Names -/

theorem EventIndex.names_add {state : EventIndex × StreamIds} (h : state.2.Faithful) (x : Entry) :
    (EventIndex.add state x).2.names = (state.2.names ++ x.1.filedTexts).eraseDups := by
  cases hkind : x.1.kind.isTask with
  | true =>
    rw [add_of_task hkind, Event.filedTexts, if_pos hkind]
    exact StreamIds.names_internName_eq h x.1.stream
  | false =>
    rw [add_of_outside hkind, Event.filedTexts, hkind, if_neg Bool.false_ne_true, List.append_nil,
      eraseDups_of_nodup state.2.nodup_names]

/-- Filing lists the streams of tasks by their first events. -/
theorem EventIndex.names_rebuild (index : EventIndex) (events : List NamedEvent)
    {streams : StreamIds} (h : streams.Faithful) :
    (index.rebuild events streams).2.names =
      (streams.names ++ events.flatMap Event.filedTexts).eraseDups := by
  induction events using List.reverseRecOn with
  | nil =>
    rw [List.flatMap_nil, List.append_nil, eraseDups_of_nodup streams.nodup_names]
    rfl
  | append_singleton events e ih =>
    have hcovers := covers_rebuild index events h
    rw [rebuild] at ih hcovers
    rw [rebuild, List.zipIdx_append, List.foldl_append]
    refine (names_add hcovers.faithful (e, 0 + events.length)).trans ?_
    rw [ih, eraseDups_eraseDups_append, List.flatMap_append, List.flatMap_singleton,
      List.append_assoc]

theorem names_logRecord (o : Origin) {t : IdTables} (ht : t.Faithful) (e : NamedEvent) :
    (logRecord o t e).2.streams.names = (t.streams.names ++ e.loggedTexts).eraseDups := by
  cases hhop : e.describesHop with
  | true =>
    have hpayload : (logHop o t e).2.streams = (t.streams.internName e.stream).2 := by
      cases hhandle : e.payload <;> simp [logHop, payload, stream, hhandle]
    simp only [logRecord, Event.loggedTexts, hhop, if_true, mapThrough_cons, mapThrough_nil,
      hpayload, StreamIds.names_internName_eq ht.streams]
  | false =>
    simp [logRecord, Event.loggedTexts, hhop, eraseDups_of_nodup t.streams.nodup_names]

/-! ## Handles -/

section

variable {t : IdTables} (ht : 0 ∈ t.handles)

include ht

theorem handles_mapThrough {β γ : Type} {f : IdTables → β → γ × IdTables} {keys : β → List UInt64}
    (hf : ∀ (t : IdTables) (b : β), 0 ∈ t.handles →
      (f t b).2.handles = (t.handles ++ keys b).eraseDups) (bs : List β) :
    (mapThrough f t bs).2.handles = (t.handles ++ bs.flatMap keys).eraseDups := by
  refine list_mapThrough IdTables.handles (p := fun t : IdTables => 0 ∈ t.handles)
    (fun t b _ ht => ?_) ht t.nodup_handles
  refine ⟨?_, hf t b ht⟩
  rw [hf t b ht]
  exact List.mem_eraseDups.2 (List.mem_append_left _ ht)

theorem handles_logRecord (o : Origin) (e : NamedEvent) :
    (logRecord o t e).2.handles = (t.handles ++ e.loggedHandles).eraseDups := by
  cases hhop : e.describesHop with
  | true =>
    simp only [logRecord, Event.loggedHandles, hhop, if_true, mapThrough_cons, mapThrough_nil]
    exact handles_payload (t := (t.stream e.stream).2) ht e.payload
  | false => simp [logRecord, Event.loggedHandles, hhop, eraseDups_of_nodup t.nodup_handles]

theorem handles_hop (v : TaskView) (e : NamedEvent) :
    (v.hop t e).2.handles = (t.handles ++ e.takenHandles).eraseDups := by
  cases hfinish : e.isFinish with
  | true =>
    have hstream : (t.stream e.stream).2.handles = t.handles := rfl
    simp [TaskView.hop, Event.takenHandles, hfinish, hstream, eraseDups_of_nodup t.nodup_handles]
  | false =>
    simp only [TaskView.hop, Event.takenHandles, hfinish, Bool.false_eq_true, if_false]
    exact handles_payload (t := { t with
      streams := ((t.stream e.stream).2.streams.internName e.stream).2 }) ht e.payload

theorem handles_taskRecord (v : TaskView) (task : TaskId) :
    (v.taskRecord t task).2.handles =
      (t.handles ++ ((v.members task).filter Event.describesHop).flatMap
        Event.takenHandles).eraseDups := by
  rw [TaskView.taskRecord]
  split
  · rename_i hnone
    simp [hnone, eraseDups_of_nodup t.nodup_handles]
  · exact handles_mapThrough ht (fun t e ht => handles_hop ht v e) _

end

/-! ## Calls -/

namespace Session

variable {s : Session} (buffer : List NamedEvent) (w : Window)

theorem names_trace (hs : s.ids.Faithful) :
    (s.trace buffer w).2.streamNames =
      (s.streamNames ++ (SessionCall.trace buffer w).texts).eraseDups :=
  (sameNames_trace buffer w hs).names.trans
    (EventIndex.names_rebuild s.index (w.events buffer) hs.streams)

theorem names_log (hs : s.ids.Faithful) :
    (s.log buffer w).2.streamNames =
      (s.streamNames ++ (SessionCall.log buffer w).texts).eraseDups :=
  list_mapThrough (fun t : IdTables => t.streams.names)
    (fun _ e _ ht => ⟨(makes_logRecord _ [] ht e).faithful, names_logRecord _ ht e⟩) hs
    s.ids.streams.nodup_names

theorem handles_trace (hs : s.ids.Faithful) :
    (s.trace buffer w).2.ids.handles =
      (s.ids.handles ++ (SessionCall.trace buffer w).handles).eraseDups := by
  have hcovers := EventIndex.covers_rebuild s.index (w.events buffer) hs.streams
  refine handles_mapThrough (t := s.filedIds buffer w) hs.null_mem_handles
    (fun t subject ht => ?_) (Subject.ofEvents (w.events buffer))
  cases subject with
  | task task =>
    have hmembers := members_eq hcovers ((s.originAfter (w.events buffer)).getD .zero) task
    rw [Subject.handles, ← hmembers]
    exact handles_taskRecord ht _ task
  | event e => exact handles_logRecord ht ((s.originAfter (w.events buffer)).getD .zero) e

theorem handles_log (hs : s.ids.Faithful) :
    (s.log buffer w).2.ids.handles =
      (s.ids.handles ++ (SessionCall.log buffer w).handles).eraseDups :=
  handles_mapThrough hs.null_mem_handles (fun _ e ht => handles_logRecord ht _ e) (w.events buffer)

variable {c : SessionCall}

/-- The names after a call are those before it and the texts it asked for, each at its first
occurrence. -/
theorem names_call (hs : s.ids.Faithful) (hc : c ≠ .reset) :
    (s.call c).2.streamNames = (s.streamNames ++ c.texts).eraseDups := by
  cases c with
  | trace buffer w => exact names_trace buffer w hs
  | log buffer w => exact names_log buffer w hs
  | clear =>
    rw [SessionCall.texts, List.append_nil]
    exact (eraseDups_of_nodup (nodup_names s)).symm
  | reset => exact absurd rfl hc

/-- The handles after a call are those before it and the ones it asked for, each at its first
occurrence. -/
theorem handles_call (hs : s.ids.Faithful) (hc : c ≠ .reset) :
    (s.call c).2.ids.handles = (s.ids.handles ++ c.handles).eraseDups := by
  cases c with
  | trace buffer w => exact handles_trace buffer w hs
  | log buffer w => exact handles_log buffer w hs
  | clear =>
    rw [SessionCall.handles, List.append_nil]
    exact (eraseDups_of_nodup s.ids.nodup_handles).symm
  | reset => exact absurd rfl hc

end Session

end FlowTrace
