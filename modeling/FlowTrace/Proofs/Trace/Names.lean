import FlowTrace.Proofs.Trace.Frame
set_option autoImplicit false

/-!
# Trace: the names that a trace adds

Filing the events of a window names the streams of its tasks, and making the records names no
further ones.  So the names after a trace are those before it and those of the tasks of its window,
in whatever order they were met (`Session.mem_names_trace`).
-/

namespace FlowTrace

open Entries IdTables

/-- The tables `t` have the names of `base`, each under an id that depends on its text alone. -/
structure IdTables.SameNames (base t : IdTables) : Prop where
  faithful : t.Faithful
  names : t.streams.names = base.streams.names

namespace IdTables.SameNames

variable {base t : IdTables} (h : base.SameNames t)

include h

/-- The number of a known name is looked up, and nothing is added. -/
theorem internName {name : Option StreamName}
    (hname : StreamName.textOf name ∈ base.streams.names) :
    base.SameNames { t with streams := (t.streams.internName name).2 } where
  faithful := (makes_internName h.faithful name).faithful
  names := by
    rw [← h.names] at hname ⊢
    exact (StreamIds.names_internName h.faithful.streams name).trans (if_pos hname)

theorem payload (handle : Option UInt64) : base.SameNames (t.payload handle).2 where
  faithful := (makes_payload h.faithful handle).faithful
  names := by cases handle <;> exact h.names

theorem logHop (o : Origin) {e : NamedEvent}
    (hname : StreamName.textOf e.stream ∈ base.streams.names) :
    base.SameNames (logHop o t e).2 :=
  (h.internName hname).payload e.payload

theorem logRecord (o : Origin) {e : NamedEvent}
    (hname : e.describesHop = true → StreamName.textOf e.stream ∈ base.streams.names) :
    base.SameNames (logRecord o t e).2 := by
  cases hhop : e.describesHop with
  | false => simpa [FlowTrace.logRecord, hhop] using h
  | true => simpa [FlowTrace.logRecord, hhop, mapThrough_cons] using h.logHop o (hname hhop)

theorem hop (v : TaskView) {e : NamedEvent}
    (hname : StreamName.textOf e.stream ∈ base.streams.names) :
    base.SameNames (v.hop t e).2 := by
  have hstream : base.SameNames (t.stream e.stream).2 := h.internName hname
  cases hfinish : e.isFinish with
  | true => simpa [TaskView.hop, hfinish] using hstream
  | false =>
    simpa [TaskView.hop, HopId.ofEvent, hfinish] using
      (hstream.internName hname).payload e.payload

theorem taskRecord (v : TaskView) {task : TaskId}
    (hnames : ∀ e ∈ v.members task, StreamName.textOf e.stream ∈ base.streams.names) :
    base.SameNames (v.taskRecord t task).2 := by
  rw [TaskView.taskRecord]
  split
  · exact h
  · refine mapThrough_induct (p := base.SameNames) (fun t e he ht => ?_) h
    exact ht.hop v (hnames e (List.mem_filter.1 he).1)

end IdTables.SameNames

namespace Session

variable {s : Session} (buffer : List NamedEvent) (w : Window)

/-- Making the records of a trace names no streams. -/
theorem sameNames_trace (hs : s.ids.Faithful) :
    (s.filedIds buffer w).SameNames (s.trace buffer w).2.ids := by
  have hcovers := EventIndex.covers_rebuild s.index (w.events buffer) hs.streams
  have hnamed : ∀ e ∈ w.events buffer, e.kind.isTask = true →
      StreamName.textOf e.stream ∈ (s.filedIds buffer w).streams.names :=
    fun e he hkind => StreamIds.mem_names_iff.2 (exists_id_of_filed buffer w hs he hkind)
  have hfiled : (s.filedIds buffer w).SameNames (s.filedIds buffer w) :=
    ⟨⟨hcovers.faithful, hs.null⟩, rfl⟩
  refine mapThrough_induct (p := (s.filedIds buffer w).SameNames)
    (fun t subject hin ht => ?_) hfiled
  rw [← w.map_fst_entries, Subject.ofEvents_eq (w.ascending_entries buffer)] at hin
  obtain ⟨x, hx, rfl⟩ := List.mem_map.1 hin
  cases htask : x.1.task? with
  | none =>
    rw [Subject.of, htask]
    refine ht.logRecord _ fun hhop => ?_
    rw [Event.describesHop, Event.isHop_of_task?_eq_none htask] at hhop
    cases hhop
  | some task =>
    rw [Subject.of, htask]
    refine ht.taskRecord _ fun e he => ?_
    rw [members_eq hcovers] at he
    obtain ⟨he, hmember⟩ := List.mem_filter.1 he
    exact hnamed e he (Event.isTask_of_task? (of_decide_eq_true hmember))

/-- The names after a trace are those before it and those of the tasks of its window. -/
theorem mem_names_trace (hs : s.ids.Faithful) {text : String} :
    text ∈ (s.trace buffer w).1.streamNames ↔ text ∈ s.streamNames ∨
      ∃ e ∈ w.events buffer, e.kind.isTask = true ∧ StreamName.textOf e.stream = text := by
  have hcovers := EventIndex.covers_rebuild s.index (w.events buffer) hs.streams
  have hnames : (s.trace buffer w).1.streamNames = (s.filedIds buffer w).streams.names :=
    (sameNames_trace buffer w hs).names
  rw [hnames]
  constructor
  · intro htext
    refine (hcovers.texts text htext).imp_right ?_
    rintro ⟨x, hx, hkind, hstream⟩
    exact ⟨x.1, List.mem_of_getElem? (List.mem_zipIdx_iff_getElem?.1 hx), hkind, hstream⟩
  · rintro (hold | ⟨e, he, hkind, rfl⟩)
    · exact hcovers.grown.mem hold
    · exact StreamIds.mem_names_iff.2 (exists_id_of_filed buffer w hs he hkind)

theorem nodup_names (s : Session) : s.streamNames.Nodup := s.ids.streams.table.nodup_toList

end Session

end FlowTrace
