import FlowTrace.Proofs.Trace.Growth
set_option autoImplicit false

/-!
# Trace: what records are made from

Each record of an answer is opened by an event, and each of its packets is that of an event.  Both
can be told from the call alone (`SessionCall.sources`), so that a packet can be held against the
event it was built from.  The main statement is that the records of an answer show the ids, the
stamps and the times of their sources and nothing else (`Session.Answers.madeFrom`).
-/

namespace FlowTrace

open Entries

/-! ## Packets and times of a trace -/

/-- The packets at both sides of the task. -/
def TaskRecord.boundary (r : TaskRecord) : List StreamRecord := r.inputs ++ r.outputs

/-- The times that a packet has. -/
def StreamRecord.times (p : StreamRecord) : List Int64 :=
  p.startTime.toList ++ p.finishTime.toList

/-- The times that a record has, those of its packets among them. -/
def TaskRecord.times (r : TaskRecord) : List Int64 :=
  r.startTime.toList ++ r.finishTime.toList ++ r.boundary.flatMap StreamRecord.times

/-- All start and finish times of a trace. -/
def Trace.times (t : Trace) : List Int64 := t.records.flatMap TaskRecord.times

/-! ## Sources -/

/-- The events that a record is made from. -/
structure RecordSource where
  /-- the event that opens the record -/
  first : NamedEvent
  /-- the events of the packets taken in -/
  inputs : List NamedEvent
  /-- the events of the packets put out -/
  outputs : List NamedEvent

namespace RecordSource

/-- The source of a record about some events. -/
def about (first : NamedEvent) (members : List NamedEvent) : RecordSource :=
  ⟨first, members.filter Event.takesIn, members.filter Event.putsOut⟩

/-- The events of the packets at both sides of the task. -/
def boundary (source : RecordSource) : List NamedEvent := source.inputs ++ source.outputs

end RecordSource

/-- The sources of the records that a call returns, in their order. -/
def SessionCall.sources : SessionCall → List RecordSource
  | .trace buffer w => (leads (w.entries buffer)).map fun x =>
      .about x.1 ((share (w.entries buffer) x).map Prod.fst)
  | .log buffer w => (w.events buffer).map fun e => .about e [e]
  | .clear => []
  | .reset => []

/-- The packet is that of the event. -/
structure StreamRecord.MadeFrom (c : SessionCall) (f : Frame) (e : NamedEvent)
    (p : StreamRecord) : Prop where
  seen : e ∈ f.events
  describes : e.describesHop = true
  streamId : p.streamId = f.ids.streamId e.stream
  /-- the call asked for the stream and for the payload that the packet shows ids of -/
  asked : StreamName.textOf e.stream ∈ c.texts
  payloadId : ∀ id, p.payloadId = some id → id = f.ids.payloadId e.payload ∧ e.handle ∈ c.handles
  packetStamp : p.packetStamp = f.origin.stamp e.packetStamp
  /-- the time at which the producer was done is that of the last event that produced the packet -/
  startTime : ∀ time, p.startTime = some time →
    ∃ d, f.producer? e = some d ∧ f.origin.time d.time = time
  times : ∀ time ∈ p.times, ∃ d ∈ f.events, f.origin.time d.time = time

/-- The record and its packets are those of the source. -/
structure TaskRecord.MadeFrom (c : SessionCall) (f : Frame) (source : RecordSource)
    (r : TaskRecord) : Prop where
  seen : source.first ∈ f.events
  node : r.node = source.first.node
  kind : r.kind = source.first.kind
  inputStamp : r.inputStamp = f.origin.inputStamp source.first.inputStamp
  startTime : ∀ time, r.startTime = some time → ∃ d ∈ f.events, f.origin.time d.time = time
  finishTime : ∀ time, r.finishTime = some time → ∃ d ∈ f.events, f.origin.time d.time = time
  inputs : List.Forall₂ (StreamRecord.MadeFrom c f) source.inputs r.inputs
  outputs : List.Forall₂ (StreamRecord.MadeFrom c f) source.outputs r.outputs

/-- What holds of every partner holds of the whole second list. -/
theorem forall_mem_of_forall₂ {α β : Type} {R : α → β → Prop} {q : β → Prop} {as : List α}
    {bs : List β} (h : List.Forall₂ R as bs) (hq : ∀ a b, R a b → q b) : ∀ b ∈ bs, q b := by
  intro b hb
  induction h with
  | nil => cases hb
  | cons hab _ ih =>
    rcases List.mem_cons.1 hb with rfl | hb
    · exact hq _ _ hab
    · exact ih hb

namespace TaskRecord.MadeFrom

variable {c : SessionCall} {f : Frame} {source : RecordSource} {r : TaskRecord}

theorem boundary (h : r.MadeFrom c f source) :
    List.Forall₂ (StreamRecord.MadeFrom c f) source.boundary r.boundary :=
  List.rel_append h.inputs h.outputs

/-- Every time of a record is that of an event of the window. -/
theorem times (h : r.MadeFrom c f source) :
    ∀ time ∈ r.times, ∃ d ∈ f.events, f.origin.time d.time = time := by
  intro time htime
  simp only [TaskRecord.times, List.mem_append, Option.mem_toList, List.mem_flatMap] at htime
  rcases htime with (hstart | hfinish) | ⟨p, hp, htime⟩
  · exact h.startTime time hstart
  · exact h.finishTime time hfinish
  · exact forall_mem_of_forall₂ h.boundary (fun _ _ hmade => hmade.times) p hp time htime

end TaskRecord.MadeFrom

/-! ## Records of a frame -/

theorem Origin.exists_of_earliest? {o : Origin} {events : List NamedEvent} {time : Int64}
    (h : o.earliest? events = some time) : ∃ e ∈ events, o.time e.time = time := by
  unfold earliest? at h
  obtain ⟨t, ht, rfl⟩ := Option.map_eq_some_iff.1 h
  obtain ⟨e, he, rfl⟩ := List.mem_map.1 (List.min?_mem ht)
  exact ⟨e, he, rfl⟩

section

variable (f : Frame) {c : SessionCall}

theorem madeFrom_inputPacket {e : NamedEvent} (he : e ∈ f.events) (htaken : e.takesIn = true)
    (htext : StreamName.textOf e.stream ∈ c.texts) (hhandle : e.handle ∈ c.handles) :
    (f.inputPacket e).MadeFrom c f e := by
  refine ⟨he, (Bool.and_eq_true_iff.1 htaken).1, rfl, htext, ?_, rfl, ?_, ?_⟩
  · intro id hid
    exact ⟨(Option.some.inj hid).symm, hhandle⟩
  · intro time htime
    exact Option.map_eq_some_iff.1 htime
  · intro time htime
    simp only [StreamRecord.times, Frame.inputPacket, List.mem_append, Option.mem_toList,
      Option.map_eq_some_iff, Option.some.injEq] at htime
    rcases htime with ⟨p, hp, rfl⟩ | rfl
    · exact ⟨p, (List.mem_filter.1 (List.mem_of_getLast? hp)).1, rfl⟩
    · exact ⟨e, he, rfl⟩

theorem madeFrom_outputPacket {e : NamedEvent} (he : e ∈ f.events) (hput : e.putsOut = true)
    (htext : StreamName.textOf e.stream ∈ c.texts) : (f.outputPacket e).MadeFrom c f e := by
  refine ⟨he, (Bool.and_eq_true_iff.1 hput).1, rfl, htext, ?_, rfl, ?_, ?_⟩
  · intro id hid
    cases hid
  · intro time htime
    cases htime
  · intro time htime
    cases htime

theorem madeFrom_loggedPacket {e : NamedEvent} (he : e ∈ f.events) (hhop : e.describesHop = true)
    (htext : StreamName.textOf e.stream ∈ c.texts) (hhandle : e.handle ∈ c.handles) :
    (f.loggedPacket e).MadeFrom c f e := by
  refine ⟨he, hhop, rfl, htext, ?_, rfl, ?_, ?_⟩
  · intro id hid
    exact ⟨(Option.some.inj hid).symm, hhandle⟩
  · intro time htime
    cases htime
  · intro time htime
    cases htime

/-- The record of the events of one task. -/
theorem madeFrom_taskRecord {x : NamedEvent} {members : List NamedEvent}
    (hfirst : members.head? = some x) (hin : ∀ e ∈ members, e ∈ f.events)
    (htexts : ∀ e ∈ members, StreamName.textOf e.stream ∈ c.texts)
    (hhandles : ∀ e ∈ members, e.takesIn = true → e.handle ∈ c.handles) :
    (f.taskRecord members).MadeFrom c f (.about x members) := by
  have hside : ∀ (side : NamedEvent → Bool) (time : Int64),
      f.origin.earliest? (members.filter side) = some time →
        ∃ d ∈ f.events, f.origin.time d.time = time := by
    intro side time htime
    obtain ⟨e, he, htime⟩ := Origin.exists_of_earliest? htime
    exact ⟨e, hin e (List.mem_filter.1 he).1, htime⟩
  obtain ⟨rest, rfl⟩ : ∃ rest, members = x :: rest := List.head?_eq_some_iff.1 hfirst
  refine ⟨hin x List.mem_cons_self, rfl, rfl, rfl, ?_, ?_, ?_, ?_⟩
  · rw [Frame.taskRecord_startTime]
    exact hside _
  · rw [Frame.taskRecord_finishTime]
    exact hside _
  · rw [Frame.taskRecord_inputs, List.forall₂_map_right_iff, RecordSource.about, List.forall₂_same]
    intro e he
    obtain ⟨he, htaken⟩ := List.mem_filter.1 he
    exact madeFrom_inputPacket f (hin e he) htaken (htexts e he) (hhandles e he htaken)
  · rw [Frame.taskRecord_outputs, List.forall₂_map_right_iff, RecordSource.about, List.forall₂_same]
    intro e he
    obtain ⟨he, hput⟩ := List.mem_filter.1 he
    exact madeFrom_outputPacket f (hin e he) hput (htexts e he)

/-- The record of an event for itself. -/
theorem madeFrom_eventRecord {e : NamedEvent} (he : e ∈ f.events)
    (htext : e.describesHop = true → StreamName.textOf e.stream ∈ c.texts)
    (hhandle : e.describesHop = true → e.handle ∈ c.handles) :
    (f.eventRecord e).MadeFrom c f (.about e [e]) := by
  have hpacket : e.describesHop = true → (f.loggedPacket e).MadeFrom c f e := by
    intro hhop
    exact madeFrom_loggedPacket f he hhop (htext hhop) (hhandle hhop)
  refine ⟨he, rfl, rfl, rfl, ?_, ?_, ?_, ?_⟩
  · intro time htime
    unfold Frame.eventRecord at htime
    split at htime
    · cases htime
    · exact ⟨e, he, Option.some.inj htime⟩
  · intro time htime
    unfold Frame.eventRecord at htime
    split at htime
    · exact ⟨e, he, Option.some.inj htime⟩
    · cases htime
  · cases hhop : e.describesHop <;> cases hfinish : e.isFinish <;>
      simp [RecordSource.about, Frame.eventRecord, Event.takesIn, hhop, hfinish, hpacket]
  · cases hhop : e.describesHop <;> cases hfinish : e.isFinish <;>
      simp [RecordSource.about, Frame.eventRecord, Event.putsOut, hhop, hfinish, hpacket]

/-- The records of a call in a frame of its window are made from the sources of the call. -/
theorem madeFrom_records {events : List NamedEvent} (hc : c.events? = some events)
    (hevents : f.events = events) :
    List.Forall₂ (TaskRecord.MadeFrom c f) c.sources (c.records f) := by
  subst hevents
  cases c with
  | trace buffer w =>
    have hin : ∀ e ∈ w.events buffer, e ∈ f.events := by
      intro e he
      exact Option.some.inj hc ▸ he
    have hmember : ∀ x ∈ w.entries buffer, x.1 ∈ w.events buffer := by
      intro x hx
      exact w.map_fst_entries buffer ▸ List.mem_map_of_mem hx
    rw [SessionCall.sources, SessionCall.records, List.forall₂_map_left_iff,
      List.forall₂_map_right_iff, List.forall₂_same]
    intro x hx
    cases htask : x.1.task? with
    | none =>
      have hplain : ¬ x.1.describesHop = true := by
        simp [Event.describesHop, Event.isHop_of_task?_eq_none htask]
      simp only [share, Frame.openedRecord, htask]
      exact madeFrom_eventRecord f (hin x.1 (hmember x (mem_leads.1 hx).1))
        (fun hhop => absurd hhop hplain) (fun hhop => absurd hhop hplain)
    | some task =>
      have htasks : ∀ e ∈ (ofTask (w.entries buffer) task).map Prod.fst,
          e ∈ w.events buffer ∧ e.kind.isTask = true := by
        intro e he
        obtain ⟨y, hy, rfl⟩ := List.mem_map.1 he
        obtain ⟨hy, hkind⟩ := mem_ofTask.1 hy
        exact ⟨hmember y hy, Event.isTask_of_task? hkind⟩
      have hfirst : ((ofTask (w.entries buffer) task).map Prod.fst).head? = some x.1 := by
        rw [List.head?_map, head?_ofTask_of_mem_leads (w.ascending_entries buffer) hx htask]
        rfl
      simp only [share, Frame.openedRecord, htask]
      refine madeFrom_taskRecord f hfirst ?_ ?_ ?_
      · intro e he
        exact hin e (htasks e he).1
      · intro e he
        exact SessionCall.mem_texts_trace (htasks e he).1 (htasks e he).2
      · intro e he htaken
        exact SessionCall.mem_handles_trace (htasks e he).1 htaken
  | log buffer w =>
    rw [SessionCall.sources, SessionCall.records, List.forall₂_map_left_iff,
      List.forall₂_map_right_iff, List.forall₂_same]
    intro e he
    refine madeFrom_eventRecord f (Option.some.inj hc ▸ he) ?_ ?_
    · intro hhop
      exact List.mem_flatMap.2 ⟨e, he, by simp [Event.loggedTexts, hhop]⟩
    · intro hhop
      exact List.mem_flatMap.2 ⟨e, he, by simp [Event.loggedHandles, hhop]⟩
  | clear => cases hc
  | reset => cases hc

end

/-! ## Answers -/

namespace Session

variable {s : Session} {c : SessionCall} {events : List NamedEvent} {t : Trace}

/-- What a call returns answers it. -/
theorem exists_answers_of_returned (hs : s.ids.Faithful) (h : (s.call c).1 = some t) :
    ∃ events, c.events? = some events ∧ s.Answers c events t := by
  have hanswered : ∀ {events : List NamedEvent}, c.events? = some events →
      ∃ events, c.events? = some events ∧ s.Answers c events t := by
    intro events hc
    obtain ⟨t', ht'⟩ := exists_answers hs hc
    have hsame : t' = t := Option.some.inj (ht'.returned.symm.trans h)
    exact ⟨events, hc, hsame ▸ ht'⟩
  cases c with
  | trace buffer w => exact hanswered rfl
  | log buffer w => exact hanswered rfl
  | clear => cases h
  | reset => cases h

/-- The records of an answer are made from the sources of the call, under the ids of any later
tables. -/
theorem Answers.madeFrom (h : s.Answers c events t) (hc : c.events? = some events)
    {u : IdTables} (hu : (s.call c).2.ids.Within u) :
    List.Forall₂ (TaskRecord.MadeFrom c ⟨u, t.origin, events⟩) c.sources t.records := by
  rw [h.records_eq hu, h.shown]
  exact madeFrom_records _ hc rfl

/-- Every time of an answer is that of an event of its window. -/
theorem Answers.times (h : s.Answers c events t) (hc : c.events? = some events) :
    ∀ time ∈ t.times, ∃ e ∈ events, t.origin.time e.time = time := by
  intro time htime
  obtain ⟨r, hr, htime⟩ := List.mem_flatMap.1 htime
  have hmade := h.madeFrom hc (IdTables.Within.refl _)
  exact forall_mem_of_forall₂ hmade (fun _ _ hrecord => hrecord.times) r hr time htime

end Session

end FlowTrace
