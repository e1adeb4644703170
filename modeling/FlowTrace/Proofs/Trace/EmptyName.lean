import FlowTrace.Proofs.Trace.IdSpace
import FlowTrace.Proofs.Trace.Reading
set_option autoImplicit false

/-!
# Trace: what id 0 stands for

The empty name has id 0, and so has a missing one.  Packets are shown for events that name a stream,
be the name empty or not: exactly those with an empty name have id 0, and exactly those may be traced
back to a finish that names no stream (`Session.run_showsStreams`).
-/

namespace FlowTrace

namespace IdTables

variable {t : IdTables}

/-- The empty name and a missing one are shown as 0. -/
theorem streamId_of_textOf_eq_empty (ht : t.Faithful) {name : Option StreamName}
    (hempty : StreamName.textOf name = "") : t.streamId name = 0 := by
  rw [streamId, hempty, ht.streams.unnamed]
  rfl

/-- While there are no more names than ids, no other name is shown as 0. -/
theorem one_le_streamId (ht : t.Faithful) (hfit : t.streams.names.length ≤ 2147483648)
    {name : Option StreamName} (hlisted : StreamName.textOf name ∈ t.streams.names)
    (hne : StreamName.textOf name ≠ "") : 1 ≤ (t.streamId name).toInt := by
  obtain ⟨place, hshown, hplace⟩ := IdTable.exists_place_of_mem hfit hlisted
  have hpos : place ≠ 0 := by
    rintro rfl
    have hfirst : t.streams.id? (StreamName.textOf name) = some 0 :=
      (t.streams.table.id?_eq_some_iff _ 0).2 hplace
    exact hne (IdTable.id?_injective hfirst ht.streams.unnamed)
  have hid : (t.streamId name).toInt = place := hshown
  omega

end IdTables

/-- How the packets of an answer show the streams of their events, and the streams of the finishes
that they are traced back to. -/
structure Trace.ShowsStreams (t : Trace) (c : SessionCall) (events : List NamedEvent) : Prop where
  /-- every packet of the answer has its event -/
  packets : (c.packets t).map Prod.snd = t.records.flatMap TaskRecord.boundary
  /-- the event names a stream, and only an empty name is shown as 0 -/
  streams : ∀ e p, (e, p) ∈ c.packets t → ∃ name, e.stream = some name ∧
    (name.text ≠ "" → t.NamesFit → 1 ≤ p.streamId.toInt) ∧ (name.text = "" → p.streamId = 0)
  /-- so does the finish whose time is shown, unless the name is the empty one -/
  producers : ∀ e p, (e, p) ∈ c.packets t → ∀ time, p.startTime = some time →
    ∃ d, (events.filter fun d => d.Produces e).getLast? = some d ∧
      t.origin.time d.time = time ∧ (d.stream.isSome = true ∨ StreamName.textOf e.stream = "")

/-- A producer that names no stream produces packets on the stream with the empty name only. -/
theorem Event.Produces.isSome_stream {d e : NamedEvent} (h : d.Produces e) :
    d.stream.isSome = true ∨ StreamName.textOf e.stream = "" := by
  cases hstream : d.stream with
  | some name => exact .inl rfl
  | none =>
    refine .inr ?_
    rw [← h.2.2.1, hstream]
    rfl

namespace Session

/-- The trace that a run starts with is an answer in it. -/
theorem mem_answers_trace (s : Session) (buffer : List NamedEvent) (w : Window)
    (calls : List SessionCall) :
    (.trace buffer w, (s.trace buffer w).1) ∈ s.answers (.trace buffer w :: calls) := by
  rw [answers_cons]
  exact List.mem_append_left _ (List.mem_singleton.2 rfl)

/-- In every answer of a run, the streams with an empty name have id 0 and no others have.  A packet
on one of the others is traced back to finishes that name its stream. -/
theorem run_showsStreams {calls : List SessionCall} {c : SessionCall} {t : Trace}
    (h : (c, t) ∈ empty.answers calls) :
    ∃ events, c.events? = some events ∧ t.ShowsStreams c events := by
  obtain ⟨before, _, events, _, hevents, hanswers⟩ :=
    exists_answers_of_mem IdTables.faithful_empty h
  have hs : (empty.run before).2.ids.Faithful := faithful_run IdTables.faithful_empty before
  have hmade := hanswers.madeFrom hevents (IdTables.Within.refl _)
  refine ⟨events, hevents, map_snd_packets hmade, ?_, ?_⟩
  · intro e p hp
    have hpacket := madeFrom_of_mem_packets hmade hp
    obtain ⟨name, hname⟩ : ∃ name, e.stream = some name :=
      Option.isSome_iff_exists.1 (Bool.and_eq_true_iff.1 hpacket.describes).2
    have htext : StreamName.textOf e.stream = name.text := by rw [hname, StreamName.textOf_some]
    have hfaithful := hanswers.makes.faithful
    refine ⟨name, hname, fun hne hfit => ?_, fun hempty => ?_⟩
    · have hlisted : StreamName.textOf e.stream ∈ t.streamNames :=
        (hanswers.listed hs hevents).1 hpacket.asked
      rw [Trace.NamesFit, hanswers.names] at hfit
      rw [hanswers.names] at hlisted
      rw [hpacket.streamId]
      exact IdTables.one_le_streamId hfaithful hfit hlisted (htext ▸ hne)
    · rw [hpacket.streamId]
      exact IdTables.streamId_of_textOf_eq_empty hfaithful (htext.trans hempty)
  · intro e p hp time htime
    obtain ⟨d, hd, hshown⟩ := (madeFrom_of_mem_packets hmade hp).startTime time htime
    have hproduces : d.Produces e :=
      of_decide_eq_true (List.mem_filter.1 (List.mem_of_getLast? hd)).2
    exact ⟨d, hd, hshown, hproduces.isSome_stream⟩

/-- The trace of the handover shows its streams. -/
theorem run_showsStreams_handover :
    (SessionCall.trace handover .firstMinute, (empty.trace handover .firstMinute).1) ∈
        empty.answers [.trace handover .firstMinute] ∧
      ∃ events, (SessionCall.trace handover .firstMinute).events? = some events ∧
        (empty.trace handover .firstMinute).1.ShowsStreams (.trace handover .firstMinute) events :=
  ⟨mem_answers_trace .., run_showsStreams (mem_answers_trace empty handover .firstMinute [])⟩

/-- A finish that names no stream, and a task that takes in a packet on the stream with the empty
name. -/
def unnamed : List NamedEvent :=
  [⟨.epoch, 1, ⟨10⟩, ⟨10⟩, .processed, none, none, 7, true⟩,
   ⟨.epoch, 2, ⟨10⟩, ⟨10⟩, .processed, some ⟨"", 0⟩, some 64, 8, false⟩]

/-- The packet has id 0, and is traced back to the finish. -/
theorem streamId_eq_zero_unnamed :
    (∀ d ∈ unnamed, d.isFinish = true → d.stream = none) ∧
      ∃ t, (SessionCall.trace unnamed .firstMinute, t) ∈
          empty.answers [.trace unnamed .firstMinute] ∧
        ∃ r ∈ t.records, ∃ p ∈ r.inputs, p.streamId = 0 ∧ p.startTime.isSome = true := by
  let e : NamedEvent :=
    ⟨.epoch, 2, ⟨10⟩, ⟨10⟩, .processed, some ⟨"", 0⟩, some 64, 8, false⟩
  let f : Frame := empty.traceFrame unnamed .firstMinute
  have hempty : empty.ids.Faithful := IdTables.faithful_empty
  have hrecord : f.taskRecord [e] ∈ (empty.trace unnamed .firstMinute).1.records := by
    rw [trace_records unnamed .firstMinute hempty]
    exact List.mem_map.2 ⟨(e, 1), by decide, rfl⟩
  refine ⟨by decide, _, mem_answers_trace .., _, hrecord, f.inputPacket e, ?_, ?_, ?_⟩
  · rw [Frame.taskRecord_inputs]
    exact List.mem_singleton.2 rfl
  · exact IdTables.streamId_of_textOf_eq_empty
      (makes_trace unnamed .firstMinute hempty).faithful rfl
  · rw [Frame.inputPacket, Option.isSome_map]
    decide

end Session

end FlowTrace
