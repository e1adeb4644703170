import FlowTrace.Proofs.Trace.Folding
import FlowTrace.Proofs.Trace.Origin
set_option autoImplicit false

/-!
# Trace: what a call answers and what it leaves

Traces and logs are answered alike: the events of the window settle the origin, and the records are
those of the frame that the call leaves behind (`Session.Answers`).  No call but a reset takes back
an id or moves a fixed origin, and so no run without resets does (`Session.within_run`,
`Session.origin_run`).
-/

namespace FlowTrace

open Entries

/-- The events of the window that a call is about; none for a call that returns nothing. -/
def SessionCall.events? : SessionCall → Option (List NamedEvent)
  | .trace buffer w => some (w.events buffer)
  | .log buffer w => some (w.events buffer)
  | .clear => none
  | .reset => none

/-- The records that a call returns in a frame. -/
def SessionCall.records (c : SessionCall) (f : Frame) : List TaskRecord :=
  match c with
  | .trace buffer w => (leads (w.entries buffer)).map (f.openedRecord (w.entries buffer))
  | .log buffer w => (w.events buffer).map f.eventRecord
  | .clear => []
  | .reset => []

theorem SessionCall.records_of_nil {c : SessionCall} (h : c.events? = some []) (f : Frame) :
    c.records f = [] := by
  cases c with
  | trace buffer w =>
    have hentries : w.entries buffer = [] := by
      rw [← List.map_eq_nil_iff (f := Prod.fst), w.map_fst_entries]
      exact Option.some.inj h
    rw [records, hentries]
    rfl
  | log buffer w =>
    have hevents : w.events buffer = [] := Option.some.inj h
    rw [records, hevents]
    rfl
  | clear => rfl
  | reset => rfl

theorem SessionCall.ne_reset_of_events? {c : SessionCall} {events : List NamedEvent}
    (h : c.events? = some events) : c ≠ .reset := by
  rintro rfl
  cases h

namespace Session

/-- The call returns the trace `t`, made from some events. -/
structure Answers (s : Session) (c : SessionCall) (events : List NamedEvent) (t : Trace) :
    Prop where
  returned : (s.call c).1 = some t
  origin : (s.call c).2.origin = s.originAfter events
  shown : t.origin = (s.originAfter events).getD .zero
  names : t.streamNames = (s.call c).2.streamNames
  makes : s.ids.Makes (t.records, (s.call c).2.ids) fun u =>
    c.records ⟨u, (s.originAfter events).getD .zero, events⟩

variable {s : Session}

/-- A call that is about a window returns a trace of it. -/
theorem exists_answers (hs : s.ids.Faithful) {c : SessionCall} {events : List NamedEvent}
    (h : c.events? = some events) : ∃ t, s.Answers c events t := by
  cases c with
  | trace buffer w =>
    cases h
    exact ⟨_, rfl, rfl, rfl, rfl, makes_trace buffer w hs⟩
  | log buffer w =>
    cases h
    exact ⟨_, rfl, rfl, rfl, rfl, makes_log buffer w hs⟩
  | clear => cases h
  | reset => cases h

/-- The records returned show the ids that any later tables give. -/
theorem Answers.records_eq {c : SessionCall} {events : List NamedEvent} {t : Trace}
    (h : s.Answers c events t) {u : IdTables} (hu : (s.call c).2.ids.Within u) :
    t.records = c.records ⟨u, (s.originAfter events).getD .zero, events⟩ :=
  h.makes.value_eq u hu

/-! ## Ids and origins that stay -/

theorem within_call (hs : s.ids.Faithful) {c : SessionCall} (hc : c ≠ .reset) :
    s.ids.Within (s.call c).2.ids := by
  cases c with
  | trace buffer w => exact (makes_trace buffer w hs).within
  | log buffer w => exact (makes_log buffer w hs).within
  | clear => exact IdTables.Within.refl s.ids
  | reset => exact absurd rfl hc

theorem within_run (hs : s.ids.Faithful) {calls : List SessionCall}
    (hcalls : ∀ c ∈ calls, c ≠ .reset) : s.ids.Within (s.run calls).2.ids := by
  have hkept : (s.run calls).2.ids.Faithful ∧ s.ids.Within (s.run calls).2.ids := by
    refine mapThrough_induct (p := fun t : Session => t.ids.Faithful ∧ s.ids.Within t.ids)
      (fun t c hc ht => ?_) ⟨hs, IdTables.Within.refl s.ids⟩
    exact ⟨faithful_call ht.1 c, ht.2.trans (within_call ht.1 (hcalls c hc))⟩
  exact hkept.2

/-- A fixed origin stays as it is. -/
theorem origin_call {o : Origin} (ho : s.origin = some o) {c : SessionCall} (hc : c ≠ .reset) :
    (s.call c).2.origin = some o := by
  cases c with
  | trace buffer w => exact s.originAfter_of_some ho _
  | log buffer w => exact s.originAfter_of_some ho _
  | clear => exact ho
  | reset => exact absurd rfl hc

theorem origin_run {o : Origin} (ho : s.origin = some o) {calls : List SessionCall}
    (hcalls : ∀ c ∈ calls, c ≠ .reset) : (s.run calls).2.origin = some o :=
  mapThrough_induct (p := fun t : Session => t.origin = some o)
    (fun _ c hc ht => origin_call ht (hcalls c hc)) ho

end Session

end FlowTrace

/-!
## A call made again

Between two equal calls a session may answer any others, about any windows of any buffers.  Only the
names can have become more: ids that were given are still the same, and an origin that was fixed is
still where it was.
-/

namespace FlowTrace

namespace Session

/-- The answer `again` says what the answer `first` said, with more names at most.  The origin is the
same unless it was not fixed and the window had no event to fix it. -/
structure Repeats (s : Session) (events : List NamedEvent) (first again : Trace) : Prop where
  records : again.records = first.records
  names : first.streamNames <+: again.streamNames
  origin : ¬ (s.origin = none ∧ events = []) →
    again.baseTime = first.baseTime ∧ again.baseStamp = first.baseStamp

/-- A call that is made again, after any calls but resets, repeats its answer. -/
theorem call_again {s : Session} (h : s.Reachable) {c : SessionCall} {events : List NamedEvent}
    (hc : c.events? = some events) {between : List SessionCall}
    (hbetween : ∀ d ∈ between, d ≠ .reset) :
    ∃ first again : Trace, (s.call c).1 = some first ∧
      (((s.call c).2.run between).2.call c).1 = some again ∧ s.Repeats events first again := by
  have hids : (s.call c).2.ids.Faithful := faithful_call h.faithful c
  obtain ⟨first, hfirst⟩ := exists_answers h.faithful hc
  obtain ⟨again, hagain⟩ := exists_answers (faithful_run hids between) hc
  have hgrown : (s.call c).2.ids.Within (((s.call c).2.run between).2.call c).2.ids :=
    (within_run hids hbetween).trans hagain.makes.within
  have horigin : ∀ o, s.originAfter events = some o →
      ((s.call c).2.run between).2.originAfter events = some o := by
    intro o ho
    exact originAfter_of_some _ (origin_run (hfirst.origin.trans ho) hbetween) events
  refine ⟨first, again, hfirst.returned, hagain.returned, ?_, ?_, ?_⟩
  · -- without events there are no records; with some, both frames have the ids of the second call
    cases ho : s.originAfter events with
    | none =>
      obtain ⟨-, rfl⟩ := s.originAfter_eq_none_iff.1 ho
      rw [hfirst.records_eq hgrown, hagain.records_eq (IdTables.Within.refl _),
        c.records_of_nil hc, c.records_of_nil hc]
    | some o =>
      rw [hfirst.records_eq hgrown, hagain.records_eq (IdTables.Within.refl _), ho,
        horigin o ho]
  · rw [hfirst.names, hagain.names]
    exact hgrown.names
  · intro hfixed
    obtain ⟨o, ho⟩ := Option.ne_none_iff_exists'.1 (mt s.originAfter_eq_none_iff.1 hfixed)
    have hshown : again.origin = first.origin := by
      rw [hfirst.shown, hagain.shown, ho, horigin o ho]
    exact ⟨congrArg Origin.baseTime hshown, congrArg Origin.baseStamp hshown⟩

/-- The handover is traced twice; in between another window is logged, and tasks are forgotten. -/
theorem call_again_handover :
    empty.Reachable ∧
      (SessionCall.trace handover .firstMinute).events? = some handover ∧
      (∀ d ∈ [SessionCall.log handover ⟨.ofSecond 3, .ofSecond 9⟩, .clear], d ≠ .reset) ∧
      ∃ first again : Trace,
        (empty.call (.trace handover .firstMinute)).1 = some first ∧
        (((empty.call (.trace handover .firstMinute)).2.run
          [.log handover ⟨.ofSecond 3, .ofSecond 9⟩, .clear]).2.call
            (.trace handover .firstMinute)).1 = some again ∧
        empty.Repeats handover first again := by
  have hreachable : empty.Reachable := ⟨[], rfl⟩
  have hevents : (SessionCall.trace handover .firstMinute).events? = some handover := by
    exact congrArg some (by decide)
  have hbetween : ∀ d ∈ [SessionCall.log handover ⟨.ofSecond 3, .ofSecond 9⟩, .clear],
      d ≠ .reset := by simp
  exact ⟨hreachable, hevents, hbetween, call_again hreachable hevents hbetween⟩

end Session

end FlowTrace
