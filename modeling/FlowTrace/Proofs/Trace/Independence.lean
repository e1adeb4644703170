import FlowTrace.Proofs.Trace.Spelling
set_option autoImplicit false

/-!
# Trace: what a call depends on

Of all that a session carries from one call to the next, an answer depends on the origin and on the
numbering alone, and once its ids are spelled out on the origin alone.  Two runs are followed side by
side: as long as origin and numbering agree (`Session.Alike`), every call returns the same trace and
leaves them in agreement, whatever tasks and hops were filed before and whichever allocations the
names came with.
-/

namespace FlowTrace

/-- Both answers count from the same origin, and with their ids spelled out they have the same
records.  The null handle has id 0 in both. -/
structure Answer.AgreesWith (a b : Answer) : Prop where
  baseTime : a.trace.baseTime = b.trace.baseTime
  baseStamp : a.trace.baseStamp = b.trace.baseStamp
  null : a.handleOf? 0 = some 0 ∧ b.handleOf? 0 = some 0
  records : a.Fits → b.Fits → ∃ records, a.spelled? = some records ∧ b.spelled? = some records

/-- The call only forgets tasks and hops. -/
def SessionCall.isClear : SessionCall → Bool
  | .clear => true
  | _ => false

/-- The two calls are about windows that hold these events, and say the same: they fix the same
origin, have the same records whatever the ids are, and ask for the same names and handles. -/
structure SessionCall.SaysAs (c c' : SessionCall) (events events' : List NamedEvent) : Prop where
  windows : c.events? = some events ∧ c'.events? = some events'
  origin : Origin.ofEvents? events = Origin.ofEvents? events'
  records : ∀ (ids : IdTables) (o : Origin),
    c.records ⟨ids, o, events⟩ = c'.records ⟨ids, o, events'⟩
  texts : c.texts = c'.texts
  handles : c.handles = c'.handles

theorem SessionCall.saysAs_self {c : SessionCall} {events : List NamedEvent}
    (h : c.events? = some events) : c.SaysAs c events events :=
  ⟨⟨h, h⟩, rfl, fun _ _ => rfl, rfl, rfl⟩

theorem Trace.eq_of_parts {t t' : Trace} (horigin : t.origin = t'.origin)
    (hrecords : t.records = t'.records) (hnames : t.streamNames = t'.streamNames) : t = t' := by
  cases t
  cases t'
  simp_all [Trace.origin]

namespace Session

variable {s s' : Session}

/-- Both sessions have the same ids for the same names and handles.  The tasks and hops they have
filed may differ, and so may the allocations they have seen. -/
structure NumbersAs (s s' : Session) : Prop where
  names : s.streamNames = s'.streamNames
  handles : s.ids.handles = s'.ids.handles

/-- What can be seen of a run: the traces returned, and the origin and the names after it.  A look at
the origin or the names in between is one after a shorter run. -/
def shown (s : Session) (calls : List SessionCall) : List Trace × Option Origin × List String :=
  ((s.run calls).1.filterMap id, (s.run calls).2.origin, (s.run calls).2.streamNames)

/-- What calls return does not tell the two sessions apart, except by the ids that they give to names
and handles. -/
structure TellsAs (s s' : Session) : Prop where
  /-- answers agree, whatever ids the sessions give -/
  answers : ∀ {c : SessionCall} {events : List NamedEvent}, c.events? = some events →
    ∃ a b : Answer, s.answer? c = some a ∧ s'.answer? c = some b ∧ a.AgreesWith b
  /-- sessions that give the same ids return the same -/
  returns : s.NumbersAs s' → ∀ c : SessionCall, (s.call c).1 = (s'.call c).1
  /-- and so do runs of them, in which tasks and hops may be forgotten at any time -/
  runs : s.NumbersAs s' → ∀ calls calls' : List SessionCall,
    (calls.filter fun c => !c.isClear) = (calls'.filter fun c => !c.isClear) →
      s.shown calls = s'.shown calls'

/-! ## Two runs side by side -/

/-- Origin and numbering agree. -/
structure Alike (s s' : Session) : Prop where
  faithful : s.ids.Faithful ∧ s'.ids.Faithful
  origin : s.origin = s'.origin
  numbers : s.NumbersAs s'

theorem Alike.refl (hs : s.ids.Faithful) : s.Alike s := ⟨⟨hs, hs⟩, rfl, ⟨rfl, rfl⟩⟩

theorem originAfter_congr (h : s.origin = s'.origin) {events events' : List NamedEvent}
    (hevents : Origin.ofEvents? events = Origin.ofEvents? events') :
    s.originAfter events = s'.originAfter events' := by
  unfold originAfter
  rw [h, hevents]

theorem NumbersAs.within (h : s.NumbersAs s') : s.ids.Within s'.ids where
  names := ⟨[], (List.append_nil _).trans h.names⟩
  payloads := ⟨[], (List.append_nil _).trans h.handles⟩

/-- Calls that say the same are answered alike, and leave the sessions alike. -/
theorem Alike.answer (h : s.Alike s') {c c' : SessionCall} {events events' : List NamedEvent}
    (hagree : c.SaysAs c' events events') :
    (s.call c).1 = (s'.call c').1 ∧ (s.call c).2.Alike (s'.call c').2 := by
  obtain ⟨t, ht⟩ := exists_answers h.faithful.1 hagree.windows.1
  obtain ⟨t', ht'⟩ := exists_answers h.faithful.2 hagree.windows.2
  have horigin := originAfter_congr h.origin hagree.origin
  have hc := SessionCall.ne_reset_of_events? hagree.windows.1
  have hc' := SessionCall.ne_reset_of_events? hagree.windows.2
  have hnumbers : (s.call c).2.NumbersAs (s'.call c').2 :=
    ⟨by rw [names_call h.faithful.1 hc, names_call h.faithful.2 hc', h.numbers.names, hagree.texts],
      by rw [handles_call h.faithful.1 hc, handles_call h.faithful.2 hc', h.numbers.handles,
        hagree.handles]⟩
  have hrecords : t.records = t'.records := by
    rw [ht.records_eq hnumbers.within, ht'.records_eq (IdTables.Within.refl _), horigin,
      hagree.records]
  have hsame : t = t' := by
    refine Trace.eq_of_parts ?_ hrecords ?_
    · rw [ht.shown, ht'.shown, horigin]
    · rw [ht.names, ht'.names, hnumbers.names]
  refine ⟨?_, ⟨faithful_call h.faithful.1 c, faithful_call h.faithful.2 c'⟩, ?_, hnumbers⟩
  · rw [ht.returned, ht'.returned, hsame]
  · rw [ht.origin, ht'.origin, horigin]

/-- Forgetting leaves both sessions alike. -/
theorem Alike.clear (h : s.Alike s') : s.clear.Alike s'.clear :=
  ⟨h.faithful, h.origin, h.numbers.names, h.numbers.handles⟩

theorem Alike.reset (h : s.Alike s') : s.reset.Alike s'.reset :=
  ⟨⟨faithful_call h.faithful.1 .reset, faithful_call h.faithful.2 .reset⟩, rfl, rfl, rfl⟩

/-- The two calls return the same in any sessions that are alike, and leave them alike. -/
def Agree (c c' : SessionCall) : Prop := ∀ ⦃s s' : Session⦄, s.Alike s' →
  (s.call c).1 = (s'.call c').1 ∧ (s.call c).2.Alike (s'.call c').2

theorem agree_self (c : SessionCall) : Agree c c := by
  intro s s' h
  cases c with
  | trace buffer w => exact h.answer (SessionCall.saysAs_self rfl)
  | log buffer w => exact h.answer (SessionCall.saysAs_self rfl)
  | clear => exact ⟨rfl, h.clear⟩
  | reset => exact ⟨rfl, h.reset⟩

/-- Runs of agreeing calls return the same in sessions that are alike, and leave them alike. -/
theorem Alike.run (h : s.Alike s') {calls calls' : List SessionCall}
    (hagree : List.Forall₂ Agree calls calls') :
    (s.run calls).1 = (s'.run calls').1 ∧ (s.run calls).2.Alike (s'.run calls').2 := by
  induction hagree generalizing s s' with
  | nil => exact ⟨rfl, h⟩
  | cons hcall _ ih =>
    obtain ⟨hreturned, hnext⟩ := hcall h
    obtain ⟨hlater, hlast⟩ := ih hnext
    rw [Session.run, Session.run, mapThrough_cons, mapThrough_cons]
    exact ⟨congrArg₂ List.cons hreturned hlater, hlast⟩

theorem shown_cons (s : Session) (c : SessionCall) (calls : List SessionCall) :
    s.shown (c :: calls) = ((s.call c).1.toList ++ ((s.call c).2.shown calls).1,
      ((s.call c).2.shown calls).2) := by
  unfold shown run
  rw [mapThrough_cons]
  cases (s.call c).1 <;> rfl

/-- A run shows the same as the run without its clears. -/
theorem Alike.shown_eq (h : s.Alike s') (calls : List SessionCall) :
    s.shown calls = s'.shown (calls.filter fun c => !c.isClear) := by
  induction calls generalizing s s' with
  | nil => simp [shown, Session.run, h.origin, h.numbers.names]
  | cons c calls ih =>
    cases hclear : c.isClear with
    | true =>
      have hforgets : (s.call c).1 = none ∧ (s.call c).2.Alike s' := by
        cases c with
        | clear => exact ⟨rfl, h.faithful, h.origin, h.numbers.names, h.numbers.handles⟩
        | trace | log | reset => cases hclear
      rw [List.filter_cons_of_neg (by simp [hclear]), shown_cons, hforgets.1, ih hforgets.2]
      rfl
    | false =>
      obtain ⟨hreturned, halike⟩ := agree_self c h
      rw [List.filter_cons_of_pos (by simp [hclear]), shown_cons, shown_cons, hreturned, ih halike]

/-- Nothing but the origin and the ids is carried from one call to the next. -/
theorem tellsAs_of_origin_eq (h : s.Reachable) (h' : s'.Reachable) (ho : s.origin = s'.origin) :
    s.TellsAs s' where
  answers := by
    intro c events hc
    obtain ⟨t, ht⟩ := exists_answers h.faithful hc
    obtain ⟨t', ht'⟩ := exists_answers h'.faithful hc
    have horigin := originAfter_congr ho (rfl : Origin.ofEvents? events = _)
    have hshown : t.origin = t'.origin := by rw [ht.shown, ht'.shown, horigin]
    refine ⟨_, _, ht.answer?_eq, ht'.answer?_eq, congrArg Origin.baseTime hshown,
      congrArg Origin.baseStamp hshown, ⟨?_, ?_⟩, fun hfits hfits' => ?_⟩
    · exact (faithful_call h.faithful c).getElem?_handles_zero
    · exact (faithful_call h'.faithful c).getElem?_handles_zero
    · refine ⟨_, ht.spelled?_eq h.faithful hc hfits IdTables.empty, ?_⟩
      rw [horigin]
      exact ht'.spelled?_eq h'.faithful hc hfits' IdTables.empty
  returns hnumbers c := (agree_self c ⟨⟨h.faithful, h'.faithful⟩, ho, hnumbers⟩).1
  runs hnumbers calls calls' hcalls := by
    have halike : s.Alike s' := ⟨⟨h.faithful, h'.faithful⟩, ho, hnumbers⟩
    calc s.shown calls
        = s'.shown (calls.filter fun c => !c.isClear) := halike.shown_eq calls
      _ = s'.shown (calls'.filter fun c => !c.isClear) := by rw [hcalls]
      _ = s'.shown calls' := ((Alike.refl h'.faithful).shown_eq calls').symm

/-- The session after a log of the handover. -/
def logged : Session := (run empty [.log handover .firstMinute]).2

/-- A packet on a stream of its own. -/
def detour : NamedEvent :=
  ⟨Window.firstMinute.start, 4, ⟨10⟩, ⟨10⟩, .processed, some ⟨"masks", 2⟩, some 80, 9, false⟩

/-- The session after a log that shows another packet before the handover, and so gives the first
free ids to it. -/
def detoured : Session := (run empty [.log (detour :: handover) .firstMinute]).2

/-- Two sessions with one origin give different ids to the frames, and both have enough of them for
a log of the handover; a third one has forgotten what the first has filed. -/
theorem tellsAs_handover :
    logged.Reachable ∧ detoured.Reachable ∧ logged.origin = detoured.origin ∧
      logged.streamNames = ["", "frames"] ∧ detoured.streamNames = ["", "masks", "frames"] ∧
      (∀ a, logged.answer? (.log handover .firstMinute) = some a → a.Fits) ∧
      (∀ a, detoured.answer? (.log handover .firstMinute) = some a → a.Fits) ∧
      logged.TellsAs detoured ∧ logged.NumbersAs logged.clear ∧ logged.TellsAs logged.clear := by
  have hreachable : logged.Reachable := ⟨_, rfl⟩
  have hreachable' : detoured.Reachable := ⟨_, rfl⟩
  have hcleared : logged.clear.Reachable := ⟨[.log handover .firstMinute, .clear], rfl⟩
  have horigin : logged.origin = detoured.origin := by rfl
  have hnames : logged.streamNames = ["", "frames"] :=
    (names_log handover .firstMinute IdTables.faithful_empty).trans (by decide)
  have hnames' : detoured.streamNames = ["", "masks", "frames"] :=
    (names_log (detour :: handover) .firstMinute IdTables.faithful_empty).trans (by decide)
  have hhandles : logged.ids.handles = [0, 64] :=
    (handles_log handover .firstMinute IdTables.faithful_empty).trans (by decide)
  have hhandles' : detoured.ids.handles = [0, 80, 64] :=
    (handles_log (detour :: handover) .firstMinute IdTables.faithful_empty).trans (by decide)
  refine ⟨hreachable, hreachable', horigin, hnames, hnames', fun a ha => ?_, fun a ha => ?_,
    tellsAs_of_origin_eq hreachable hreachable' horigin, ⟨rfl, rfl⟩,
    tellsAs_of_origin_eq hreachable hcleared rfl⟩
  · exact fits_of_answer? hreachable.faithful (by simp) ha (by rw [hnames]; decide)
      (by rw [hhandles]; decide)
  · exact fits_of_answer? hreachable'.faithful (by simp) ha (by rw [hnames']; decide)
      (by rw [hhandles']; decide)

end Session

/-!
## A session after a reset

A reset takes back all that a session has gathered: the positions it filed, the allocations it keeps
alive, the ids of names and handles, and the origin.  What is left is not the empty session itself,
but a session alike to it, and so nothing that can be seen of a run tells the two apart
(`Session.run_reset`).
-/

namespace IdTables

/-- The empty name is the only one that is left. -/
@[simp] theorem names_clear (t : IdTables) : t.clear.streams.names = [""] := rfl

/-- The null handle is the only one that is left. -/
@[simp] theorem handles_clear (t : IdTables) : t.clear.handles = [0] := rfl

end IdTables

namespace Session

/-- Whatever the session has gathered, a reset makes it alike to one that has seen nothing. -/
theorem alike_reset (s : Session) : s.reset.Alike empty where
  faithful := ⟨IdTables.faithful_clear s.ids, IdTables.faithful_empty⟩
  origin := rfl
  numbers :=
    { names := IdTables.names_clear s.ids
      handles := IdTables.handles_clear s.ids }

/-- After a reset, every run of calls returns what it returns in a session that has seen nothing, and
leads to the same origin and the same names.  A look at these in between is one after a shorter
run. -/
theorem run_reset (s : Session) (calls : List SessionCall) :
    ((s.call .reset).2.run calls).1 = (empty.run calls).1 ∧
      ((s.call .reset).2.run calls).2.origin = (empty.run calls).2.origin ∧
      ((s.call .reset).2.run calls).2.streamNames = (empty.run calls).2.streamNames := by
  obtain ⟨hreturned, hlast⟩ := (alike_reset s).run (List.forall₂_same.2 fun c _ => agree_self c)
  exact ⟨hreturned, hlast.origin, hlast.numbers.names⟩

end Session

end FlowTrace
