import Mathlib.Data.List.DropRight
import FlowTrace.Proofs.Trace.Sources
set_option autoImplicit false

/-!
# Trace: the origin of a run

What a session counts from can be told from the calls alone: the first window since the last reset
that holds an event fixes the earliest time and the least ordinary stamp among its events.  All
traces from then on show that origin, those of windows without events too, and as long as nothing
was seen a trace shows zeros (`Session.run_keepsOrigin`).
-/

namespace FlowTrace

/-! ## The window that fixes the origin -/

namespace SessionCall

/-- The call forgets everything. -/
def isReset : SessionCall → Bool
  | .reset => true
  | _ => false

/-- The calls after the last reset. -/
def sinceReset (calls : List SessionCall) : List SessionCall :=
  calls.rtakeWhile fun c => !c.isReset

/-- The events of the first window since the last reset that holds any. -/
def firstEvents (calls : List SessionCall) : List NamedEvent :=
  (((sinceReset calls).filterMap events?).find? fun events => !events.isEmpty).getD []

variable {calls : List SessionCall} {c : SessionCall}

/-- Nothing was seen exactly if all windows since the last reset are without events. -/
theorem firstEvents_eq_nil_iff :
    firstEvents calls = [] ↔
      ∀ c ∈ sinceReset calls, ∀ events, c.events? = some events → events = [] := by
  unfold firstEvents
  cases hfound : ((sinceReset calls).filterMap events?).find? fun events => !events.isEmpty with
  | none =>
    simp only [Option.getD_none, true_iff]
    intro c hc events hevents
    have hempty := List.find?_eq_none.1 hfound events (List.mem_filterMap.2 ⟨c, hc, hevents⟩)
    simpa using hempty
  | some events =>
    have hne : events ≠ [] := by simpa using List.find?_some hfound
    obtain ⟨c, hc, hevents⟩ := List.mem_filterMap.1 (List.mem_of_find?_eq_some hfound)
    simp only [Option.getD_some, hne, false_iff]
    intro hall
    exact hne (hall c hc events hevents)

theorem firstEvents_concat_reset : firstEvents (calls ++ [.reset]) = [] := by
  rw [firstEvents, sinceReset, List.rtakeWhile_concat]
  rfl

/-- A call that is not a reset adds its window, which counts if nothing was seen before. -/
theorem firstEvents_concat (hc : c ≠ .reset) :
    firstEvents (calls ++ [c]) =
      if firstEvents calls = [] then c.events?.getD [] else firstEvents calls := by
  have hkept : (!c.isReset) = true := by
    cases c
    case reset => exact absurd rfl hc
    all_goals rfl
  have hconcat : sinceReset (calls ++ [c]) = sinceReset calls ++ [c] := by
    rw [sinceReset, List.rtakeWhile_concat, if_pos hkept, sinceReset]
  unfold firstEvents
  rw [hconcat, List.filterMap_append, List.find?_append]
  cases hfound : ((sinceReset calls).filterMap events?).find? fun events => !events.isEmpty with
  | none =>
    cases hevents : c.events? with
    | none => simp [hevents]
    | some events => cases events <;> simp [hevents]
  | some events =>
    have hne : events ≠ [] := by simpa using List.find?_some hfound
    simp [hne]

/-- What was seen first stays so until a reset. -/
theorem firstEvents_append {after : List SessionCall} (hne : firstEvents calls ≠ [])
    (hafter : ∀ d ∈ after, d ≠ .reset) : firstEvents (calls ++ after) = firstEvents calls := by
  induction after using List.reverseRecOn with
  | nil => rw [List.append_nil]
  | append_singleton after d ih =>
    have hkept : firstEvents (calls ++ after) = firstEvents calls :=
      ih fun d hd => hafter d (List.mem_append_left _ hd)
    have hd : d ≠ .reset := hafter d (List.mem_append_right _ (List.mem_singleton_self d))
    rw [← List.append_assoc, firstEvents_concat hd, hkept, if_neg hne]

end SessionCall

/-! ## What an origin is to some events -/

/-- An ordinary stamp of the event, be it that of the input set or that of the packet. -/
def Event.HasStamp {ν : Type} (e : Event ν) (stamp : Timestamp) : Prop :=
  (stamp = e.inputStamp ∨ stamp = e.packetStamp) ∧ stamp.isOrdinary = true

namespace Origin

/-- The earliest time and the least ordinary stamp of some events, or 0 where they have none. -/
structure LeastOf (o : Origin) (events : List NamedEvent) : Prop where
  timeSeen : ∃ e ∈ events, e.micros = o.baseTime
  timeLeast : ∀ e ∈ events, o.baseTime ≤ e.micros
  stampSeen : (∃ e ∈ events, ∃ stamp, e.HasStamp stamp) →
    ∃ e ∈ events, ∃ stamp, e.HasStamp stamp ∧ stamp.value = o.baseStamp
  stampLeast : ∀ e ∈ events, ∀ stamp, e.HasStamp stamp → o.baseStamp ≤ stamp.value
  stampMissing : (¬ ∃ e ∈ events, ∃ stamp, e.HasStamp stamp) → o.baseStamp = 0

variable {o : Origin} {events : List NamedEvent}

theorem mem_ordinaryStamps {e : NamedEvent} {value : Int64} :
    value ∈ ordinaryStamps e ↔ ∃ stamp, e.HasStamp stamp ∧ stamp.value = value := by
  simp [ordinaryStamps, Event.HasStamp]

/-- The origin that some events fix is made of their least time and stamp. -/
theorem leastOf_of_ofEvents? (h : ofEvents? events = some o) : o.LeastOf events := by
  have hstamps : ∀ value, value ∈ events.flatMap ordinaryStamps ↔
      ∃ e ∈ events, ∃ stamp, e.HasStamp stamp ∧ stamp.value = value := by
    simp [mem_ordinaryStamps]
  unfold ofEvents? at h
  split at h
  · cases h
  · rename_i baseTime htime
    cases h
    obtain ⟨hseen, hleast⟩ := List.min?_eq_some_iff.1 htime
    have hleast : ∀ e ∈ events, baseTime ≤ e.micros := by
      intro e he
      exact hleast _ (List.mem_map_of_mem he)
    cases hstamp : (events.flatMap ordinaryStamps).min? with
    | none =>
      have hnone : ¬ ∃ e ∈ events, ∃ stamp, e.HasStamp stamp := by
        rintro ⟨e, he, stamp, hhas⟩
        have hmem := (hstamps stamp.value).2 ⟨e, he, stamp, hhas, rfl⟩
        rw [List.min?_eq_none_iff.1 hstamp] at hmem
        cases hmem
      refine ⟨List.mem_map.1 hseen, hleast, fun hsome => absurd hsome hnone, ?_, fun _ => rfl⟩
      intro e he stamp hhas
      exact absurd ⟨e, he, stamp, hhas⟩ hnone
    | some value =>
      obtain ⟨hfound, hbound⟩ := List.min?_eq_some_iff.1 hstamp
      have hattained := (hstamps value).1 hfound
      refine ⟨List.mem_map.1 hseen, hleast, fun _ => hattained, ?_, ?_⟩
      · intro e he stamp hhas
        exact hbound _ ((hstamps _).2 ⟨e, he, stamp, hhas, rfl⟩)
      · obtain ⟨e, he, stamp, hhas, -⟩ := hattained
        exact fun hnone => absurd ⟨e, he, stamp, hhas⟩ hnone

/-- There is one such origin only. -/
theorem LeastOf.unique {o' : Origin} (h : o.LeastOf events) (h' : o'.LeastOf events) : o = o' := by
  obtain ⟨e, he, htime⟩ := h.timeSeen
  obtain ⟨e', he', htime'⟩ := h'.timeSeen
  have hbaseTime : o.baseTime = o'.baseTime :=
    Int64.le_antisymm (htime' ▸ h.timeLeast e' he') (htime ▸ h'.timeLeast e he)
  have hbaseStamp : o.baseStamp = o'.baseStamp := by
    by_cases hsome : ∃ e ∈ events, ∃ stamp, e.HasStamp stamp
    · obtain ⟨e, he, stamp, hhas, hstamp⟩ := h.stampSeen hsome
      obtain ⟨e', he', stamp', hhas', hstamp'⟩ := h'.stampSeen hsome
      exact Int64.le_antisymm (hstamp' ▸ h.stampLeast e' he' stamp' hhas')
        (hstamp ▸ h'.stampLeast e he stamp hhas)
    · rw [h.stampMissing hsome, h'.stampMissing hsome]
  cases o
  cases o'
  cases hbaseTime
  cases hbaseStamp
  rfl

end Origin

theorem Word.zero_le_clampedSub {a b : Int64} (h : b ≤ a) : 0 ≤ clampedSub a b := by
  rw [Int64.le_iff_toInt_le] at h ⊢
  rw [clampedSub, toInt_ofIntClamp, Int64.toInt_zero, least, greatest]
  omega

namespace Origin

variable {o : Origin} {events : List NamedEvent}

theorem LeastOf.time_nonneg (h : o.LeastOf events) {e : NamedEvent} (he : e ∈ events) :
    0 ≤ o.time e.time :=
  Word.zero_le_clampedSub (h.timeLeast e he)

theorem LeastOf.stamp_nonneg (h : o.LeastOf events) {e : NamedEvent} (he : e ∈ events)
    {stamp : Timestamp} (hhas : e.HasStamp stamp) : 0 ≤ o.stamp stamp :=
  Word.zero_le_clampedSub (h.stampLeast e he stamp hhas)

end Origin

/-- The trace that the call returns after the calls before it counts from the least of what was
first seen.  Where the call itself sees the first events, nothing about them is negative. -/
structure Trace.ShowsOrigin (before : List SessionCall) (c : SessionCall)
    (t : Trace) : Prop where
  unfixed : SessionCall.firstEvents (before ++ [c]) = [] → t.baseTime = 0 ∧ t.baseStamp = 0
  fixed : SessionCall.firstEvents (before ++ [c]) ≠ [] →
    t.origin.LeastOf (SessionCall.firstEvents (before ++ [c]))
  times : SessionCall.firstEvents before = [] → ∀ time ∈ t.times, 0 ≤ time
  stamps : SessionCall.firstEvents before = [] →
    List.Forall₂
      (fun source r =>
        (source.first.inputStamp.isOrdinary = true →
          ∃ stamp, r.inputStamp = some stamp ∧ 0 ≤ stamp) ∧
        List.Forall₂ (fun e p => e.packetStamp.isOrdinary = true → 0 ≤ p.packetStamp)
          source.boundary r.boundary)
      c.sources t.records

namespace Session

variable {calls : List SessionCall} {c : SessionCall}

theorem run_concat (s : Session) : (s.run (calls ++ [c])).2 = ((s.run calls).2.call c).2 := by
  unfold run
  rw [mapThrough_append, mapThrough_cons, mapThrough_nil]

/-- The origin before a call settles the origin that its window leaves. -/
theorem originAfter_of_eq_ofEvents? {s : Session} {first : List NamedEvent}
    (h : s.origin = Origin.ofEvents? first) (events : List NamedEvent) :
    s.originAfter events = Origin.ofEvents? (if first = [] then events else first) := by
  split
  · rename_i hnil
    rw [hnil, Origin.ofEvents?_nil] at h
    exact s.originAfter_of_none h events
  · rename_i hne
    obtain ⟨o, ho⟩ := Option.ne_none_iff_exists'.1 (mt Origin.ofEvents?_eq_none_iff.1 hne)
    rw [ho] at h ⊢
    exact s.originAfter_of_some h events

/-- What a session counts from is fixed by the first window that holds an event. -/
theorem origin_run_eq (calls : List SessionCall) :
    (empty.run calls).2.origin = Origin.ofEvents? (SessionCall.firstEvents calls) := by
  induction calls using List.reverseRecOn with
  | nil => rfl
  | append_singleton calls c ih =>
    rw [run_concat]
    cases c with
    | trace buffer w =>
      rw [SessionCall.firstEvents_concat (by simp)]
      exact originAfter_of_eq_ofEvents? ih (w.events buffer)
    | log buffer w =>
      rw [SessionCall.firstEvents_concat (by simp)]
      exact originAfter_of_eq_ofEvents? ih (w.events buffer)
    | clear =>
      rw [SessionCall.firstEvents_concat (by simp)]
      refine ih.trans (congrArg Origin.ofEvents? ?_)
      split
      · assumption
      · rfl
    | reset => rw [SessionCall.firstEvents_concat_reset]; rfl

/-- What is returned in a run is what its call returns after the calls before it. -/
theorem getElem?_run (s : Session) (calls : List SessionCall) (place : Nat) :
    (s.run calls).1[place]? =
      calls[place]?.map fun c => ((s.run (calls.take place)).2.call c).1 := by
  unfold run
  induction calls generalizing s place with
  | nil => simp
  | cons d calls ih =>
    cases place with
    | zero => simp [mapThrough_cons]
    | succ place => simp [mapThrough_cons, ih]

/-! ## Traces of a run -/

theorem showsOrigin_of_returned {before : List SessionCall} {t : Trace}
    (h : ((empty.run before).2.call c).1 = some t) : t.ShowsOrigin before c := by
  have hs : (empty.run before).2.ids.Faithful := faithful_run IdTables.faithful_empty before
  obtain ⟨events, hc, hanswers⟩ := exists_answers_of_returned hs h
  have hfirst : SessionCall.firstEvents (before ++ [c]) =
      if SessionCall.firstEvents before = [] then events else SessionCall.firstEvents before := by
    rw [SessionCall.firstEvents_concat (SessionCall.ne_reset_of_events? hc), hc, Option.getD_some]
  have horigin : (empty.run before).2.originAfter events =
      Origin.ofEvents? (SessionCall.firstEvents (before ++ [c])) := by
    rw [originAfter_of_eq_ofEvents? (origin_run_eq before), hfirst]
  have hfixed : SessionCall.firstEvents (before ++ [c]) ≠ [] →
      t.origin.LeastOf (SessionCall.firstEvents (before ++ [c])) := by
    intro hne
    obtain ⟨o, ho⟩ := Option.ne_none_iff_exists'.1 (mt Origin.ofEvents?_eq_none_iff.1 hne)
    rw [hanswers.shown, horigin, ho]
    exact Origin.leastOf_of_ofEvents? ho
  -- in the call that fixes the origin, the first events are those of its own window
  have hown : SessionCall.firstEvents before = [] → ∀ e ∈ events, t.origin.LeastOf events := by
    intro hnone e he
    rw [hfirst, if_pos hnone] at hfixed
    exact hfixed (List.ne_nil_of_mem he)
  have hmade := hanswers.madeFrom hc (IdTables.Within.refl _)
  refine ⟨?_, hfixed, ?_, ?_⟩
  · intro hnone
    rw [hnone, Origin.ofEvents?_nil] at horigin
    have hzero : t.origin = .zero := by rw [hanswers.shown, horigin, Option.getD_none]
    exact ⟨congrArg Origin.baseTime hzero, congrArg Origin.baseStamp hzero⟩
  · intro hnone time htime
    obtain ⟨e, he, rfl⟩ := hanswers.times hc time htime
    exact (hown hnone e he).time_nonneg he
  · intro hnone
    refine hmade.imp fun source r hrecord => ⟨fun hordinary => ?_, ?_⟩
    · have hset : source.first.inputStamp ≠ .unset := by
        intro hunset
        rw [hunset] at hordinary
        exact absurd hordinary (by decide)
      refine ⟨t.origin.stamp source.first.inputStamp, ?_, ?_⟩
      · rw [hrecord.inputStamp, Origin.inputStamp, if_neg hset]
      · exact (hown hnone _ hrecord.seen).stamp_nonneg hrecord.seen ⟨.inl rfl, hordinary⟩
    · refine hrecord.boundary.imp fun e p hpacket hordinary => ?_
      rw [hpacket.packetStamp]
      exact (hown hnone e hpacket.seen).stamp_nonneg hpacket.seen ⟨.inr rfl, hordinary⟩

/-- In every run, the origin is fixed by the first window since the last reset that holds an event,
and every trace shows it. -/
theorem run_keepsOrigin (calls : List SessionCall) :
    ((empty.run calls).2.origin = none ↔
      ∀ c ∈ SessionCall.sinceReset calls, ∀ events, c.events? = some events → events = []) ∧
    (∀ o, (empty.run calls).2.origin = some o → o.LeastOf (SessionCall.firstEvents calls)) ∧
    (∀ (place : Nat) (c : SessionCall) (t : Trace), calls[place]? = some c →
      (empty.run calls).1[place]? = some (some t) → t.ShowsOrigin (calls.take place) c) ∧
    (∀ (place place' : Nat) (t t' : Trace), (empty.run calls).1[place]? = some (some t) →
      (empty.run calls).1[place']? = some (some t') → place ≤ place' →
      SessionCall.firstEvents (calls.take (place + 1)) ≠ [] →
      (∀ d ∈ (calls.take (place' + 1)).drop (place + 1), d ≠ .reset) → t'.origin = t.origin) := by
  have hshows : ∀ (place : Nat) (t : Trace), (empty.run calls).1[place]? = some (some t) →
      ∃ c, calls[place]? = some c ∧ t.ShowsOrigin (calls.take place) c := by
    intro place t ht
    rw [getElem?_run, Option.map_eq_some_iff] at ht
    obtain ⟨c, hc, ht⟩ := ht
    exact ⟨c, hc, showsOrigin_of_returned ht⟩
  refine ⟨?_, ?_, ?_, ?_⟩
  · rw [origin_run_eq, Origin.ofEvents?_eq_none_iff, SessionCall.firstEvents_eq_nil_iff]
  · intro o ho
    rw [origin_run_eq] at ho
    exact Origin.leastOf_of_ofEvents? ho
  · intro place c t hc ht
    obtain ⟨d, hd, hshown⟩ := hshows place t ht
    cases hc.symm.trans hd
    exact hshown
  · intro place place' t t' ht ht' hle hseen hbetween
    -- both traces count from the least of the same events, because no reset comes between them
    have hleast : ∀ {place : Nat} {t : Trace}, (empty.run calls).1[place]? = some (some t) →
        SessionCall.firstEvents (calls.take (place + 1)) ≠ [] →
          t.origin.LeastOf (SessionCall.firstEvents (calls.take (place + 1))) := by
      intro place t ht hne
      obtain ⟨c, hc, hshown⟩ := hshows place t ht
      rw [List.take_add_one, hc] at hne ⊢
      exact hshown.fixed hne
    have hparts : calls.take (place' + 1) =
        calls.take (place + 1) ++ (calls.take (place' + 1)).drop (place + 1) := by
      have htake : (calls.take (place' + 1)).take (place + 1) = calls.take (place + 1) := by
        rw [List.take_take, Nat.min_eq_left (by omega)]
      rw [← htake, List.take_append_drop]
    have hsame : SessionCall.firstEvents (calls.take (place' + 1)) =
        SessionCall.firstEvents (calls.take (place + 1)) := by
      rw [hparts]
      exact SessionCall.firstEvents_append hseen hbetween
    have hlater := hleast ht' (hsame ▸ hseen)
    rw [hsame] at hlater
    exact hlater.unique (hleast ht hseen)

end Session

end FlowTrace
