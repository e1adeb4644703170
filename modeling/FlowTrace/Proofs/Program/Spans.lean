import FlowTrace.Proofs.Program.Build
import FlowTrace.Proofs.Trace.LogSplitting
set_option autoImplicit false

/-!
# Program: how long the times of a document are

The times of a document count from the earliest event that the build covers.  They reach no farther
than the latest one, as far as a word does, so that no difference of two of them overflows
(`Build.run_timesWithin`).
-/

namespace FlowTrace

/-- From the earliest to the latest of the events it is so many microseconds, told exactly. -/
def ReachOver (events : List NamedEvent) (span : Int) : Prop :=
  ∃ earliest ∈ events, ∃ latest ∈ events,
    (∀ e ∈ events, earliest.time ≤ e.time ∧ e.time ≤ latest.time) ∧
      span = latest.time.microsInt - earliest.time.microsInt

/-- The times of the trace lie within the span of some events, and their differences are words. -/
structure Trace.TimesWithin (events : List NamedEvent) (t : Trace) : Prop where
  times : ∀ time ∈ t.times, ∃ span, ReachOver events span ∧
    0 ≤ time.toInt ∧ time.toInt ≤ min span Word.greatest
  duration : ∀ r ∈ t.records, ∃ value, r.duration = .ok value
  latency : ∀ r ∈ t.records, ∀ p ∈ r.boundary, ∃ value, p.latency = .ok value

/-! ## Differences of times that are not negative -/

theorem exists_elapsed_of_nonneg {start finish : Option Int64}
    (hstart : ∀ time, start = some time → 0 ≤ time.toInt)
    (hfinish : ∀ time, finish = some time → 0 ≤ time.toInt) :
    ∃ value, elapsed start finish = .ok value := by
  cases start with
  | none => exact ⟨none, rfl⟩
  | some s =>
    cases finish with
    | none => exact ⟨none, rfl⟩
    | some f =>
      have hs := hstart s rfl
      have hf := hfinish f rfl
      have hfits : Word.Fits (f.toInt - s.toInt) := by
        have := Word.fits_iff.1 (Word.fits_toInt s)
        have := Word.fits_iff.1 (Word.fits_toInt f)
        rw [Word.fits_iff]
        omega
      exact ⟨some (Int64.ofInt (f.toInt - s.toInt)), by
        simp [elapsed, Word.sub, Word.exact, hfits, Except.map]⟩

namespace Trace.TimesWithin

/-- It is enough that the times lie within the span. -/
theorem of_times {events : List NamedEvent} {t : Trace}
    (h : ∀ time ∈ t.times, ∃ span, ReachOver events span ∧
      0 ≤ time.toInt ∧ time.toInt ≤ min span Word.greatest) : t.TimesWithin events := by
  have hrecord : ∀ r ∈ t.records, ∀ time ∈ r.times, 0 ≤ time.toInt := by
    intro r hr time htime
    obtain ⟨span, -, hnonneg, -⟩ := h time (List.mem_flatMap.2 ⟨r, hr, htime⟩)
    exact hnonneg
  refine ⟨h, fun r hr => exists_elapsed_of_nonneg ?_ ?_, fun r hr p hp =>
    exists_elapsed_of_nonneg ?_ ?_⟩
  · intro time htime
    exact hrecord r hr time (by simp [TaskRecord.times, htime])
  · intro time htime
    exact hrecord r hr time (by simp [TaskRecord.times, htime])
  · intro time htime
    refine hrecord r hr time (List.mem_append_right _ (List.mem_flatMap.2 ⟨p, hp, ?_⟩))
    simp [StreamRecord.times, htime]
  · intro time htime
    refine hrecord r hr time (List.mem_append_right _ (List.mem_flatMap.2 ⟨p, hp, ?_⟩))
    simp [StreamRecord.times, htime]

end Trace.TimesWithin

/-! ## Times of a range -/

theorem Instant.microsInt_le_microsInt {a b : Instant} (ha : a.isLeap = false) (h : a ≤ b) :
    a.microsInt ≤ b.microsInt := by
  rw [← toInt_micros, ← toInt_micros, ← Int64.le_iff_toInt_le]
  exact micros_le_micros ha h

/-- Relative to the earliest of some events, times lie between 0 and the span of them. -/
theorem exists_span_of_mem {events : List NamedEvent} (hleap : ∀ e ∈ events, e.time.isLeap = false)
    {base : Int64} (hbase : (events.map Event.micros).min? = some base) {e : NamedEvent}
    (he : e ∈ events) :
    ∃ span, ReachOver events span ∧ 0 ≤ (Origin.time ⟨base, 0⟩ e.time).toInt ∧
      (Origin.time ⟨base, 0⟩ e.time).toInt ≤ min span Word.greatest := by
  have hne : events.map Event.time ≠ [] := List.ne_nil_of_mem (List.mem_map_of_mem he)
  obtain ⟨first, hfirst⟩ := Option.ne_none_iff_exists'.1 (mt List.min?_eq_none_iff.1 hne)
  obtain ⟨last, hlast⟩ := Option.ne_none_iff_exists'.1 (mt List.max?_eq_none_iff.1 hne)
  obtain ⟨hfirstSeen, hfirstLeast⟩ := List.min?_eq_some_iff.1 hfirst
  obtain ⟨hlastSeen, hlastGreatest⟩ := List.max?_eq_some_iff.1 hlast
  obtain ⟨earliest, hearliest, rfl⟩ := List.mem_map.1 hfirstSeen
  obtain ⟨latest, hlatest, rfl⟩ := List.mem_map.1 hlastSeen
  have hbounds : ∀ d ∈ events, earliest.time ≤ d.time ∧ d.time ≤ latest.time := by
    intro d hd
    exact ⟨hfirstLeast _ (List.mem_map_of_mem hd), hlastGreatest _ (List.mem_map_of_mem hd)⟩
  have hbase' : base.toInt = earliest.time.microsInt := by
    have hmicros : (events.map Event.time).min?.map Instant.micros =
        ((events.map Event.time).map Instant.micros).min? := by
      refine map_min? fun a ha b hb hab => ?_
      obtain ⟨d, hd, rfl⟩ := List.mem_map.1 ha
      exact Instant.micros_le_micros (hleap d hd) hab
    rw [hfirst, List.map_map] at hmicros
    rw [← Option.some.inj (hmicros.trans hbase), Instant.toInt_micros]
  have hbelow : earliest.time.microsInt ≤ e.time.microsInt :=
    Instant.microsInt_le_microsInt (hleap earliest hearliest) (hbounds e he).1
  have habove : e.time.microsInt ≤ latest.time.microsInt :=
    Instant.microsInt_le_microsInt (hleap e he) (hbounds e he).2
  refine ⟨_, ⟨earliest, hearliest, latest, hlatest, hbounds, rfl⟩, ?_⟩
  have htime : (Origin.time ⟨base, 0⟩ e.time).toInt =
      max Word.least (min Word.greatest (e.time.microsInt - earliest.time.microsInt)) := by
    rw [Origin.time, Word.clampedSub, Word.toInt_ofIntClamp, Instant.toInt_micros, hbase']
  rw [htime]
  simp only [Word.least, Word.greatest]
  omega

namespace Build

variable {buffer : List NamedEvent} (mode : Mode)

/-- Windows in the order of time all count from the base time that their events fix together. -/
theorem times_window {s : Session} (hs : s.ids.Faithful)
    (hleap : ∀ e ∈ buffer, e.time.isLeap = false) {windows : List Window}
    (horder : windows.Pairwise fun u v => u.stop ≤ v.start) {base : Int64}
    (hbase : windows.flatMap (fun w => w.events buffer) ≠ [] →
      (s.originAfter (windows.flatMap fun w => w.events buffer)).map Origin.baseTime = some base) :
    ∀ t ∈ (mapThrough (window mode buffer) s windows).1, ∀ time ∈ t.times,
      ∃ e ∈ windows.flatMap (fun w => w.events buffer), Origin.time ⟨base, 0⟩ e.time = time := by
  induction windows generalizing s with
  | nil => simp
  | cons w windows ih =>
    obtain ⟨hfirst, hothers⟩ := List.pairwise_cons.1 horder
    obtain ⟨hanswers, hnext⟩ := answers_window mode buffer hs w
    have hlater : ∀ d ∈ w.events buffer,
        ∀ e ∈ windows.flatMap (fun v => v.events buffer), d.micros ≤ e.micros := by
      intro d hd e he
      obtain ⟨v, hv, he⟩ := List.mem_flatMap.1 he
      exact Session.micros_le_micros_of_windows hleap (hfirst v hv) d hd e he
    have hevents : (call mode buffer w).events? = some (w.events buffer) := by
      cases mode <;> rfl
    rw [List.flatMap_cons] at hbase ⊢
    rw [mapThrough_cons]
    intro t ht time htime
    rcases List.mem_cons.1 ht with rfl | ht
    · obtain ⟨e, he, rfl⟩ := hanswers.times hevents time htime
      have hsome : (s.originAfter (w.events buffer)).map Origin.baseTime = some base := by
        rw [← s.baseTime_originAfter_append (List.ne_nil_of_mem he) hlater]
        exact hbase (List.append_ne_nil_of_left_ne_nil (List.ne_nil_of_mem he) _)
      obtain ⟨o, ho, rfl⟩ := Option.map_eq_some_iff.1 hsome
      refine ⟨e, List.mem_append_left _ he, ?_⟩
      rw [hanswers.shown, ho]
      rfl
    · have hrest : windows.flatMap (fun v => v.events buffer) ≠ [] →
          ((window mode buffer s w).2.originAfter
            (windows.flatMap fun v => v.events buffer)).map Origin.baseTime = some base := by
        intro hne
        rw [← hnext, s.baseTime_originAfter_of_eq hanswers.origin hlater]
        exact hbase (List.append_ne_nil_of_right_ne_nil _ hne)
      obtain ⟨e, he, htime⟩ :=
        ih (hnext ▸ hanswers.makes.faithful) hothers hrest t ht time htime
      exact ⟨e, List.mem_append_right _ he, htime⟩

/-- The times of a document that was built lie between 0 and the span of the events covered, and no
duration and no latency overflows. -/
theorem run_timesWithin {files : FileTree} {request : BuildRequest} {now : String} {d : Document}
    (h : (run files request now).result = .ok d) :
    ∃ all, Storage.readEvents files request.input = .ok all ∧
      ∀ t ∈ d.traces, t.TimesWithin (covered request.capacity all d) := by
  obtain ⟨all, hmade⟩ := exists_made_of_document (document_of_run h).1
  refine ⟨all, hmade.events, fun t ht => .of_times fun time htime => ?_⟩
  have hleap : ∀ e ∈ retained request.capacity all, e.time.isLeap = false := by
    intro e he
    exact Storage.isLeap_of_readEvents hmade.events e (retained_subset _ _ he)
  have hshared : (((Window.mk d.windowBegin d.windowEnd).split request.windowMicros).flatMap
      fun w => w.events (retained request.capacity all)).Perm (covered request.capacity all d) :=
    Window.perm_split Event.time _ _ _
  rw [hmade.traces] at ht
  obtain ⟨base, hbase⟩ : ∃ base, covered request.capacity all d ≠ [] →
      ((covered request.capacity all d).map Event.micros).min? = some base := by
    cases hmin : ((covered request.capacity all d).map Event.micros).min? with
    | some base => exact ⟨base, fun _ => rfl⟩
    | none => exact ⟨0, fun hne => absurd (List.map_eq_nil_iff.1 (List.min?_eq_none_iff.1 hmin)) hne⟩
  -- the windows count from the earliest of all events covered, which they share out
  have hfixed : ((Window.mk d.windowBegin d.windowEnd).split request.windowMicros).flatMap
      (fun w => w.events (retained request.capacity all)) ≠ [] →
      (Session.empty.originAfter
        (((Window.mk d.windowBegin d.windowEnd).split request.windowMicros).flatMap
          fun w => w.events (retained request.capacity all))).map Origin.baseTime = some base := by
    intro hne
    have hsome : covered request.capacity all d ≠ [] := by
      intro hnil
      rw [hnil] at hshared
      exact hne hshared.eq_nil
    rw [Session.originAfter_eq_of_perm _ hshared, Session.originAfter_of_none _ rfl,
      Origin.baseTime_ofEvents?, hbase hsome]
  obtain ⟨e, he, rfl⟩ := times_window request.mode IdTables.faithful_empty hleap
    (Window.pairwise_split _ _) hfixed t ht time htime
  have hin : e ∈ covered request.capacity all d := hshared.mem_iff.1 he
  have hcovered : ∀ e ∈ covered request.capacity all d, e.time.isLeap = false := by
    intro e he
    exact hleap e (List.mem_filter.1 he).1
  exact exists_span_of_mem hcovered (hbase (List.ne_nil_of_mem hin)) hin

/-- The two microseconds of the task are those between the two events of the dump. -/
theorem run_timesWithin_sample :
    (run sampleFiles sampleRequest "now").result = .ok sampleDocument ∧
      sampleDocument.traces.flatMap Trace.times = [0, 2] ∧
      ∃ all, Storage.readEvents sampleFiles sampleRequest.input = .ok all ∧
        ∀ t ∈ sampleDocument.traces,
          t.TimesWithin (covered sampleRequest.capacity all sampleDocument) :=
  ⟨result_run_sample, by decide +kernel, run_timesWithin result_run_sample⟩

end Build

end FlowTrace
