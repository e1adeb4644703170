import FlowTrace.Proofs.Time.Earliest
import FlowTrace.Trace.Calls
set_option autoImplicit false

/-!
# Trace: which events fix the origin

An origin is made of two minima, so the order of the events does not matter
(`Origin.ofEvents?_eq_of_perm`), and events that come later do not move the base time
(`Session.baseTime_originAfter_append`).
-/

namespace FlowTrace

namespace Origin

variable {ν : Type}

theorem ofEvents?_nil : ofEvents? ([] : List (Event ν)) = none := rfl

theorem baseTime_ofEvents? (events : List (Event ν)) :
    (ofEvents? events).map Origin.baseTime = (events.map Event.micros).min? := by
  unfold ofEvents?
  split <;> rename_i hmin <;> rw [hmin] <;> rfl

theorem ofEvents?_eq_none_iff {events : List (Event ν)} : ofEvents? events = none ↔ events = [] := by
  rw [← Option.map_eq_none_iff (f := Origin.baseTime), baseTime_ofEvents?, List.min?_eq_none_iff,
    List.map_eq_nil_iff]

/-- The order of the events does not matter for their origin. -/
theorem ofEvents?_eq_of_perm {l m : List (Event ν)} (h : l.Perm m) :
    ofEvents? l = ofEvents? m := by
  have htime : (l.map Event.micros).min? = (m.map Event.micros).min? := min?_eq_of_perm (h.map _)
  have hstamp : (l.flatMap ordinaryStamps).min? = (m.flatMap ordinaryStamps).min? :=
    min?_eq_of_perm (h.flatMap_right _)
  rw [ofEvents?, ofEvents?, htime, hstamp]

/-- Events that come later do not move the base time. -/
theorem baseTime_ofEvents?_append {earlier later : List (Event ν)} (hne : earlier ≠ [])
    (h : ∀ d ∈ earlier, ∀ e ∈ later, d.micros ≤ e.micros) :
    (ofEvents? (earlier ++ later)).map Origin.baseTime =
      (ofEvents? earlier).map Origin.baseTime := by
  rw [baseTime_ofEvents?, baseTime_ofEvents?]
  refine (min?_eq_of_subset (fun t ht => ?_) fun t ht => ?_).symm
  · rw [List.map_append]
    exact List.mem_append_left _ ht
  · rw [List.map_append, List.mem_append] at ht
    rcases ht with ht | ht
    · exact ⟨t, ht, Std.le_refl t⟩
    · obtain ⟨e, he, rfl⟩ := List.mem_map.1 ht
      obtain ⟨d, rest, hd⟩ := List.exists_cons_of_ne_nil hne
      have hin : d ∈ earlier := hd ▸ List.mem_cons_self
      exact ⟨d.micros, List.mem_map_of_mem hin, h d hin e he⟩

end Origin

namespace Session

variable (s : Session)

theorem originAfter_of_some {o : Origin} (h : s.origin = some o) (events : List NamedEvent) :
    s.originAfter events = some o := by
  rw [originAfter, h]

theorem originAfter_of_none (h : s.origin = none) (events : List NamedEvent) :
    s.originAfter events = Origin.ofEvents? events := by
  rw [originAfter, h]

theorem originAfter_eq_of_perm {l m : List NamedEvent} (h : l.Perm m) :
    s.originAfter l = s.originAfter m := by
  cases ho : s.origin with
  | some o => rw [originAfter_of_some s ho, originAfter_of_some s ho]
  | none => rw [originAfter_of_none s ho, originAfter_of_none s ho, Origin.ofEvents?_eq_of_perm h]

theorem originAfter_eq_none_iff {events : List NamedEvent} :
    s.originAfter events = none ↔ s.origin = none ∧ events = [] := by
  cases ho : s.origin with
  | some o => simp [originAfter_of_some s ho]
  | none => simp [originAfter_of_none s ho, Origin.ofEvents?_eq_none_iff]

/-- The base time that some events leave is the one that they leave together with later ones. -/
theorem baseTime_originAfter_append {earlier later : List NamedEvent} (hne : earlier ≠ [])
    (h : ∀ d ∈ earlier, ∀ e ∈ later, d.micros ≤ e.micros) :
    (s.originAfter (earlier ++ later)).map Origin.baseTime =
      (s.originAfter earlier).map Origin.baseTime := by
  cases ho : s.origin with
  | some o => rw [originAfter_of_some s ho, originAfter_of_some s ho]
  | none =>
    rw [originAfter_of_none s ho, originAfter_of_none s ho]
    exact Origin.baseTime_ofEvents?_append hne h

/-- Events used one after the other leave the base time that they leave together. -/
theorem baseTime_originAfter_of_eq {s' : Session} {earlier later : List NamedEvent}
    (horigin : s'.origin = s.originAfter earlier)
    (h : ∀ d ∈ earlier, ∀ e ∈ later, d.micros ≤ e.micros) :
    (s'.originAfter later).map Origin.baseTime =
      (s.originAfter (earlier ++ later)).map Origin.baseTime := by
  by_cases hne : earlier = []
  · subst hne
    have hsame : s'.origin = s.origin := by
      rw [horigin]
      cases ho : s.origin with
      | some o => rw [originAfter_of_some s ho]
      | none => rw [originAfter_of_none s ho, Origin.ofEvents?_nil]
    rw [List.nil_append, originAfter, originAfter, hsame]
  · have hsome : s.originAfter earlier ≠ none := fun hnone =>
      hne (s.originAfter_eq_none_iff.1 hnone).2
    obtain ⟨o, ho⟩ := Option.ne_none_iff_exists'.1 hsome
    rw [s.baseTime_originAfter_append hne h, ho, s'.originAfter_of_some (horigin.trans ho)]

end Session

end FlowTrace
