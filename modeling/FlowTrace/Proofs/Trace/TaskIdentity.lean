import FlowTrace.Proofs.Trace.Reading
set_option autoImplicit false

/-!
# Trace: which task a record is about

A record tells its task by calculator, kind and relative input stamp.  Relative stamps stop at the
ends of the range of words, and so stamps whose distances to the base stamp lie at or beyond the same
end are shown alike (`Origin.Blurs`).  The records of two different tasks of one trace say the same
just for such stamps (`Session.identity_eq_identity_iff`).
-/

namespace FlowTrace

open Entries

/-- Two clamped differences to one word are equal if the words are, or if both exact differences lie
at or beyond the same end of the range. -/
theorem Word.clampedSub_eq_clampedSub_iff {a b c : Int64} :
    clampedSub a c = clampedSub b c ↔
      a = b ∨ (greatest ≤ a.toInt - c.toInt ∧ greatest ≤ b.toInt - c.toInt) ∨
        (a.toInt - c.toInt ≤ least ∧ b.toInt - c.toInt ≤ least) := by
  rw [← Int64.toInt_inj, ← Int64.toInt_inj (x := a), clampedSub, clampedSub, toInt_ofIntClamp,
    toInt_ofIntClamp, least, greatest]
  omega

/-- What a record says about which task it is. -/
def TaskRecord.identity (r : TaskRecord) : Int32 × EventKind × Option Int64 :=
  (r.node, r.kind, r.inputStamp)

namespace Origin

/-- How far a stamp lies behind the base stamp, or in front of it if negative. -/
def distance (o : Origin) (t : Timestamp) : Int := t.value.toInt - o.baseStamp.toInt

/-- Both stamps are set, and a word does not show which of them is the farther one from the base
stamp. -/
def Blurs (o : Origin) (a b : Timestamp) : Prop :=
  a ≠ .unset ∧ b ≠ .unset ∧
    ((Word.greatest ≤ o.distance a ∧ Word.greatest ≤ o.distance b) ∨
      (o.distance a ≤ Word.least ∧ o.distance b ≤ Word.least))

theorem stamp_eq_stamp_iff (o : Origin) {a b : Timestamp} :
    o.stamp a = o.stamp b ↔
      a = b ∨ (Word.greatest ≤ o.distance a ∧ Word.greatest ≤ o.distance b) ∨
        (o.distance a ≤ Word.least ∧ o.distance b ≤ Word.least) := by
  rw [stamp, stamp, Word.clampedSub_eq_clampedSub_iff]
  refine or_congr_left ⟨?_, congrArg Timestamp.value⟩
  intro hvalue
  cases a
  cases b
  exact congrArg Timestamp.mk hvalue

/-- Stamps that are shown alike are the same or blurred; one that is not set is shown as none. -/
theorem inputStamp_eq_inputStamp_iff (o : Origin) {a b : Timestamp} :
    o.inputStamp a = o.inputStamp b ↔ a = b ∨ o.Blurs a b := by
  by_cases ha : a = .unset <;> by_cases hb : b = .unset
  · simp [ha, hb]
  · simp [inputStamp, Blurs, ha, hb, Ne.symm hb]
  · simp [inputStamp, Blurs, ha, hb]
  · simp [inputStamp, Blurs, ha, hb, stamp_eq_stamp_iff]

end Origin

/-- A task that occurs has one record, which shows calculator, kind and stamp of the task. -/
theorem Reading.Shows.exists_recordsOf_eq {r : Reading} {f : Frame} (h : r.Shows f) {task : TaskId}
    (htask : ∃ e ∈ f.events, e.task? = some task) :
    ∃ record, r.recordsOf task = [record] ∧
      record.identity = (task.node, task.kind, f.origin.inputStamp task.inputStamp) := by
  have hne : ofTask r.entries task ≠ [] := by
    obtain ⟨e, he, htask⟩ := htask
    rw [← h.events] at he
    obtain ⟨x, hx, rfl⟩ := List.mem_map.1 he
    exact List.ne_nil_of_mem (mem_ofTask.2 ⟨hx, htask⟩)
  have hmembers : ∀ e ∈ (ofTask r.entries task).map Prod.fst, e.task? = some task := by
    intro e he
    obtain ⟨x, hx, rfl⟩ := List.mem_map.1 he
    exact (mem_ofTask.1 hx).2
  obtain ⟨hnode, hkind, hstamp⟩ := f.taskRecord_of_task (mt List.map_eq_nil_iff.1 hne) hmembers
  refine ⟨f.taskRecord ((ofTask r.entries task).map Prod.fst), ?_, ?_⟩
  · obtain ⟨x, rest, hlist⟩ := List.exists_cons_of_ne_nil hne
    rw [h.recordsOf_eq, hlist]
    rfl
  · rw [TaskRecord.identity, hnode, hkind, hstamp]

namespace Session

/-- Each of two tasks of a window has one record.  The two records say the same about their tasks
just if the tasks are the same, or if they share calculator and kind and the trace blurs their
stamps. -/
theorem identity_eq_identity_iff {s : Session} (h : s.Reachable) {buffer : List NamedEvent}
    {w : Window} {task task' : TaskId} (htask : ∃ e ∈ w.events buffer, e.task? = some task)
    (htask' : ∃ e ∈ w.events buffer, e.task? = some task') :
    ∃ r r', (s.read buffer w).1.recordsOf task = [r] ∧
      (s.read buffer w).1.recordsOf task' = [r'] ∧
      (r.identity = r'.identity ↔
        task = task' ∨ (task.node = task'.node ∧ task.kind = task'.kind ∧
          (s.trace buffer w).1.origin.Blurs task.inputStamp task'.inputStamp)) := by
  have hshows := shows_read h.faithful buffer w
  obtain ⟨r, hr, hidentity⟩ := hshows.exists_recordsOf_eq htask
  obtain ⟨r', hr', hidentity'⟩ := hshows.exists_recordsOf_eq htask'
  refine ⟨r, r', hr, hr', ?_⟩
  have horigin : (s.traceFrame buffer w).origin = (s.trace buffer w).1.origin := rfl
  rw [hidentity, hidentity', horigin, Prod.mk.injEq, Prod.mk.injEq,
    Origin.inputStamp_eq_inputStamp_iff]
  obtain ⟨node, stamp, kind⟩ := task
  obtain ⟨node', stamp', kind'⟩ := task'
  rw [TaskId.mk.injEq]
  constructor
  · rintro ⟨hnode, hkind, hsame | hblurs⟩
    · exact .inl ⟨hnode, hsame, hkind⟩
    · exact .inr ⟨hnode, hkind, hblurs⟩
  · rintro (⟨hnode, hsame, hkind⟩ | ⟨hnode, hkind, hblurs⟩)
    · exact ⟨hnode, hkind, .inl hsame⟩
    · exact ⟨hnode, hkind, .inr hblurs⟩

/-- The two tasks of the handover are told apart. -/
theorem identity_ne_identity_handover :
    traced.Reachable ∧
      (∃ e ∈ Window.firstMinute.events handover, e.task? = some ⟨1, ⟨10⟩, .processed⟩) ∧
      (∃ e ∈ Window.firstMinute.events handover, e.task? = some ⟨2, ⟨10⟩, .processed⟩) ∧
      ∃ r r', (traced.read handover .firstMinute).1.recordsOf ⟨1, ⟨10⟩, .processed⟩ = [r] ∧
        (traced.read handover .firstMinute).1.recordsOf ⟨2, ⟨10⟩, .processed⟩ = [r'] ∧
        r.identity ≠ r'.identity := by
  have htask : ∃ e ∈ Window.firstMinute.events handover,
      e.task? = some ⟨1, ⟨10⟩, .processed⟩ := by decide
  have htask' : ∃ e ∈ Window.firstMinute.events handover,
      e.task? = some ⟨2, ⟨10⟩, .processed⟩ := by decide
  obtain ⟨r, r', hr, hr', hiff⟩ := identity_eq_identity_iff reachable_traced htask htask'
  refine ⟨reachable_traced, htask, htask', r, r', hr, hr', mt hiff.1 ?_⟩
  rintro (hsame | ⟨hnode, -⟩)
  · exact absurd hsame (by decide)
  · exact absurd hnode (by decide)

/-- Three tasks of one calculator.  A word has no room for the way from the stamp of the first one to
those of the others. -/
def farApart : List NamedEvent :=
  [⟨.epoch, 1, ⟨-10⟩, .unset, .processed, none, none, 7, false⟩,
   ⟨.epoch, 1, ⟨9223372036854775803⟩, .unset, .processed, none, none, 7, false⟩,
   ⟨.epoch, 1, .greatest, .unset, .processed, none, none, 7, false⟩]

/-- The records of the last two say the same about their tasks, although both stamps are ordinary. -/
theorem identity_eq_identity_farApart :
    empty.Reachable ∧
      (⟨1, ⟨9223372036854775803⟩, .processed⟩ : TaskId) ≠ ⟨1, .greatest, .processed⟩ ∧
      ∃ r r', (empty.read farApart .firstMinute).1.recordsOf
            ⟨1, ⟨9223372036854775803⟩, .processed⟩ = [r] ∧
        (empty.read farApart .firstMinute).1.recordsOf ⟨1, .greatest, .processed⟩ = [r'] ∧
        r.identity = r'.identity := by
  have hreachable : empty.Reachable := ⟨[], rfl⟩
  have hshows := shows_read hreachable.faithful farApart .firstMinute
  have htask : ∃ e ∈ (empty.traceFrame farApart .firstMinute).events,
      e.task? = some ⟨1, ⟨9223372036854775803⟩, .processed⟩ := by decide
  have htask' : ∃ e ∈ (empty.traceFrame farApart .firstMinute).events,
      e.task? = some ⟨1, .greatest, .processed⟩ := by decide
  obtain ⟨r, hr, hidentity⟩ := hshows.exists_recordsOf_eq htask
  obtain ⟨r', hr', hidentity'⟩ := hshows.exists_recordsOf_eq htask'
  have horigin : (empty.traceFrame farApart .firstMinute).origin = ⟨0, -10⟩ := by decide
  refine ⟨hreachable, by decide, r, r', hr, hr', ?_⟩
  rw [hidentity, hidentity', horigin]
  decide

end Session

end FlowTrace
