import Mathlib.Data.List.Forall2
import FlowTrace.Proofs.Trace.Origin
import FlowTrace.Proofs.Trace.Splitting
set_option autoImplicit false

/-!
# Trace: the order in which events arrive

A buffer holds its events in the order in which they arrived, and a trace lists its records, its ids
and the packets of a task in this order.  Nothing else depends on it: read by tasks, with ids read
back to names, the traces of two buffers with the same events agree.  Only where one hop is finished
twice does the order decide which finish a packet is traced back to.
-/

namespace FlowTrace

open Entries

/-! ## Hops that are finished once -/

/-- The events belong to the same hop: stream name, packet stamp and kind agree, where a missing
name counts as the empty one. -/
def Event.SameHop (p q : NamedEvent) : Prop :=
  StreamName.textOf p.stream = StreamName.textOf q.stream ∧ p.packetStamp = q.packetStamp ∧
    p.kind = q.kind

instance (p q : NamedEvent) : Decidable (p.SameHop q) := inferInstanceAs (Decidable (_ ∧ _ ∧ _))

/-- No two finishes of tasks among the events belong to the same hop. -/
def Event.FinishedOnce (events : List NamedEvent) : Prop :=
  (events.filter fun e => e.kind.isTask && e.isFinish).Pairwise fun p q => ¬ p.SameHop q

instance (events : List NamedEvent) : Decidable (Event.FinishedOnce events) :=
  inferInstanceAs (Decidable (List.Pairwise _ _))

theorem Event.sameHop_of_produces {p q e : NamedEvent} (hp : p.Produces e) (hq : q.Produces e) :
    p.SameHop q := by
  obtain ⟨-, -, hname, hstamp, hkind⟩ := hp
  obtain ⟨-, -, hname', hstamp', hkind'⟩ := hq
  exact ⟨hname.trans hname'.symm, hstamp.trans hstamp'.symm, hkind.trans hkind'.symm⟩

/-- A packet has at most one producer among events that finish every hop once. -/
theorem Event.FinishedOnce.length_producers_le {events : List NamedEvent}
    (h : Event.FinishedOnce events) (e : NamedEvent) :
    (events.filter fun p => p.Produces e).length ≤ 1 := by
  have hfinishes : (events.filter fun p => p.Produces e) =
      (events.filter fun p => p.kind.isTask && p.isFinish).filter fun p => p.Produces e := by
    rw [List.filter_filter]
    refine List.filter_congr fun p _ => ?_
    by_cases hp : p.Produces e
    · simp [hp, hp.1, hp.2.1]
    · simp [hp]
  have hapart : (events.filter fun p => p.Produces e).Pairwise fun p q => ¬ p.SameHop q := by
    rw [hfinishes]
    exact List.Pairwise.filter _ h
  cases hlist : events.filter fun p => p.Produces e with
  | nil => exact Nat.zero_le 1
  | cons p rest =>
    cases rest with
    | nil => exact Nat.le_refl 1
    | cons q rest =>
      have hproduces : ∀ d ∈ p :: q :: rest, d.Produces e := by
        intro d hd
        rw [← hlist] at hd
        exact of_decide_eq_true (List.mem_filter.1 hd).2
      rw [hlist] at hapart
      have hne : ¬ p.SameHop q := List.rel_of_pairwise_cons hapart List.mem_cons_self
      exact absurd (sameHop_of_produces (hproduces p List.mem_cons_self)
        (hproduces q (List.mem_cons_of_mem p List.mem_cons_self))) hne

/-! ## Frames of the same events -/

namespace Frame

variable {f f' : Frame}

/-- If every hop is finished once, the producer of a packet does not depend on the order. -/
theorem producer?_eq_of_perm (h : f.events.Perm f'.events)
    (honce : Event.FinishedOnce f.events) (e : NamedEvent) : f.producer? e = f'.producer? e := by
  have hperm := h.filter fun p => p.Produces e
  have hlength := honce.length_producers_le e
  have hsame : (f.events.filter fun p => p.Produces e) = f'.events.filter fun p => p.Produces e := by
    cases hlist : f.events.filter fun p => p.Produces e with
    | nil =>
      rw [hlist] at hperm
      exact hperm.nil_eq
    | cons p rest =>
      rw [hlist, List.length_cons] at hlength
      have hrest : rest = [] := List.eq_nil_of_length_eq_zero (by omega)
      rw [hlist, hrest] at hperm
      rw [hrest]
      exact List.singleton_perm.1 hperm
  rw [producer?, producer?, hsame]

end Frame

theorem Origin.earliest?_eq_of_perm (o : Origin) {l m : List NamedEvent} (h : l.Perm m) :
    o.earliest? l = o.earliest? m := by
  rw [earliest?, earliest?, min?_eq_of_perm (h.map _)]

/-! ## Readings of the same events -/

namespace Reading

/-- The packets that a task took in: the name of the stream, the stamp, and both times. -/
def handoversIn (r : Reading) (task : TaskId) :
    List (Option String × Int64 × Option Int64 × Option Int64) :=
  (r.recordsOf task).flatMap fun record =>
    record.inputs.map fun h => (r.trace.nameOf? h, h.packetStamp, h.startTime, h.finishTime)

/-- Two readings agree up to the order in which the events stood in the buffer. -/
structure SameUpToOrder (r r' : Reading) : Prop where
  complete : r.Complete ∧ r'.Complete
  baseTime : r.trace.baseTime = r'.trace.baseTime
  baseStamp : r.trace.baseStamp = r'.trace.baseStamp
  names : r.trace.streamNames.Perm r'.trace.streamNames
  others : (r.others.map Prod.snd).Perm (r'.others.map Prod.snd)
  /-- a task has no second record, and one in both readings or in none -/
  tasks : ∀ task, (r.recordsOf task).length ≤ 1 ∧
    List.Forall₂ (fun a b => a.node = b.node ∧ a.kind = b.kind ∧ a.inputStamp = b.inputStamp ∧
      a.startTime = b.startTime ∧ a.finishTime = b.finishTime) (r.recordsOf task) (r'.recordsOf task)
  /-- a task whose events carry one thread is recorded with it -/
  thread : ∀ task thread, (∀ x ∈ ofTask r.entries task, x.1.thread = thread) →
    ∀ record ∈ r.recordsOf task ++ r'.recordsOf task, record.thread = thread
  /-- names can be read back as long as there are ids for them -/
  named : r.trace.NamesFit → ∀ q ∈ [r, r'], ∀ task, ∀ record ∈ q.recordsOf task,
    ∀ h ∈ record.inputs ++ record.outputs, (q.trace.nameOf? h).isSome = true
  inputs : r.trace.NamesFit → ∀ task, (r.packetsIn task).Perm (r'.packetsIn task)
  outputs : r.trace.NamesFit → ∀ task, (r.packetsOut task).Perm (r'.packetsOut task)
  /-- producers agree where every hop of the window is finished once -/
  handovers : r.trace.NamesFit → Event.FinishedOnce (r.entries.map Prod.fst) →
    ∀ task, (r.handoversIn task).Perm (r'.handoversIn task)

variable {r r' : Reading} {f f' : Frame}

theorem Shows.handoversIn_eq (h : r.Shows f) (hfit : r.trace.NamesFit) (task : TaskId) :
    r.handoversIn task = ((ofTask r.entries task).filter fun x => x.1.takesIn).map fun x =>
      (some (StreamName.textOf x.1.stream), f.origin.stamp x.1.packetStamp,
        (f.producer? x.1).map fun p => f.origin.time p.time, some (f.origin.time x.1.time)) := by
  rw [handoversIn, ← List.map_flatMap, h.flatMap_inputs, List.map_map]
  refine List.map_congr_left fun x hx => ?_
  have hname := h.nameOf?_eq hfit (List.mem_filter.1 hx).1 (p := f.inputPacket x.1) rfl
  simp only [Function.comp_apply, hname]
  rfl

/-- What is read off the entries of a task on one side is read off the events of the frame. -/
theorem Shows.map_ofTask (h : r.Shows f) {β : Type} (task : TaskId) (side : NamedEvent → Bool)
    (g : NamedEvent → β) :
    ((ofTask r.entries task).filter fun x => side x.1).map (fun x => g x.1) =
      ((f.events.filter fun e => e.task? = some task).filter side).map g := by
  rw [← h.events, ← map_fst_ofTask, List.filter_map, List.map_map]
  rfl

/-- Two readings of the same events from one origin select the same from the entries of a task. -/
theorem perm_of_events (h : r.Shows f) (h' : r'.Shows f') (hperm : f.events.Perm f'.events)
    {β : Type} (task : TaskId) (side : NamedEvent → Bool) (g : NamedEvent → β) :
    (((ofTask r.entries task).filter fun x => side x.1).map fun x => g x.1).Perm
      (((ofTask r'.entries task).filter fun x => side x.1).map fun x => g x.1) := by
  rw [h.map_ofTask, h'.map_ofTask]
  exact ((hperm.filter _).filter _).map g

/-- The records outside tasks are those of the events outside tasks. -/
theorem Shows.map_others (h : r.Shows f) :
    r.others.map Prod.snd =
      (f.events.filter fun e => e.task? = none).map (TaskRecord.plain f.origin) := by
  rw [h.others_eq, ← h.events, List.filter_map, List.map_map, List.map_map]
  rfl

theorem Shows.recordsOf_eq_of_events (h : r.Shows f) (task : TaskId) :
    r.recordsOf task = ((f.events.filter fun e => e.task? = some task).take 1).map fun _ =>
      f.taskRecord (f.events.filter fun e => e.task? = some task) := by
  rw [h.recordsOf_eq, map_fst_ofTask, h.events, ← h.events, ← map_fst_ofTask, ← List.map_take,
    List.map_map]
  rfl

/-- The one record that a task has, if it has any, says the same in both readings. -/
theorem forall₂_recordsOf_of_perm (h : r.Shows f) (h' : r'.Shows f') (ho : f.origin = f'.origin)
    (hperm : f.events.Perm f'.events) (task : TaskId) :
    List.Forall₂ (fun a b => a.node = b.node ∧ a.kind = b.kind ∧ a.inputStamp = b.inputStamp ∧
      a.startTime = b.startTime ∧ a.finishTime = b.finishTime)
      (r.recordsOf task) (r'.recordsOf task) := by
  have hmembers := hperm.filter fun e => e.task? = some task
  have htask : ∀ e ∈ f.events.filter (fun e => e.task? = some task), e.task? = some task :=
    fun e he => of_decide_eq_true (List.mem_filter.1 he).2
  rw [h.recordsOf_eq_of_events, h'.recordsOf_eq_of_events]
  generalize f.events.filter (fun e => e.task? = some task) = members at hmembers htask
  generalize f'.events.filter (fun e => e.task? = some task) = members' at hmembers
  have htask' : ∀ e ∈ members', e.task? = some task := fun e he => htask e (hmembers.mem_iff.2 he)
  cases members with
  | nil =>
    rw [← hmembers.nil_eq]
    exact List.Forall₂.nil
  | cons first rest =>
    obtain ⟨first', rest', rfl⟩ : ∃ first' rest', members' = first' :: rest' := by
      refine List.exists_cons_of_ne_nil fun hnil => ?_
      rw [hnil] at hmembers
      exact List.cons_ne_nil first rest hmembers.eq_nil
    obtain ⟨hnode, hkind, hstamp⟩ := f.taskRecord_of_task (List.cons_ne_nil _ _) htask
    obtain ⟨hnode', hkind', hstamp'⟩ := f'.taskRecord_of_task (List.cons_ne_nil _ _) htask'
    refine List.Forall₂.cons ⟨?_, ?_, ?_, ?_, ?_⟩ List.Forall₂.nil
    · rw [hnode, hnode']
    · rw [hkind, hkind']
    · rw [hstamp, hstamp', ho]
    · rw [Frame.taskRecord_startTime, Frame.taskRecord_startTime, ho]
      exact f'.origin.earliest?_eq_of_perm (hmembers.filter _)
    · rw [Frame.taskRecord_finishTime, Frame.taskRecord_finishTime, ho]
      exact f'.origin.earliest?_eq_of_perm (hmembers.filter _)

theorem Shows.thread_eq (h : r.Shows f) {task : TaskId} {thread : Int32}
    (hthread : ∀ e ∈ f.events, e.task? = some task → e.thread = thread) :
    ∀ record ∈ r.recordsOf task, record.thread = thread := by
  intro record hrecord
  rw [h.recordsOf_eq_of_events] at hrecord
  obtain ⟨e, he, rfl⟩ := List.mem_map.1 hrecord
  cases hmembers : f.events.filter fun e => e.task? = some task with
  | nil =>
    rw [hmembers] at he
    cases he
  | cons first rest =>
    have hfirst : first ∈ f.events.filter fun e => e.task? = some task :=
      hmembers ▸ List.mem_cons_self
    obtain ⟨hin, htask⟩ := List.mem_filter.1 hfirst
    exact hthread first hin (of_decide_eq_true htask)

/-- Readings of the same events from one origin agree up to their order. -/
theorem sameUpToOrder_of_perm (h : r.Shows f) (h' : r'.Shows f') (ho : f.origin = f'.origin)
    (hperm : f.events.Perm f'.events) (hbase : r.trace.origin = r'.trace.origin)
    (hnames : r.trace.streamNames.Perm r'.trace.streamNames) : r.SameUpToOrder r' := by
  have hfit : r.trace.NamesFit → r'.trace.NamesFit := by
    intro hfit
    rw [Trace.NamesFit, ← hnames.length_eq]
    exact hfit
  refine ⟨⟨h.complete, h'.complete⟩, congrArg Origin.baseTime hbase, congrArg Origin.baseStamp hbase,
    hnames, ?_, ?_, ?_, ?_, ?_, ?_, ?_⟩
  · rw [h.map_others, h'.map_others, ho]
    exact (hperm.filter _).map _
  · intro task
    refine ⟨?_, forall₂_recordsOf_of_perm h h' ho hperm task⟩
    rw [h.recordsOf_eq, List.length_map, List.length_take]
    exact Nat.min_le_left _ _
  · intro task thread hthread record hrecord
    have hall : ∀ e ∈ f.events, e.task? = some task → e.thread = thread := by
      intro e he htask
      rw [← h.events] at he
      obtain ⟨x, hx, rfl⟩ := List.mem_map.1 he
      exact hthread x (mem_ofTask.2 ⟨hx, htask⟩)
    rcases List.mem_append.1 hrecord with hrecord | hrecord
    · exact h.thread_eq hall record hrecord
    · exact h'.thread_eq (fun e he => hall e (hperm.mem_iff.2 he)) record hrecord
  · intro hnames q hq task record hrecord p hp
    rcases List.mem_cons.1 hq with rfl | hq
    · exact h.isSome_nameOf? hnames hrecord hp
    · rw [List.mem_singleton.1 hq] at hrecord ⊢
      exact h'.isSome_nameOf? (hfit hnames) hrecord hp
  · intro hnames task
    rw [h.packetsIn_eq hnames, h'.packetsIn_eq (hfit hnames), ho]
    exact perm_of_events h h' hperm task Event.takesIn fun e =>
      (some (StreamName.textOf e.stream), f'.origin.stamp e.packetStamp, some (f'.origin.time e.time))
  · intro hnames task
    rw [h.packetsOut_eq hnames, h'.packetsOut_eq (hfit hnames), ho]
    exact perm_of_events h h' hperm task Event.putsOut fun e =>
      (some (StreamName.textOf e.stream), f'.origin.stamp e.packetStamp)
  · intro hnames honce task
    rw [h.events] at honce
    rw [h.handoversIn_eq hnames, h'.handoversIn_eq (hfit hnames), ho]
    simp only [Frame.producer?_eq_of_perm hperm honce]
    have hpackets := perm_of_events h h' hperm task Event.takesIn fun e =>
      (some (StreamName.textOf e.stream), f'.origin.stamp e.packetStamp,
        (f'.producer? e).map fun p => f'.origin.time p.time, some (f'.origin.time e.time))
    exact hpackets

end Reading

/-! ## Traces of a session -/

namespace Session

/-- The trace of a window does not depend on the order in which the events stand in the buffer. -/
theorem read_sameUpToOrder {s : Session} (h : s.Reachable) {buffer buffer' : List NamedEvent}
    (hperm : buffer.Perm buffer') (w : Window) :
    (s.read buffer w).1.SameUpToOrder (s.read buffer' w).1 := by
  have hids := h.faithful
  have hevents : (w.events buffer).Perm (w.events buffer') := hperm.filter _
  have horigin : s.originAfter (w.events buffer) = s.originAfter (w.events buffer') :=
    s.originAfter_eq_of_perm hevents
  refine Reading.sameUpToOrder_of_perm (shows_read hids buffer w) (shows_read hids buffer' w) ?_
    hevents ?_ ?_
  · rw [traceFrame, traceFrame, horigin]
  · exact congrArg (fun o : Option Origin => o.getD .zero) horigin
  · refine (List.perm_ext_iff_of_nodup (nodup_names _) (nodup_names _)).2 fun text => ?_
    refine (mem_names_trace buffer w hids).trans (Iff.trans ?_ (mem_names_trace buffer' w hids).symm)
    simp only [hevents.mem_iff]

/-- The handover with its events in the opposite order, in a session that has not seen it. -/
theorem read_sameUpToOrder_handover :
    empty.Reachable ∧ handover.Perm handover.reverse ∧ handover ≠ handover.reverse ∧
      (empty.read handover .firstMinute).1.trace.NamesFit ∧
      Event.FinishedOnce ((empty.read handover .firstMinute).1.entries.map Prod.fst) ∧
      (empty.read handover .firstMinute).1.SameUpToOrder
        (empty.read handover.reverse .firstMinute).1 := by
  have hreachable : empty.Reachable := ⟨[], rfl⟩
  have hperm : handover.Perm handover.reverse := (List.reverse_perm handover).symm
  have hnames : ∀ text ∈ empty.streamNames, text ∈ ["", "frames"] := by
    intro text htext
    rw [List.mem_singleton.1 htext]
    exact List.mem_cons_self
  have htexts : ∀ e ∈ handover, StreamName.textOf e.stream ∈ ["", "frames"] := by decide
  refine ⟨hreachable, hperm, by decide, ?_, ?_, read_sameUpToOrder hreachable hperm .firstMinute⟩
  · exact namesFit_read (by decide) (mem_of_mem_names_trace IdTables.faithful_empty hnames
      fun e he _ => htexts e (List.mem_filter.1 he).1)
  · show Event.FinishedOnce ((Window.firstMinute.entries handover).map Prod.fst)
    decide

end Session

end FlowTrace
