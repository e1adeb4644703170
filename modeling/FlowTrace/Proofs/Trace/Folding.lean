import Mathlib.Data.List.Forall2
import FlowTrace.Proofs.Trace.Frame
set_option autoImplicit false

/-!
# Trace: what the records of a trace say

A trace has one record for each task and one for each event outside tasks, in the order in which the
buffer first mentions them; the record of a task is made from all entries of the task and from no
others.  A packet taken in is traced back to the last finish of its hop inside the same window, by
the text of its stream, whatever ids and allocations are in use.
-/

namespace FlowTrace

open Entries

/-- The time and the stamp that count as 0 in a trace. -/
def Trace.origin (t : Trace) : Origin := ⟨t.baseTime, t.baseStamp⟩

/-! ## One record for each task -/

/-- The packet that the event took in, as far as the event itself decides it. -/
structure StreamRecord.ShowsInput (ids : IdTables) (o : Origin) (e : NamedEvent)
    (h : StreamRecord) : Prop where
  finishTime : h.finishTime = some (o.time e.time)
  packetStamp : h.packetStamp = o.stamp e.packetStamp
  streamId : h.streamId = ids.streamId e.stream
  payloadId : h.payloadId = some (ids.payloadId e.payload)

/-- The packet that the event put out. -/
structure StreamRecord.ShowsOutput (ids : IdTables) (o : Origin) (e : NamedEvent)
    (h : StreamRecord) : Prop where
  startTime : h.startTime = none
  finishTime : h.finishTime = none
  packetStamp : h.packetStamp = o.stamp e.packetStamp
  streamId : h.streamId = ids.streamId e.stream
  payloadId : h.payloadId = none

/-- The record says what the entries of one task say together. -/
structure TaskRecord.Folds (ids : IdTables) (o : Origin) (members : List Entry)
    (r : TaskRecord) : Prop where
  first : ∃ x, members.head? = some x ∧ r.node = x.1.node ∧ r.kind = x.1.kind ∧
    r.thread = x.1.thread ∧
    r.inputStamp = if x.1.inputStamp = .unset then none else some (o.stamp x.1.inputStamp)
  startTime : r.startTime =
    (((members.filter fun x => !x.1.isFinish).map fun x => x.1.time).min?).map o.time
  finishTime : r.finishTime =
    (((members.filter fun x => x.1.isFinish).map fun x => x.1.time).min?).map o.time
  inputs : List.Forall₂ (fun x h => StreamRecord.ShowsInput ids o x.1 h)
    (members.filter fun x => x.1.kind.isHop && x.1.stream.isSome && !x.1.isFinish) r.inputs
  outputs : List.Forall₂ (fun x h => StreamRecord.ShowsOutput ids o x.1 h)
    (members.filter fun x => x.1.kind.isHop && x.1.stream.isSome && x.1.isFinish) r.outputs

/-- The record of an event outside tasks: its own fields and time, and no packets. -/
def TaskRecord.plain (o : Origin) (e : NamedEvent) : TaskRecord where
  node := e.node
  inputStamp := if e.inputStamp = .unset then none else some (o.stamp e.inputStamp)
  kind := e.kind
  startTime := if e.isFinish then none else some (o.time e.time)
  finishTime := if e.isFinish then some (o.time e.time) else none
  inputs := []
  outputs := []
  thread := e.thread

/-- The trace has exactly one record for each task and for each event outside tasks. -/
structure Trace.OneRecordEach (t : Trace) (ids : IdTables) (xs : List Entry) : Prop where
  /-- the records stand in the order of first occurrence -/
  records : List.Forall₂
    (fun x r => match x.1.task? with
      | some task => TaskRecord.Folds ids t.origin (ofTask xs task) r
      | none => r = TaskRecord.plain t.origin x.1)
    (leads xs) t.records
  /-- no task has two records -/
  tasks : ((leads xs).filterMap fun x => x.1.task?).Nodup
  /-- no entry is lost or counted twice -/
  shares : ((leads xs).flatMap (share xs)).Perm xs
  /-- entries are in one record just if they agree in calculator, input stamp and kind, and the kind
  belongs to tasks -/
  together : ∀ x ∈ xs, ∀ y ∈ xs,
    (∃ lead ∈ leads xs, x ∈ share xs lead ∧ y ∈ share xs lead) ↔ x = y ∨ x.1.SameTask y.1

theorem Frame.eventRecord_of_outside (f : Frame) {e : NamedEvent} (h : e.task? = none) :
    f.eventRecord e = TaskRecord.plain f.origin e := by
  have hhop := Event.isHop_of_task?_eq_none h
  simp [eventRecord, TaskRecord.plain, Origin.inputStamp, Event.takesIn, Event.putsOut,
    Event.describesHop, hhop]

theorem Frame.folds_taskRecord (f : Frame) {members : List Entry} (h : members ≠ []) :
    TaskRecord.Folds f.ids f.origin members (f.taskRecord (members.map Prod.fst)) := by
  obtain ⟨x, rest, rfl⟩ := List.exists_cons_of_ne_nil h
  refine ⟨⟨x, rfl, rfl, rfl, rfl, rfl⟩, ?_, ?_, ?_, ?_⟩
  · rw [taskRecord_startTime, Origin.earliest?, List.filter_map, List.map_map]
    rfl
  · rw [taskRecord_finishTime, Origin.earliest?, List.filter_map, List.map_map]
    rfl
  · rw [taskRecord_inputs, List.filter_map, List.map_map, List.forall₂_map_right_iff]
    exact List.forall₂_same.2 fun y _ => ⟨rfl, rfl, rfl, rfl⟩
  · rw [taskRecord_outputs, List.filter_map, List.map_map, List.forall₂_map_right_iff]
    exact List.forall₂_same.2 fun y _ => ⟨rfl, rfl, rfl, rfl, rfl⟩

theorem Entries.nodup_tasks_leads {xs : List Entry} (h : Ascending xs) :
    ((leads xs).filterMap fun x => x.1.task?).Nodup := by
  rw [List.Nodup, List.pairwise_filterMap]
  refine List.Pairwise.imp_of_mem ?_ (h.nodup.filter _)
  rintro x x' hx hx' hne task htask _ htask' rfl
  have hhead := head?_ofTask_of_mem_leads h hx htask
  rw [head?_ofTask_of_mem_leads h hx' htask'] at hhead
  exact hne (Option.some.inj hhead).symm

/-- A trace has one record for each task, made from the entries of the task, and one for each event
outside tasks. -/
theorem Session.trace_oneRecordEach {s : Session} (h : s.Reachable) (buffer : List NamedEvent)
    (w : Window) :
    (s.trace buffer w).1.OneRecordEach (s.trace buffer w).2.ids (w.entries buffer) := by
  have hascending := w.ascending_entries buffer
  refine ⟨?_, nodup_tasks_leads hascending, perm_flatMap_share hascending,
    fun x hx y hy => exists_lead_iff hascending hx hy⟩
  rw [trace_records buffer w h.faithful, List.forall₂_map_right_iff, List.forall₂_same]
  intro x hx
  cases htask : x.1.task? with
  | none =>
    simp only [Frame.openedRecord, htask]
    exact Frame.eventRecord_of_outside _ htask
  | some task =>
    have hne := ofTask_ne_nil_of_mem_leads hascending hx htask
    simp only [Frame.openedRecord, htask]
    exact Frame.folds_taskRecord (s.traceFrame buffer w) hne

theorem Instant.valid_of_fin (n : Fin 60) : Valid (Int.ofNat n.val) 0 := by
  have hn := n.isLt
  simp only [Valid, minSecond, maxSecond, secondNanos, Int.ofNat_eq_natCast]
  omega

/-- A second of the first minute of the epoch. -/
def Instant.ofSecond (n : Fin 60) : Instant := ⟨Int.ofNat n.val, 0, valid_of_fin n⟩

/-- A packet goes from calculator 1 to calculator 2 while both are at work, and calculator 3 gets
ready in between. -/
def handover : List NamedEvent :=
  [⟨.ofSecond 0, 1, ⟨10⟩, ⟨10⟩, .processed, none, none, 7, false⟩,
   ⟨.ofSecond 3, 2, ⟨10⟩, ⟨10⟩, .processed, some ⟨"frames", 0⟩, some 64, 8, false⟩,
   ⟨.ofSecond 1, 3, ⟨10⟩, ⟨10⟩, .readyForProcess, none, none, 7, false⟩,
   ⟨.ofSecond 2, 1, ⟨10⟩, ⟨10⟩, .processed, some ⟨"frames", 1⟩, some 64, 7, true⟩,
   ⟨.ofSecond 4, 2, ⟨10⟩, ⟨10⟩, .processed, none, none, 8, true⟩]

/-- All of the first minute of the epoch but its last second. -/
def Window.firstMinute : Window := ⟨.ofSecond 0, .ofSecond 59⟩

/-- The session after a trace of the handover. -/
def Session.traced : Session := (run empty [.trace handover .firstMinute]).2

theorem Session.reachable_traced : traced.Reachable := ⟨_, rfl⟩

/-- Calculator 1 is at work on two input stamps at once and gets ready twice in between, and it is
closed with the first of them. -/
def overlap : List NamedEvent :=
  [⟨.ofSecond 0, 1, ⟨10⟩, ⟨10⟩, .processed, none, none, 7, false⟩,
   ⟨.ofSecond 1, 1, ⟨20⟩, ⟨20⟩, .processed, none, none, 8, false⟩,
   ⟨.ofSecond 2, 1, ⟨10⟩, ⟨10⟩, .readyForProcess, none, none, 7, false⟩,
   ⟨.ofSecond 3, 1, ⟨10⟩, ⟨10⟩, .readyForProcess, none, none, 7, false⟩,
   ⟨.ofSecond 4, 1, ⟨20⟩, ⟨20⟩, .processed, some ⟨"frames", 0⟩, none, 8, true⟩,
   ⟨.ofSecond 5, 1, ⟨10⟩, ⟨10⟩, .processed, none, none, 7, true⟩,
   ⟨.ofSecond 6, 1, ⟨10⟩, ⟨10⟩, .closed, none, none, 7, true⟩]

/-- The overlap has five records of one calculator: three tasks, which differ in their stamps or in
their kinds, and two events outside tasks. -/
theorem Session.trace_oneRecordEach_overlap :
    traced.Reachable ∧
      (traced.trace overlap .firstMinute).1.records.map
          (fun r => (r.node, r.inputStamp, r.kind, r.startTime, r.finishTime)) =
        [(1, some 0, .processed, some 0, some 5000000),
         (1, some 10, .processed, some 1000000, some 4000000),
         (1, some 0, .readyForProcess, some 2000000, none),
         (1, some 0, .readyForProcess, some 3000000, none),
         (1, some 0, .closed, none, some 6000000)] ∧
      (traced.trace overlap .firstMinute).1.OneRecordEach
        (traced.trace overlap .firstMinute).2.ids (Window.firstMinute.entries overlap) := by
  have heach := trace_oneRecordEach reachable_traced overlap .firstMinute
  refine ⟨reachable_traced, ?_, heach⟩
  rw [trace_records overlap .firstMinute reachable_traced.faithful]
  decide +kernel

/-! ## Where packets came from -/

/-- The packet that the event took in shows when its producer was done: the last entry that finished
the same hop in the same window, before or after the event, and none if there is no such entry. -/
structure StreamRecord.ShowsHandover (o : Origin) (xs : List Entry) (e : NamedEvent)
    (h : StreamRecord) : Prop where
  resolved : h.startTime.isSome = true ↔ ∃ p ∈ xs, p.1.Produces e
  last : ∀ p ∈ xs, p.1.Produces e → (∀ q ∈ xs, q.1.Produces e → q.2 ≤ p.2) →
    h.startTime = some (o.time p.1.time)
  finishTime : h.finishTime = some (o.time e.time)
  packetStamp : h.packetStamp = o.stamp e.packetStamp

/-- Every packet taken in by a task of the trace shows its handover. -/
def Trace.ShowsHandovers (t : Trace) (xs : List Entry) : Prop :=
  List.Forall₂
    (fun x r => ∀ task, x.1.task? = some task →
      List.Forall₂ (fun y h => StreamRecord.ShowsHandover t.origin xs y.1 h)
        ((ofTask xs task).filter fun y => y.1.takesIn) r.inputs)
    (leads xs) t.records

theorem Frame.showsHandover (f : Frame) {xs : List Entry} (hxs : Ascending xs)
    (hevents : xs.map Prod.fst = f.events) (e : NamedEvent) :
    StreamRecord.ShowsHandover f.origin xs e (f.inputPacket e) := by
  have hproducer := f.producer?_eq hevents e
  refine ⟨?_, ?_, rfl, rfl⟩
  · rw [inputPacket, Option.isSome_map, hproducer, Option.isSome_map, List.getLast?_isSome]
    simp [List.filter_eq_nil_iff]
  · intro p hp hproduces hlast
    have hfound : (xs.filter fun x => x.1.Produces e).getLast? = some p := by
      refine (hxs.filter _).getLast?_eq ?_ ?_
      · exact List.mem_filter.2 ⟨hp, decide_eq_true hproduces⟩
      · intro q hq
        obtain ⟨hin, hq⟩ := List.mem_filter.1 hq
        exact hlast q hin (of_decide_eq_true hq)
    rw [inputPacket, hproducer, hfound]
    rfl

theorem Session.trace_showsHandovers {s : Session} (hs : s.ids.Faithful)
    (buffer : List NamedEvent) (w : Window) :
    (s.trace buffer w).1.ShowsHandovers (w.entries buffer) := by
  rw [Trace.ShowsHandovers, trace_records buffer w hs, List.forall₂_map_right_iff,
    List.forall₂_same]
  intro x _ task htask
  simp only [Frame.openedRecord, htask]
  rw [Frame.taskRecord_inputs, List.filter_map, List.map_map, List.forall₂_map_right_iff]
  refine List.forall₂_same.2 fun y _ => ?_
  exact (s.traceFrame buffer w).showsHandover (w.ascending_entries buffer)
    (w.map_fst_entries buffer) y.1

/-- In any run, every trace that is asked for shows for every packet taken in when the last producer
in its own window was done. -/
theorem Session.run_trace_showsHandovers (before after : List SessionCall)
    (buffer : List NamedEvent) (w : Window) :
    ∃ t : Trace,
      (run empty (before ++ .trace buffer w :: after)).1[before.length]? = some (some t) ∧
      t.ShowsHandovers (w.entries buffer) := by
  have hfaithful : (run empty before).2.ids.Faithful := faithful_run IdTables.faithful_empty before
  refine ⟨((run empty before).2.trace buffer w).1, ?_, trace_showsHandovers hfaithful buffer w⟩
  have hlength : (run empty before).1.length = before.length := length_mapThrough call empty before
  rw [run, mapThrough_append, mapThrough_cons]
  rw [← run, List.getElem?_append_right (Nat.le_of_eq hlength), hlength, Nat.sub_self]
  rfl

end FlowTrace
