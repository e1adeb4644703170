import Mathlib.Order.Bounds.Basic
import FlowTrace.Proofs.Trace.Growth
set_option autoImplicit false

/-!
# Trace: what filing leaves

Filing looks at the events once and fills two indices and a table of ids on the way, where the keys of
one index are ids given a moment before.  What is left can be told from the events alone
(`EventIndex.Files`): each task has the positions of its events, each hop the last position that
finished it, and the names that are new follow the old ones.  Nothing is left of what the index held
before, so every position found leads to one of the events, even after more of them were filed.
-/

namespace FlowTrace

open Entries

/-! ## Ids that come about -/

namespace StreamIds

/-- The ids come about by numbering names and by forgetting them. -/
inductive Reachable : StreamIds → Prop where
  | empty : Reachable NameIds.empty
  | internName {t : StreamIds} (name : Option StreamName) :
    Reachable t → Reachable (t.internName name).2
  | clear {t : StreamIds} : Reachable t → Reachable t.clear

theorem Reachable.faithful {t : StreamIds} (h : Reachable t) : t.Faithful := by
  induction h with
  | empty => exact faithful_empty
  | internName name _ ih => exact faithful_internName ih name
  | clear => exact faithful_clear _

end StreamIds

/-! ## What is filed -/

/-- The task of the event at a position, where there is an event with one. -/
def EventIndex.taskAt? (events : List NamedEvent) (position : Nat) : Option TaskId :=
  events[position]?.bind Event.task?

/-- The positions of the events that finished the hop, if `streams` gives the ids of their
streams. -/
def HopId.finishes (hop : HopId) (streams : StreamIds) (events : List NamedEvent) : Set Nat :=
  {position | ∃ e, events[position]? = some e ∧ e.kind.isTask = true ∧ e.isFinish = true ∧
    (HopId.ofEvent e streams).1 = hop}

/-- What an index and ids hold after some events were filed, if the ids were `start` before. -/
structure EventIndex.Files (start : StreamIds) (events : List NamedEvent)
    (filed : EventIndex × StreamIds) : Prop where
  /-- the tasks with a list are those of the events -/
  tasks : ∀ task, task ∈ filed.1.tasks ↔ ∃ e ∈ events, e.task? = some task
  /-- a list is never empty, ascends, and holds the positions of the events of its task -/
  lists : ∀ task positions, filed.1.tasks[task]? = some positions →
    positions ≠ #[] ∧ positions.toList.Pairwise (· < ·) ∧
      ∀ position, position ∈ positions ↔ taskAt? events position = some task
  /-- every position of an event with a task is in the list of exactly one task -/
  parts : ∀ position e, events[position]? = some e → e.kind.isTask = true →
    ∃! task, position ∈ filed.1.taskPositions task
  /-- the hops with a position are those that events finished -/
  finished : ∀ hop : HopId, hop ∈ filed.1.hops ↔ (hop.finishes filed.2 events).Nonempty
  /-- the position of a hop is that of the last event that finished it -/
  hops : ∀ (hop : HopId) (position : Nat), filed.1.hops[hop]? = some position ↔
    IsGreatest (hop.finishes filed.2 events) position
  /-- every position found is one of an event -/
  inside : (∀ task, ∀ position ∈ filed.1.taskPositions task, position < events.length) ∧
    ∀ hop position, filed.1.hopPosition? hop = some position → position < events.length
  /-- so a view of the events finds an event at every position that it looks up -/
  reads : ∀ o : Origin,
    (∀ task, ((TaskView.mk o events.toArray filed.1).members task).length =
      (filed.1.taskPositions task).length) ∧
    ∀ hop, ((TaskView.mk o events.toArray filed.1).producedAt? hop).isSome =
      (filed.1.hopPosition? hop).isSome
  /-- the names that are new follow the old ones, in the order of their first events -/
  names : filed.2.names = start.names ++
    (((events.filter fun e => e.kind.isTask).map fun e => StreamName.textOf e.stream).filter
      fun text => text ∉ start.names).eraseDups

namespace EventIndex

variable {index : EventIndex} {events : List NamedEvent} {start : StreamIds}
  {filed : EventIndex × StreamIds}

/-! ## Positions -/

theorem mem_positions_iff {task : TaskId} {position : Nat} :
    position ∈ (ofTask events.zipIdx task).map Prod.snd ↔
      taskAt? events position = some task := by
  simp only [List.mem_map, mem_ofTask, taskAt?, Option.bind_eq_some_iff]
  constructor
  · rintro ⟨x, ⟨hx, htask⟩, rfl⟩
    exact ⟨x.1, List.mem_zipIdx_iff_getElem?.1 hx, htask⟩
  · rintro ⟨e, he, htask⟩
    exact ⟨(e, position), ⟨List.mem_zipIdx_iff_getElem?.2 he, htask⟩, rfl⟩

theorem lt_length_of_taskAt? {task : TaskId} {position : Nat}
    (h : taskAt? events position = some task) : position < events.length := by
  obtain ⟨e, he, -⟩ := Option.bind_eq_some_iff.1 h
  exact (List.getElem?_eq_some_iff.1 he).1

theorem mem_taskPositions_iff (h : Covers start events.zipIdx filed) {task : TaskId}
    {position : Nat} :
    position ∈ filed.1.taskPositions task ↔ taskAt? events position = some task := by
  rw [h.tasks task, mem_positions_iff]

theorem lt_length_of_taskPositions (h : Covers start events.zipIdx filed) {task : TaskId}
    {position : Nat} (hposition : position ∈ filed.1.taskPositions task) :
    position < events.length :=
  lt_length_of_taskAt? ((mem_taskPositions_iff h).1 hposition)

theorem pairwise_taskPositions (h : Covers start events.zipIdx filed) (task : TaskId) :
    (filed.1.taskPositions task).Pairwise (· < ·) := by
  rw [h.tasks task]
  exact List.pairwise_map.2 ((ascending_zipIdx events).filter _)

theorem taskAt?_of_getElem? {position : Nat} {e : NamedEvent} (h : events[position]? = some e) :
    taskAt? events position = e.task? := by
  rw [taskAt?, h, Option.bind_some]

/-- An event with a task is filed under this task and under no other. -/
theorem existsUnique_taskPositions (h : Covers start events.zipIdx filed) {position : Nat}
    {e : NamedEvent} (he : events[position]? = some e) (hkind : e.kind.isTask = true) :
    ∃! task, position ∈ filed.1.taskPositions task := by
  have htask : taskAt? events position = some (TaskId.ofEvent e) :=
    (taskAt?_of_getElem? he).trans (if_pos hkind)
  refine ⟨TaskId.ofEvent e, (mem_taskPositions_iff h).2 htask, fun task hposition => ?_⟩
  have hsame := (mem_taskPositions_iff h).1 hposition
  exact Option.some.inj (hsame.symm.trans htask)

theorem taskPositions_ne_nil_iff (h : Covers start events.zipIdx filed) {task : TaskId} :
    filed.1.taskPositions task ≠ [] ↔ ∃ e ∈ events, e.task? = some task := by
  constructor
  · intro hlist
    obtain ⟨position, hposition⟩ := List.exists_mem_of_ne_nil _ hlist
    rw [mem_taskPositions_iff h] at hposition
    obtain ⟨e, he, htask⟩ := Option.bind_eq_some_iff.1 hposition
    exact ⟨e, List.mem_of_getElem? he, htask⟩
  · rintro ⟨e, he, htask⟩
    obtain ⟨position, hposition⟩ := List.mem_iff_getElem?.1 he
    have hfiled := (taskAt?_of_getElem? hposition).trans htask
    exact List.ne_nil_of_mem ((mem_taskPositions_iff h).2 hfiled)

theorem taskPositions_of_getElem? {task : TaskId} {positions : Array Nat}
    (h : index.tasks[task]? = some positions) : index.taskPositions task = positions.toList := by
  rw [taskPositions, Std.HashMap.getD_eq_getD_getElem?, h, Option.getD_some]

/-- A task has a list where it has positions, if lists are never empty. -/
theorem mem_tasks_iff {task : TaskId} (h : index.tasks[task]? ≠ some #[]) :
    task ∈ index.tasks ↔ index.taskPositions task ≠ [] := by
  rw [Std.HashMap.mem_iff_isSome_getElem?, taskPositions, Std.HashMap.getD_eq_getD_getElem?]
  cases hlist : index.tasks[task]? with
  | none => simp
  | some positions =>
    have hne : positions ≠ #[] := fun hempty => h (hlist.trans (congrArg some hempty))
    simpa using hne

/-- A list is only made to put a position into it. -/
theorem tasks_add_ne_empty {state : EventIndex × StreamIds} {task : TaskId}
    (h : state.1.tasks[task]? ≠ some #[]) (x : Entry) :
    (EventIndex.add state x).1.tasks[task]? ≠ some #[] := by
  obtain ⟨index, streams⟩ := state
  obtain ⟨e, position⟩ := x
  cases hkind : e.kind.isTask with
  | false => rwa [add_of_outside hkind]
  | true =>
    rw [add_of_task hkind]
    show (index.tasks.alter _ _)[task]? ≠ _
    rw [Std.HashMap.getElem?_alter]
    split
    · simp
    · exact h

theorem tasks_rebuild_ne_empty (index : EventIndex) (events : List NamedEvent) (streams : StreamIds)
    (task : TaskId) : (index.rebuild events streams).1.tasks[task]? ≠ some #[] := by
  refine List.foldlRecOn (motive := fun state : EventIndex × StreamIds =>
    state.1.tasks[task]? ≠ some #[]) events.zipIdx add ?_ fun state hstate x _ => ?_
  · simp [clear]
  · exact tasks_add_ne_empty hstate x

/-! ## Hops -/

/-- The last of some ascending entries has the greatest position. -/
theorem getLast?_eq_some_iff {xs : List Entry} (h : Ascending xs) {position : Nat} :
    xs.getLast?.map Prod.snd = some position ↔
      IsGreatest {place | ∃ x ∈ xs, x.2 = place} position := by
  constructor
  · intro hlast
    obtain ⟨x, hx, rfl⟩ := Option.map_eq_some_iff.1 hlast
    obtain ⟨ys, rfl⟩ := List.getLast?_eq_some_iff.1 hx
    refine ⟨⟨x, List.mem_append_right _ (List.mem_singleton_self x), rfl⟩, ?_⟩
    rintro place ⟨y, hy, rfl⟩
    rcases List.mem_append.1 hy with hy | hy
    · exact Nat.le_of_lt ((List.pairwise_append.1 h).2.2 y hy x (List.mem_singleton_self x))
    · rw [List.mem_singleton.1 hy]
  · rintro ⟨⟨x, hx, rfl⟩, hgreatest⟩
    rw [h.getLast?_eq hx fun y hy => hgreatest ⟨y, hy, rfl⟩, Option.map_some]

/-- An event whose stream has an id finished the hop that it belongs to. -/
theorem finishedBy_iff {streams : StreamIds} (h : streams.Faithful) {e : NamedEvent}
    (hknown : e.kind.isTask = true → ∃ id, streams.id? (StreamName.textOf e.stream) = some id)
    (hop : HopId) : hop.FinishedBy streams e ↔
      e.kind.isTask = true ∧ e.isFinish = true ∧ (HopId.ofEvent e streams).1 = hop := by
  -- `ofEvent` may give the stream an id, but here it has one, so nothing grows
  constructor
  · intro hfin
    have hgrown :=
      (finishedBy_iff_of_grown (StreamIds.grown_internName h e.stream) hknown hop).2 hfin
    exact ⟨hfin.1, hfin.2.1, (ofEvent_eq_iff h hfin.1 hfin.2.1 hop).2 hgrown⟩
  · rintro ⟨hkind, hfinish, hof⟩
    have hfin := (ofEvent_eq_iff h hkind hfinish hop).1 hof
    exact (finishedBy_iff_of_grown (StreamIds.grown_internName h e.stream) hknown hop).1 hfin

theorem mem_finishes_iff (h : Covers start events.zipIdx filed) {hop : HopId} {position : Nat} :
    position ∈ hop.finishes filed.2 events ↔
      ∃ x ∈ events.zipIdx.filter fun x => hop.FinishedBy filed.2 x.1, x.2 = position := by
  simp only [HopId.finishes, Set.mem_ofPred_eq, List.mem_filter, decide_eq_true_eq]
  constructor
  · rintro ⟨e, he, hfin⟩
    have hx : (e, position) ∈ events.zipIdx := List.mem_zipIdx_iff_getElem?.2 he
    exact ⟨(e, position), ⟨hx, (finishedBy_iff h.faithful (h.known _ hx) hop).2 hfin⟩, rfl⟩
  · rintro ⟨x, ⟨hx, hfin⟩, rfl⟩
    exact ⟨x.1, List.mem_zipIdx_iff_getElem?.1 hx,
      (finishedBy_iff h.faithful (h.known x hx) hop).1 hfin⟩

theorem hopPosition?_eq_some_iff (h : Covers start events.zipIdx filed) (hop : HopId)
    (position : Nat) : filed.1.hopPosition? hop = some position ↔
      IsGreatest (hop.finishes filed.2 events) position := by
  have hplaces : hop.finishes filed.2 events =
      {place | ∃ x ∈ events.zipIdx.filter fun x => hop.FinishedBy filed.2 x.1, x.2 = place} :=
    Set.ext fun _ => mem_finishes_iff h
  rw [h.hops hop, getLast?_eq_some_iff ((ascending_zipIdx events).filter _), hplaces]

theorem mem_hops_iff (h : Covers start events.zipIdx filed) (hop : HopId) :
    hop ∈ filed.1.hops ↔ (hop.finishes filed.2 events).Nonempty := by
  have hlookup : filed.1.hops[hop]? = _ := h.hops hop
  rw [Std.HashMap.mem_iff_isSome_getElem?, hlookup, Option.isSome_map, List.getLast?_isSome]
  constructor
  · intro hsome
    obtain ⟨x, hx⟩ := List.exists_mem_of_ne_nil _ hsome
    exact ⟨x.2, (mem_finishes_iff h).2 ⟨x, hx, rfl⟩⟩
  · rintro ⟨position, hposition⟩
    obtain ⟨x, hx, -⟩ := (mem_finishes_iff h).1 hposition
    exact List.ne_nil_of_mem hx

theorem lt_length_of_finishes {hop : HopId} {streams : StreamIds} {position : Nat}
    (h : position ∈ hop.finishes streams events) : position < events.length := by
  obtain ⟨e, he, -⟩ := h
  exact (List.getElem?_eq_some_iff.1 he).1

theorem lt_length_of_hopPosition? (h : Covers start events.zipIdx filed) {hop : HopId}
    {position : Nat} (hposition : filed.1.hopPosition? hop = some position) :
    position < events.length :=
  lt_length_of_finishes ((hopPosition?_eq_some_iff h hop position).1 hposition).1

/-! ## Views -/

/-- No position of a task is passed over. -/
theorem length_members {task : TaskId}
    (h : ∀ position ∈ index.taskPositions task, position < events.length) (o : Origin) :
    ((TaskView.mk o events.toArray index).members task).length =
      (index.taskPositions task).length :=
  List.filterMap_length_eq_length.2 fun position hposition => by simp [h position hposition]

/-- The producer of a hop is found where the hop has a position. -/
theorem isSome_producedAt? {hop : HopId}
    (h : ∀ position, index.hopPosition? hop = some position → position < events.length)
    (o : Origin) :
    ((TaskView.mk o events.toArray index).producedAt? hop).isSome =
      (index.hopPosition? hop).isSome := by
  rw [TaskView.producedAt?, Option.isSome_map]
  cases hposition : index.hopPosition? hop with
  | none => rfl
  | some position => simp [h position hposition]

/-! ## Names -/

theorem flatMap_filedTexts (events : List NamedEvent) :
    events.flatMap Event.filedTexts =
      (events.filter fun e => e.kind.isTask).map fun e => StreamName.textOf e.stream := by
  induction events with
  | nil => rfl
  | cons e events ih =>
    rw [List.flatMap_cons, ih]
    cases hkind : e.kind.isTask <;> simp [Event.filedTexts, hkind]

theorem names_rebuild_eq_append (index : EventIndex) (events : List NamedEvent)
    (h : start.Faithful) : (index.rebuild events start).2.names = start.names ++
      (((events.filter fun e => e.kind.isTask).map fun e => StreamName.textOf e.stream).filter
        fun text => text ∉ start.names).eraseDups := by
  rw [names_rebuild index events h, flatMap_filedTexts, List.eraseDups_append,
    eraseDups_of_nodup start.nodup_names, List.removeAll]
  simp

/-! ## Filing -/

/-- Filing leads from ids that come about to ids that come about. -/
theorem reachable_rebuild (index : EventIndex) (events : List NamedEvent) (h : start.Reachable) :
    (index.rebuild events start).2.Reachable := by
  rw [rebuild]
  refine List.foldlRecOn (motive := fun state : EventIndex × StreamIds => state.2.Reachable)
    events.zipIdx add h fun state hstate x _ => ?_
  obtain ⟨index, streams⟩ := state
  obtain ⟨e, position⟩ := x
  cases hkind : e.kind.isTask with
  | false => rwa [add_of_outside hkind]
  | true =>
    rw [add_of_task hkind]
    exact hstate.internName e.stream

/-- Whatever the index held before, and whatever the ids are that names were given, filing leaves
positions and names as the events have them. -/
theorem files_rebuild (index : EventIndex) (events : List NamedEvent) (h : start.Reachable) :
    Files start events (index.rebuild events start) := by
  have hcovers := covers_rebuild index events h.faithful
  constructor
  case tasks =>
    intro task
    rw [mem_tasks_iff (tasks_rebuild_ne_empty index events start task),
      taskPositions_ne_nil_iff hcovers]
  case lists =>
    intro task positions hpositions
    have hlist := taskPositions_of_getElem? hpositions
    refine ⟨?_, ?_, fun position => ?_⟩
    · rintro rfl
      exact tasks_rebuild_ne_empty index events start task hpositions
    · rw [← hlist]
      exact pairwise_taskPositions hcovers task
    · rw [← mem_taskPositions_iff hcovers, hlist, Array.mem_toList_iff]
  case parts => exact fun position e he hkind => existsUnique_taskPositions hcovers he hkind
  case finished => exact mem_hops_iff hcovers
  case hops => exact hopPosition?_eq_some_iff hcovers
  case inside =>
    exact ⟨fun task position => lt_length_of_taskPositions hcovers,
      fun hop position => lt_length_of_hopPosition? hcovers⟩
  case reads =>
    intro o
    exact ⟨fun task => length_members (fun position => lt_length_of_taskPositions hcovers) o,
      fun hop => isSome_producedAt? (fun position => lt_length_of_hopPosition? hcovers) o⟩
  case names => exact names_rebuild_eq_append index events h.faithful

/-- What the events of the handover leave. -/
def filedHandover : EventIndex × StreamIds := EventIndex.empty.rebuild handover NameIds.empty

/-- The consumer of the handover has two events, and one when only the first two events are filed
again. -/
theorem files_rebuild_handover :
    filedHandover.2.Reachable ∧
      filedHandover.1.taskPositions ⟨2, ⟨10⟩, .processed⟩ = [1, 4] ∧
      Files filedHandover.2 (handover.take 2)
        (filedHandover.1.rebuild (handover.take 2) filedHandover.2) ∧
      (filedHandover.1.rebuild (handover.take 2) filedHandover.2).1.taskPositions
        ⟨2, ⟨10⟩, .processed⟩ = [1] := by
  have hreachable : filedHandover.2.Reachable :=
    reachable_rebuild EventIndex.empty handover .empty
  have hfiled := covers_rebuild EventIndex.empty handover StreamIds.faithful_empty
  have hagain := covers_rebuild filedHandover.1 (handover.take 2) hreachable.faithful
  refine ⟨hreachable, (hfiled.tasks _).trans (by decide), ?_, (hagain.tasks _).trans (by decide)⟩
  exact files_rebuild filedHandover.1 (handover.take 2) hreachable

end EventIndex

end FlowTrace
