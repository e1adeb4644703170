import FlowTrace.Proofs.Naming.Ids
import FlowTrace.Proofs.Trace.Entries
set_option autoImplicit false

/-!
# Trace: what an index holds

One pass over the events gives ids to streams and files positions under them at the same time.
`EventIndex.Covers` says what the index holds after some entries: the positions of each task in
order, and for each hop the position of the last event that finished it.  It is kept by every
further entry, because an event that has been filed keeps the id it was filed under.
-/

namespace FlowTrace

open Entries

/-- The event finished the hop, where `streams` gives the hop's id to its stream. -/
def HopId.FinishedBy (hop : HopId) (streams : StreamIds) (e : NamedEvent) : Prop :=
  e.kind.isTask = true ∧ e.isFinish = true ∧
    streams.id? (StreamName.textOf e.stream) = some hop.streamId ∧
    e.packetStamp = hop.packetStamp ∧ e.kind = hop.kind

instance (hop : HopId) (streams : StreamIds) (e : NamedEvent) :
    Decidable (hop.FinishedBy streams e) :=
  inferInstanceAs (Decidable (_ ∧ _ ∧ _ ∧ _ ∧ _))

namespace EventIndex

theorem add_of_outside {e : NamedEvent} (h : e.kind.isTask = false) (position : Nat)
    (index : EventIndex) (streams : StreamIds) :
    add (index, streams) (e, position) = (index, streams) := by
  simp [add, h]

theorem add_of_task {e : NamedEvent} (h : e.kind.isTask = true) (position : Nat)
    (index : EventIndex) (streams : StreamIds) :
    add (index, streams) (e, position) =
      (⟨index.tasks.alter (TaskId.ofEvent e) fun positions =>
          some ((positions.getD #[]).push position),
        if e.isFinish then index.hops.insert (HopId.ofEvent e streams).1 position
        else index.hops⟩,
        (HopId.ofEvent e streams).2) := by
  simp [add, h]

/-- What an index and the ids hold after some entries, if the ids were `start` before. -/
structure Covers (start : StreamIds) (xs : List Entry) (state : EventIndex × StreamIds) : Prop where
  faithful : state.2.Faithful
  grown : start.names <+: state.2.names
  known : ∀ x ∈ xs, x.1.kind.isTask = true →
    ∃ id, state.2.id? (StreamName.textOf x.1.stream) = some id
  texts : ∀ text ∈ state.2.names, text ∈ start.names ∨
    ∃ x ∈ xs, x.1.kind.isTask = true ∧ StreamName.textOf x.1.stream = text
  tasks : ∀ task, state.1.taskPositions task = (ofTask xs task).map Prod.snd
  hops : ∀ hop : HopId, state.1.hopPosition? hop =
    ((xs.filter fun x => hop.FinishedBy state.2 x.1).getLast?).map Prod.snd

/-- Nothing is left of what was indexed before. -/
theorem covers_clear (index : EventIndex) {start : StreamIds} (h : start.Faithful) :
    Covers start [] (index.clear, start) where
  faithful := h
  grown := List.prefix_refl _
  known x hx := absurd hx (List.not_mem_nil)
  texts text htext := .inl htext
  tasks task := by simp [taskPositions, clear, ofTask, Std.HashMap.getD_eq_getD_getElem?]
  hops hop := by simp [hopPosition?, clear]

/-- An event finishes the hop it belongs to, and under grown ids no other. -/
theorem ofEvent_eq_iff {e : NamedEvent} {streams : StreamIds} (h : streams.Faithful)
    (hkind : e.kind.isTask = true) (hfinish : e.isFinish = true) (hop : HopId) :
    (HopId.ofEvent e streams).1 = hop ↔ hop.FinishedBy (HopId.ofEvent e streams).2 e := by
  have hid := StreamIds.id?_internName h e.stream
  obtain ⟨streamId, packetStamp, kind⟩ := hop
  simp [HopId.FinishedBy, HopId.ofEvent, hkind, hfinish, hid]

/-- An event whose stream has an id finished the same hops under grown ids. -/
theorem finishedBy_iff_of_grown {streams grown : StreamIds} (h : streams.names <+: grown.names)
    {e : NamedEvent} (hknown : e.kind.isTask = true →
      ∃ id, streams.id? (StreamName.textOf e.stream) = some id) (hop : HopId) :
    hop.FinishedBy grown e ↔ hop.FinishedBy streams e := by
  by_cases hkind : e.kind.isTask = true
  · obtain ⟨id, hid⟩ := hknown hkind
    have hid' : grown.id? (StreamName.textOf e.stream) = some id := IdTable.id?_of_grown h hid
    simp [HopId.FinishedBy, hid, hid']
  · simp [HopId.FinishedBy, hkind]

/-! ## One more event -/

/-- An event of a task has its position added to those of its task. -/
theorem taskPositions_add {index : EventIndex} {streams : StreamIds} {e : NamedEvent}
    (h : e.kind.isTask = true) (position : Nat) (task : TaskId) :
    (add (index, streams) (e, position)).1.taskPositions task =
      index.taskPositions task ++ if TaskId.ofEvent e = task then [position] else [] := by
  rw [add_of_task h]
  simp only [taskPositions]
  rw [Std.HashMap.getD_alter]
  by_cases hsame : TaskId.ofEvent e = task
  · subst hsame
    simp [← Std.HashMap.getD_eq_getD_getElem?]
  · simp [hsame]

/-- An event of a task takes the place of the last one that finished its hop, if it finished it. -/
theorem hopPosition?_add {index : EventIndex} {streams : StreamIds} {e : NamedEvent}
    (h : e.kind.isTask = true) (position : Nat) (hop : HopId) :
    (add (index, streams) (e, position)).1.hopPosition? hop =
      if e.isFinish = true ∧ (HopId.ofEvent e streams).1 = hop then some position
      else index.hopPosition? hop := by
  rw [add_of_task h]
  simp only [hopPosition?]
  by_cases hfinish : e.isFinish = true
  · rw [if_pos hfinish, Std.HashMap.getElem?_insert]
    simp [hfinish]
  · simp [hfinish]

section

variable {start : StreamIds} {xs : List Entry} {index : EventIndex} {streams : StreamIds}
  {e : NamedEvent}

theorem Covers.add_of_task (h : Covers start xs (index, streams)) (hkind : e.kind.isTask = true)
    (position : Nat) :
    Covers start (xs ++ [(e, position)]) (add (index, streams) (e, position)) := by
  have hid := StreamIds.id?_internName h.faithful e.stream
  have hgrown := StreamIds.grown_internName h.faithful e.stream
  have hids : (add (index, streams) (e, position)).2 = (HopId.ofEvent e streams).2 := by
    rw [EventIndex.add_of_task hkind]
  constructor
  case faithful =>
    rw [hids]
    exact StreamIds.faithful_internName h.faithful e.stream
  case grown =>
    rw [hids]
    exact h.grown.trans hgrown
  case known =>
    rw [hids]
    intro y hy htask
    rcases List.mem_append.1 hy with hy | hy
    · obtain ⟨id, hold⟩ := h.known y hy htask
      exact ⟨id, IdTable.id?_of_grown hgrown hold⟩
    · rw [List.mem_singleton.1 hy]
      exact ⟨_, hid⟩
  case texts =>
    rw [hids]
    intro text htext
    rcases (StreamIds.mem_names_internName h.faithful e.stream).1 htext with hold | rfl
    · refine (h.texts text hold).imp_right ?_
      rintro ⟨y, hy, hfiled⟩
      exact ⟨y, List.mem_append_left _ hy, hfiled⟩
    · exact .inr ⟨(e, position), List.mem_append_right _ List.mem_cons_self, hkind, rfl⟩
  case tasks =>
    intro task
    have htask : Event.task? e = some (TaskId.ofEvent e) := if_pos hkind
    rw [taskPositions_add hkind, h.tasks task]
    by_cases hsame : TaskId.ofEvent e = task
    · simp [ofTask, htask, hsame]
    · simp [ofTask, htask, hsame]
  case hops =>
    intro hop
    have hold : xs.filter (fun x => hop.FinishedBy (HopId.ofEvent e streams).2 x.1) =
        xs.filter fun x => hop.FinishedBy streams x.1 :=
      List.filter_congr fun y hy =>
        decide_eq_decide.2 (finishedBy_iff_of_grown hgrown (h.known y hy) hop)
    rw [hopPosition?_add hkind, hids, List.filter_append, hold, h.hops hop]
    by_cases hfin : hop.FinishedBy (HopId.ofEvent e streams).2 e
    · have hof := (ofEvent_eq_iff h.faithful hkind hfin.2.1 hop).2 hfin
      simp [hfin, hfin.2.1, hof]
    · have hother : ¬ (e.isFinish = true ∧ (HopId.ofEvent e streams).1 = hop) :=
        fun hsame => hfin ((ofEvent_eq_iff h.faithful hkind hsame.1 hop).1 hsame.2)
      simp [hfin, hother]

theorem Covers.add_of_outside (h : Covers start xs (index, streams))
    (hkind : e.kind.isTask = false) (position : Nat) :
    Covers start (xs ++ [(e, position)]) (add (index, streams) (e, position)) := by
  rw [EventIndex.add_of_outside hkind]
  refine ⟨h.faithful, h.grown, ?_, ?_, ?_, ?_⟩
  · intro y hy htask
    rcases List.mem_append.1 hy with hy | hy
    · exact h.known y hy htask
    · rw [List.mem_singleton.1 hy, hkind] at htask
      cases htask
  · intro text htext
    refine (h.texts text htext).imp_right ?_
    rintro ⟨y, hy, hfiled⟩
    exact ⟨y, List.mem_append_left _ hy, hfiled⟩
  · intro task
    have : Event.task? e ≠ some task := fun hsome => by
      rw [Event.isTask_of_task? hsome] at hkind
      cases hkind
    simp [h.tasks task, ofTask, this]
  · intro hop
    have : ¬ hop.FinishedBy streams e := fun hfin => by
      rw [hfin.1] at hkind
      cases hkind
    simp [h.hops hop, this]

theorem Covers.add {state : EventIndex × StreamIds} (h : Covers start xs state) (x : Entry) :
    Covers start (xs ++ [x]) (EventIndex.add state x) := by
  cases hkind : x.1.kind.isTask with
  | false => exact h.add_of_outside hkind x.2
  | true => exact h.add_of_task hkind x.2

end

/-- Rebuilding covers exactly the events given, whatever the index held before. -/
theorem covers_rebuild (index : EventIndex) (events : List NamedEvent) {streams : StreamIds}
    (h : streams.Faithful) : Covers streams events.zipIdx (index.rebuild events streams) := by
  rw [rebuild]
  generalize events.zipIdx = xs
  induction xs using List.reverseRecOn with
  | nil => exact covers_clear index h
  | append_singleton xs x ih =>
    rw [List.foldl_append]
    exact ih.add x

end EventIndex

end FlowTrace
