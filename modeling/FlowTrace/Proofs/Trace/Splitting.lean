import Mathlib.Data.List.Forall2
import Mathlib.Data.List.Perm.Subperm
import FlowTrace.Proofs.Time.Cuts
import FlowTrace.Proofs.Trace.Modes
import FlowTrace.Proofs.Trace.Reading
set_option autoImplicit false

/-!
# Trace: one window or several

A window can be traced in one piece, or cut into consecutive windows that are traced one after the
other in the same session.  Once the origin is fixed the pieces say together what the whole says:
the entries of the window are shared out among the pieces, whatever their order in the buffer, and
times, stamps and names do not depend on the piece.  Only a producer can be out of sight in a piece,
and only there.
-/

namespace FlowTrace

open Entries

/-- The reading of a window, and those of consecutive windows that make it up, agree. -/
structure Reading.SplitInto (whole : Reading) (parts : List Reading) : Prop where
  complete : ∀ r ∈ whole :: parts, r.Complete
  /-- a task has no second record in the whole, and one at all if some part has one -/
  tasks : ∀ task, (whole.recordsOf task).length ≤ 1 ∧
    (whole.recordsOf task = [] ↔ ∀ r ∈ parts, r.recordsOf task = [])
  startTime : ∀ task, ∀ record ∈ whole.recordsOf task, record.startTime =
    ((parts.flatMap fun r => r.recordsOf task).filterMap TaskRecord.startTime).min?
  finishTime : ∀ task, ∀ record ∈ whole.recordsOf task, record.finishTime =
    ((parts.flatMap fun r => r.recordsOf task).filterMap TaskRecord.finishTime).min?
  /-- names can be read back as long as there are ids for them -/
  inputs : whole.trace.NamesFit → ∀ task,
    (parts.flatMap fun r => r.packetsIn task).Perm (whole.packetsIn task)
  outputs : whole.trace.NamesFit → ∀ task,
    (parts.flatMap fun r => r.packetsOut task).Perm (whole.packetsOut task)
  named : whole.trace.NamesFit → ∀ r ∈ whole :: parts, ∀ task,
    ∀ record ∈ r.recordsOf task, ∀ h ∈ record.inputs ++ record.outputs,
      (r.trace.nameOf? h).isSome = true
  /-- an event outside tasks has one record in the whole, and the same one in the parts -/
  others : (parts.flatMap Reading.others).Perm whole.others
  once : whole.others.map Prod.fst = whole.entries.filter fun x => x.1.task? = none
  /-- a producer that is seen in a part is seen in the whole -/
  resolved : ∀ task, ∀ r ∈ parts, ∀ p ∈ r.inputsOf task, p.2.startTime.isSome = true →
    ∃ q ∈ whole.inputsOf task, q.1 = p.1 ∧ q.2.startTime.isSome = true

/-! ## Parts of a reading -/

namespace Reading

section

variable {whole : Reading} {parts : List Reading} {o : Origin}

/-- What every reading selects from its entries alone, the parts say together. -/
theorem perm_of_select {β : Type} {f : Reading → List β} {p : Entry → Bool} {g : Entry → β}
    (hselect : ∀ r ∈ whole :: parts, f r = (r.entries.filter p).map g)
    (hperm : (parts.flatMap Reading.entries).Perm whole.entries) :
    (parts.flatMap f).Perm (f whole) := by
  have hparts : ∀ r ∈ parts, f r = (r.entries.filter p).map g :=
    fun r hr => hselect r (List.mem_cons_of_mem _ hr)
  rw [List.flatMap_congr hparts, hselect whole List.mem_cons_self, ← List.map_flatMap,
    ← List.filter_flatMap]
  exact (hperm.filter p).map g

/-- The reading is that of a frame with this origin. -/
def ShowsFrom (r : Reading) (o : Origin) : Prop := ∃ f, r.Shows f ∧ f.origin = o

/-- A task without a record in the whole is one without records in the parts. -/
theorem recordsOf_eq_nil_iff_of_parts (hwhole : whole.ShowsFrom o)
    (hparts : ∀ r ∈ parts, r.ShowsFrom o)
    (hperm : (parts.flatMap Reading.entries).Perm whole.entries) (task : TaskId) :
    whole.recordsOf task = [] ↔ ∀ r ∈ parts, r.recordsOf task = [] := by
  obtain ⟨f, hf, -⟩ := hwhole
  have hnone : ∀ r ∈ parts, (r.recordsOf task = [] ↔ ofTask r.entries task = []) := by
    intro r hr
    obtain ⟨g, hg, -⟩ := hparts r hr
    exact hg.recordsOf_eq_nil_iff task
  have htask : (parts.flatMap fun r => ofTask r.entries task).Perm (ofTask whole.entries task) :=
    perm_of_select (f := fun r => ofTask r.entries task) (fun _ _ => (List.map_id _).symm) hperm
  rw [hf.recordsOf_eq_nil_iff, forall₂_congr hnone, ← List.flatMap_eq_nil_iff]
  constructor
  · intro h
    rw [h] at htask
    exact htask.eq_nil
  · intro h
    rw [h] at htask
    exact htask.symm.eq_nil

/-- The least of the times that the records of the parts have for one side of a task is the one that
its record in the whole has. -/
theorem eq_min?_of_parts {field : TaskRecord → Option Int64} {side : NamedEvent → Bool}
    (hdefault : field default = none)
    (hfield : ∀ (f : Frame) (events : List NamedEvent),
      field (f.taskRecord events) = f.origin.earliest? (events.filter side))
    (hwhole : whole.ShowsFrom o) (hparts : ∀ r ∈ parts, r.ShowsFrom o)
    (hperm : (parts.flatMap Reading.entries).Perm whole.entries)
    (hleap : ∀ x ∈ whole.entries, x.1.time.isLeap = false) {task : TaskId} {record : TaskRecord}
    (hrecord : record ∈ whole.recordsOf task) :
    field record = ((parts.flatMap fun r => r.recordsOf task).filterMap field).min? := by
  have hone : field record = (whole.timesOf o side task).min? := by
    obtain ⟨f, hf, rfl⟩ := hwhole
    rw [hf.recordsOf_eq] at hrecord
    obtain ⟨x, _, rfl⟩ := List.mem_map.1 hrecord
    exact whole.taskRecord_eq_min? f hfield hleap task
  have hpart : ∀ r ∈ parts,
      (r.recordsOf task).filterMap field = (r.timesOf o side task).min?.toList := by
    intro r hr
    obtain ⟨g, hg, rfl⟩ := hparts r hr
    have hin : ∀ x ∈ r.entries, x.1.time.isLeap = false :=
      fun x hx => hleap x (hperm.mem_iff.1 (List.mem_flatMap.2 ⟨r, hr, hx⟩))
    rw [List.filterMap_eq_flatMap_toList, hg.flatMap_recordsOf (by rw [hdefault]; rfl),
      r.taskRecord_eq_min? g hfield hin]
  have htimes :
      (parts.flatMap fun r => r.timesOf o side task).Perm (whole.timesOf o side task) := by
    refine perm_of_select (f := fun r => r.timesOf o side task)
      (p := fun x => side x.1 && x.1.task? = some task) (g := fun x => o.time x.1.time)
      (fun r _ => ?_) hperm
    simp only [timesOf, ofTask, List.filter_filter]
  -- the least of the least times of the parts, where a part without such events has none
  calc field record
      = (whole.timesOf o side task).min? := hone
    _ = (parts.map fun r => r.timesOf o side task).flatten.min? := by
        rw [← List.flatMap_def]
        exact (min?_eq_of_perm htimes).symm
    _ = ((parts.map fun r => r.timesOf o side task).filterMap List.min?).min? :=
        (min?_filterMap_min? _).symm
    _ = ((parts.flatMap fun r => r.recordsOf task).filterMap field).min? := by
        rw [List.filterMap_flatMap, List.flatMap_congr hpart, List.filterMap_map,
          List.filterMap_eq_flatMap_toList]
        rfl

/-- A packet whose producer is seen in a part has its producer in the whole too. -/
theorem exists_resolved_of_part (hwhole : whole.ShowsFrom o)
    (hperm : (parts.flatMap Reading.entries).Perm whole.entries) {r : Reading} (hr : r ∈ parts)
    (hpart : r.ShowsFrom o) {task : TaskId} {p : Entry × StreamRecord} (hp : p ∈ r.inputsOf task)
    (hresolved : p.2.startTime.isSome = true) :
    ∃ q ∈ whole.inputsOf task, q.1 = p.1 ∧ q.2.startTime.isSome = true := by
  obtain ⟨f, hf, -⟩ := hwhole
  obtain ⟨g, hg, -⟩ := hpart
  have hin : ∀ x ∈ r.entries, x ∈ whole.entries :=
    fun x hx => hperm.mem_iff.1 (List.mem_flatMap.2 ⟨r, hr, hx⟩)
  rw [hg.inputsOf_eq] at hp
  obtain ⟨x, hx, rfl⟩ := List.mem_map.1 hp
  obtain ⟨hmember, htakes⟩ := List.mem_filter.1 hx
  obtain ⟨hentry, htask⟩ := mem_ofTask.1 hmember
  have hseen : ∃ y ∈ r.entries, y.1.Produces x.1 :=
    (g.showsHandover hg.ascending hg.events x.1).resolved.1 hresolved
  obtain ⟨y, hy, hproduces⟩ := hseen
  refine ⟨(x, f.inputPacket x.1), ?_, rfl, ?_⟩
  · rw [hf.inputsOf_eq]
    exact List.mem_map.2
      ⟨x, List.mem_filter.2 ⟨mem_ofTask.2 ⟨hin x hentry, htask⟩, htakes⟩, rfl⟩
  · exact (f.showsHandover hf.ascending hf.events x.1).resolved.2 ⟨y, hin y hy, hproduces⟩

/-- Readings with one origin whose entries are shared out agree. -/
theorem splitInto_of_perm (hwhole : whole.ShowsFrom o) (hparts : ∀ r ∈ parts, r.ShowsFrom o)
    (hperm : (parts.flatMap Reading.entries).Perm whole.entries)
    (hleap : ∀ x ∈ whole.entries, x.1.time.isLeap = false)
    (hfits : whole.trace.NamesFit → ∀ r ∈ whole :: parts, r.trace.NamesFit) :
    whole.SplitInto parts := by
  have hall : ∀ r ∈ whole :: parts, ∃ f, r.Shows f ∧ f.origin = o := by
    intro r hr
    rcases List.mem_cons.1 hr with rfl | hr
    · exact hwhole
    · exact hparts r hr
  obtain ⟨f, hf, hfo⟩ := hwhole
  refine ⟨?_, ?_, ?_, ?_, ?_, ?_, ?_, ?_, ?_, ?_⟩
  · intro r hr
    obtain ⟨g, hg, -⟩ := hall r hr
    exact hg.complete
  · intro task
    refine ⟨?_, ?_⟩
    · rw [hf.recordsOf_eq, List.length_map, List.length_take]
      exact Nat.min_le_left _ _
    · exact recordsOf_eq_nil_iff_of_parts ⟨f, hf, hfo⟩ hparts hperm task
  · intro task record hrecord
    exact eq_min?_of_parts rfl Frame.taskRecord_startTime ⟨f, hf, hfo⟩ hparts hperm hleap hrecord
  · intro task record hrecord
    exact eq_min?_of_parts rfl Frame.taskRecord_finishTime ⟨f, hf, hfo⟩ hparts hperm hleap hrecord
  · intro hfit task
    refine perm_of_select (p := fun x => x.1.takesIn && x.1.task? = some task)
      (g := fun x => (some (StreamName.textOf x.1.stream), o.stamp x.1.packetStamp,
        some (o.time x.1.time))) (fun r hr => ?_) hperm
    obtain ⟨g, hg, hgo⟩ := hall r hr
    rw [hg.packetsIn_eq (hfits hfit r hr), hgo, ofTask, List.filter_filter]
  · intro hfit task
    refine perm_of_select (p := fun x => x.1.putsOut && x.1.task? = some task)
      (g := fun x => (some (StreamName.textOf x.1.stream), o.stamp x.1.packetStamp))
      (fun r hr => ?_) hperm
    obtain ⟨g, hg, hgo⟩ := hall r hr
    rw [hg.packetsOut_eq (hfits hfit r hr), hgo, ofTask, List.filter_filter]
  · intro hfit r hr task record hrecord h hin
    obtain ⟨g, hg, -⟩ := hall r hr
    exact hg.isSome_nameOf? (hfits hfit r hr) hrecord hin
  · refine perm_of_select (p := fun x => x.1.task? = none)
      (g := fun x => (x, TaskRecord.plain o x.1)) (fun r hr => ?_) hperm
    obtain ⟨g, hg, hgo⟩ := hall r hr
    rw [hg.others_eq, hgo]
  · rw [hf.others_eq, List.map_map]
    exact List.map_id _
  · intro task r hr p hp hresolved
    exact exists_resolved_of_part ⟨f, hf, hfo⟩ hperm hr (hparts r hr) hp hresolved

end

end Reading

/-! ## Windows of a session -/

namespace Session

variable {s : Session} {o : Origin}

/-- A fixed origin stays, and readings are made from it. -/
theorem showsFrom_read (hs : s.ids.Faithful) (ho : s.origin = some o) (buffer : List NamedEvent)
    (w : Window) :
    (s.read buffer w).1.ShowsFrom o ∧ (s.read buffer w).2.ids.Faithful ∧
      (s.read buffer w).2.origin = some o := by
  have horigin : s.originAfter (w.events buffer) = some o := by rw [originAfter, ho]
  refine ⟨⟨s.traceFrame buffer w, shows_read hs buffer w, ?_⟩, ?_, horigin⟩
  · rw [traceFrame, horigin]
    rfl
  · exact (makes_trace buffer w hs).faithful

/-- The readings of some windows, made one after the other. -/
theorem forall₂_reads (hs : s.ids.Faithful) (ho : s.origin = some o) (buffer : List NamedEvent)
    (windows : List Window) :
    List.Forall₂ (fun r w => r.ShowsFrom o ∧ r.entries = w.entries buffer)
      (mapThrough (fun s w => Session.read s buffer w) s windows).1 windows := by
  induction windows generalizing s with
  | nil => exact List.Forall₂.nil
  | cons w windows ih =>
    obtain ⟨hshows, hs', ho'⟩ := showsFrom_read hs ho buffer w
    rw [mapThrough_cons]
    exact List.Forall₂.cons ⟨hshows, rfl⟩ (ih hs' ho')

section

variable {buffer : List NamedEvent} {names : List String}

theorem mem_of_mem_names_trace (hs : s.ids.Faithful) (hold : ∀ text ∈ s.streamNames, text ∈ names)
    {w : Window} (hnew : ∀ e ∈ w.events buffer, e.kind.isTask = true →
      StreamName.textOf e.stream ∈ names) :
    ∀ text ∈ (s.trace buffer w).1.streamNames, text ∈ names := by
  intro text htext
  rcases (mem_names_trace buffer w hs).1 htext with htext | ⟨e, he, hkind, rfl⟩
  · exact hold text htext
  · exact hnew e he hkind

/-- A reading that names no streams beyond some list has no more names than it. -/
theorem namesFit_read (hfit : names.length ≤ 2147483648) {w : Window}
    (hnames : ∀ text ∈ (s.trace buffer w).1.streamNames, text ∈ names) :
    (s.read buffer w).1.trace.NamesFit :=
  (List.subperm_of_subset (s.trace buffer w).2.nodup_names hnames).length_le.trans hfit

theorem namesFit_reads (hs : s.ids.Faithful) {windows : List Window}
    (hfit : names.length ≤ 2147483648) (hold : ∀ text ∈ s.streamNames, text ∈ names)
    (hnew : ∀ w ∈ windows, ∀ e ∈ w.events buffer, e.kind.isTask = true →
      StreamName.textOf e.stream ∈ names) :
    ∀ r ∈ (mapThrough (fun s w => Session.read s buffer w) s windows).1, r.trace.NamesFit := by
  induction windows generalizing s with
  | nil =>
    intro r hr
    cases hr
  | cons w windows ih =>
    have hnames := mem_of_mem_names_trace hs hold (hnew w List.mem_cons_self)
    rw [mapThrough_cons]
    intro r hr
    rcases List.mem_cons.1 hr with rfl | hr
    · exact namesFit_read hfit hnames
    · exact ih (makes_trace buffer w hs).faithful hnames
        (fun w hw => hnew w (List.mem_cons_of_mem _ hw)) r hr

/-- A part names no stream that the whole does not name. -/
theorem namesFit_consecutive (hs : s.ids.Faithful) {start : Instant} {cuts : List Instant}
    (hcuts : (start :: cuts).IsChain (· ≤ ·))
    (hfit : (s.read buffer (.spanning start cuts)).1.trace.NamesFit) :
    ∀ r ∈ (mapThrough (fun s w => Session.read s buffer w) s (Window.consecutive start cuts)).1,
      r.trace.NamesFit := by
  have hwhole := @mem_names_trace s buffer (.spanning start cuts) hs
  refine namesFit_reads hs hfit (fun text htext => hwhole.2 (.inl htext)) ?_
  intro w hw e he hkind
  have hin : e ∈ (Window.spanning start cuts).events buffer :=
    (Window.perm_consecutive Event.time buffer hcuts).mem_iff.1 (List.mem_flatMap.2 ⟨w, hw, he⟩)
  exact hwhole.2 (.inr ⟨e, hin, hkind, rfl⟩)

end

/-- Once the origin is fixed, tracing a range in one piece and in consecutive pieces agree. -/
theorem read_splitInto (h : s.Reachable) (ho : s.origin ≠ none) {buffer : List NamedEvent}
    (hleap : ∀ e ∈ buffer, e.time.isLeap = false) {start : Instant} {cuts : List Instant}
    (hcuts : (start :: cuts).IsChain (· ≤ ·)) :
    (s.read buffer (.spanning start cuts)).1.SplitInto
      (mapThrough (fun s w => Session.read s buffer w) s (Window.consecutive start cuts)).1 := by
  obtain ⟨o, ho⟩ := Option.ne_none_iff_exists'.1 ho
  obtain ⟨hparts, hsame⟩ := (List.forall₂_and_left _ _).1
    (forall₂_reads h.faithful ho buffer (Window.consecutive start cuts))
  refine Reading.splitInto_of_perm (showsFrom_read h.faithful ho buffer _).1 hparts ?_ ?_ ?_
  · rw [← List.forall₂_map_right_iff, ← List.forall₂_map_left_iff, List.forall₂_eq_eq_eq] at hsame
    rw [List.flatMap_def, hsame, ← List.flatMap_def]
    exact Window.perm_consecutive (fun x : Entry => x.1.time) buffer.zipIdx hcuts
  · exact fun x hx => hleap x.1 (Window.mem_of_mem_entries hx)
  · intro hfit r hr
    rcases List.mem_cons.1 hr with rfl | hr
    · exact hfit
    · exact namesFit_consecutive h.faithful hcuts hfit r hr

theorem namesFit_read_handover (w : Window) : (traced.read handover w).1.trace.NamesFit := by
  have htexts : ∀ e ∈ handover, StreamName.textOf e.stream ∈ ["", "frames"] := by decide
  have hempty : ∀ text ∈ empty.streamNames, text ∈ ["", "frames"] := by
    intro text htext
    rw [List.mem_singleton.1 htext]
    exact List.mem_cons_self
  have htraced : ∀ text ∈ traced.streamNames, text ∈ ["", "frames"] :=
    mem_of_mem_names_trace IdTables.faithful_empty hempty
      fun e he _ => htexts e (List.mem_filter.1 he).1
  exact namesFit_read (by decide) (mem_of_mem_names_trace reachable_traced.faithful htraced
    fun e he _ => htexts e (List.mem_filter.1 he).1)

/-- Both tasks of the handover are cut in two, and there are ids for all names. -/
theorem read_splitInto_handover :
    traced.Reachable ∧ traced.origin ≠ none ∧ (∀ e ∈ handover, e.time.isLeap = false) ∧
      [Instant.ofSecond 0, .ofSecond 2, .ofSecond 4, .ofSecond 59].IsChain (· ≤ ·) ∧
      (traced.read handover
          (.spanning (.ofSecond 0) [.ofSecond 2, .ofSecond 4, .ofSecond 59])).1.trace.NamesFit ∧
      (traced.read handover
          (.spanning (.ofSecond 0) [.ofSecond 2, .ofSecond 4, .ofSecond 59])).1.SplitInto
        (mapThrough (fun s w => Session.read s handover w) traced
          (Window.consecutive (.ofSecond 0) [.ofSecond 2, .ofSecond 4, .ofSecond 59])).1 := by
  have horigin : traced.origin ≠ none := by decide
  have hleap : ∀ e ∈ handover, e.time.isLeap = false := by decide
  have hcuts :
      [Instant.ofSecond 0, .ofSecond 2, .ofSecond 4, .ofSecond 59].IsChain (· ≤ ·) := by decide
  exact ⟨reachable_traced, horigin, hleap, hcuts, namesFit_read_handover _,
    read_splitInto reachable_traced horigin hleap hcuts⟩

end Session

end FlowTrace
