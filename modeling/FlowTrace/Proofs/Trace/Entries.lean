import Mathlib.Data.List.Induction
import Mathlib.Data.List.Nodup
import FlowTrace.Trace.Calls
set_option autoImplicit false

/-!
# Trace: entries of a buffer and the records they open

An entry is an event with its place in the buffer, so that two equal events stay two entries.  Of
the entries of a window some open a record: each one outside tasks, and the first one of each task.
The main statements are that a trace lists its subjects exactly so (`Subject.ofEvents_eq`) and that
the records opened share out the entries without loss and without overlap (`perm_flatMap_share`).
-/

namespace FlowTrace

/-- The task that an event belongs to, where its kind belongs to tasks. -/
def Event.task? {ν : Type} (e : Event ν) : Option TaskId :=
  if e.kind.isTask then some (TaskId.ofEvent e) else none

theorem Event.isTask_of_task? {ν : Type} {e : Event ν} {task : TaskId} (h : e.task? = some task) :
    e.kind.isTask = true := by
  unfold task? at h
  split at h
  · assumption
  · cases h

theorem Event.isTask_of_task?_eq_none {ν : Type} {e : Event ν} (h : e.task? = none) :
    e.kind.isTask = false := by
  unfold task? at h
  split at h
  · cases h
  · exact Bool.eq_false_iff.2 ‹_›

theorem Event.isHop_of_task?_eq_none {ν : Type} {e : Event ν} (h : e.task? = none) :
    e.kind.isHop = false := by
  rw [Bool.eq_false_iff]
  intro hhop
  have hkind := isTask_of_task?_eq_none h
  rw [EventKind.isTask_of_isHop hhop] at hkind
  cases hkind

/-- The events belong to one task: a kind that belongs to tasks, the calculator and the input stamp are
the same. -/
def Event.SameTask {ν : Type} (d e : Event ν) : Prop :=
  d.kind.isTask = true ∧ d.node = e.node ∧ d.inputStamp = e.inputStamp ∧ d.kind = e.kind

instance {ν : Type} (d e : Event ν) : Decidable (d.SameTask e) :=
  inferInstanceAs (Decidable (_ ∧ _ ∧ _ ∧ _))

theorem Event.sameTask_iff {ν : Type} {d e : Event ν} :
    d.SameTask e ↔ ∃ task, d.task? = some task ∧ e.task? = some task := by
  constructor
  · rintro ⟨hkind, hnode, hstamp, hsame⟩
    refine ⟨TaskId.ofEvent d, if_pos hkind, ?_⟩
    rw [task?, if_pos (hsame ▸ hkind), TaskId.ofEvent, TaskId.ofEvent, hnode, hstamp, hsame]
  · rintro ⟨task, hd, he⟩
    have hkind := isTask_of_task? hd
    rw [task?, if_pos hkind] at hd
    rw [task?, if_pos (isTask_of_task? he)] at he
    obtain ⟨hnode, hstamp, hsame⟩ := TaskId.mk.inj (Option.some.inj (hd.trans he.symm))
    exact ⟨hkind, hnode, hstamp, hsame⟩

/-- An event with its place in the buffer. -/
abbrev Entry := NamedEvent × Nat

/-- The events inside the window with their places in the buffer. -/
def Window.entries (w : Window) (buffer : List NamedEvent) : List Entry :=
  buffer.zipIdx.filter fun x => w.contains x.1.time

namespace Entries

/-- The places ascend. -/
def Ascending (xs : List Entry) : Prop := xs.Pairwise fun x y => x.2 < y.2

/-- The entries of one task, in their order. -/
def ofTask (xs : List Entry) (task : TaskId) : List Entry :=
  xs.filter fun x => x.1.task? = some task

/-- The entry opens a record among `xs`: it lies outside tasks, or no earlier entry belongs to its
task. -/
def Opens (xs : List Entry) (x : Entry) : Prop :=
  x.1.task? = none ∨ ∀ y ∈ xs, y.2 < x.2 → y.1.task? ≠ x.1.task?

instance (xs : List Entry) (x : Entry) : Decidable (Opens xs x) :=
  inferInstanceAs (Decidable (_ ∨ _))

/-- The entries that open a record, in their order. -/
def leads (xs : List Entry) : List Entry := xs.filter fun x => Opens xs x

/-- The entries that the record opened by `x` is about: those of its task, or `x` alone. -/
def share (xs : List Entry) (x : Entry) : List Entry :=
  match x.1.task? with
  | some task => ofTask xs task
  | none => [x]

end Entries

open Entries

/-! ## Entries of a window -/

theorem Window.map_fst_entries (w : Window) (buffer : List NamedEvent) :
    (w.entries buffer).map Prod.fst = w.events buffer := by
  have hevents : w.events buffer =
      (buffer.zipIdx.map Prod.fst).filter fun e => w.contains e.time := by
    rw [List.zipIdx_map_fst, events]
  rw [hevents, List.filter_map]
  rfl

theorem Window.mem_of_mem_entries {w : Window} {buffer : List NamedEvent} {x : Entry}
    (h : x ∈ w.entries buffer) : x.1 ∈ buffer := by
  obtain ⟨hx, -⟩ := List.mem_filter.1 h
  exact List.mem_of_getElem? (List.mem_zipIdx_iff_getElem?.1 hx)

theorem Entries.ascending_zipIdx (events : List NamedEvent) : Ascending events.zipIdx := by
  have hplaces : (events.zipIdx.map Prod.snd).Pairwise (· < ·) := by
    rw [List.zipIdx_map_snd]
    exact List.pairwise_lt_range'
  exact List.pairwise_map.1 hplaces

theorem Window.ascending_entries (w : Window) (buffer : List NamedEvent) :
    Ascending (w.entries buffer) :=
  List.Pairwise.filter _ (ascending_zipIdx buffer)

namespace Entries

theorem Ascending.nodup {xs : List Entry} (h : Ascending xs) : xs.Nodup :=
  h.imp fun {x y} hlt heq => by
    rw [heq] at hlt
    exact Nat.lt_irrefl _ hlt

theorem Ascending.filter {xs : List Entry} (h : Ascending xs) (p : Entry → Bool) :
    Ascending (xs.filter p) :=
  List.Pairwise.filter p h

theorem Ascending.getLast?_eq {xs : List Entry} (h : Ascending xs) {x : Entry} (hx : x ∈ xs)
    (hlast : ∀ y ∈ xs, y.2 ≤ x.2) : xs.getLast? = some x := by
  cases hend : xs.getLast? with
  | none =>
    rw [List.getLast?_eq_none_iff.1 hend] at hx
    cases hx
  | some z =>
    obtain ⟨ys, rfl⟩ := List.getLast?_eq_some_iff.1 hend
    rcases List.mem_append.1 hx with hin | hin
    · have hlt := (List.pairwise_append.1 h).2.2 x hin z (List.mem_singleton_self z)
      have hle := hlast z (List.mem_append_right _ (List.mem_singleton_self z))
      omega
    · rw [List.mem_singleton.1 hin]

theorem mem_ofTask {xs : List Entry} {task : TaskId} {x : Entry} :
    x ∈ ofTask xs task ↔ x ∈ xs ∧ x.1.task? = some task := by
  simp [ofTask]

theorem map_fst_ofTask (xs : List Entry) (task : TaskId) :
    (ofTask xs task).map Prod.fst = (xs.map Prod.fst).filter fun e => e.task? = some task := by
  rw [List.filter_map]
  rfl

/-! ## What opens a record -/

/-- One more entry at the end opens a record of its own or none, and changes nothing for those
before it. -/
theorem leads_concat {xs : List Entry} {x : Entry} (h : Ascending (xs ++ [x])) :
    leads (xs ++ [x]) = leads xs ++ if Opens xs x then [x] else [] := by
  have hlast : ∀ y ∈ xs, y.2 < x.2 := by
    intro y hy
    exact (List.pairwise_append.1 h).2.2 y hy x (List.mem_singleton_self x)
  have hmore : ∀ y : Entry, ¬ x.2 < y.2 → (Opens (xs ++ [x]) y ↔ Opens xs y) := by
    intro y hy
    constructor
    · exact Or.imp_right fun hfirst z hz => hfirst z (List.mem_append_left _ hz)
    · refine Or.imp_right fun hfirst z hz hlt => ?_
      rcases List.mem_append.1 hz with hz | hz
      · exact hfirst z hz hlt
      · rw [List.mem_singleton.1 hz] at hlt
        exact absurd hlt hy
  have hbefore : (xs.filter fun y => Opens (xs ++ [x]) y) = leads xs :=
    List.filter_congr fun y hy => decide_eq_decide.2 (hmore y (Nat.lt_asymm (hlast y hy)))
  have hself : Opens (xs ++ [x]) x ↔ Opens xs x := hmore x (Nat.lt_irrefl _)
  rw [leads, List.filter_append, hbefore]
  by_cases hx : Opens xs x
  · rw [if_pos hx, List.filter_cons_of_pos (by simpa using hself.2 hx), List.filter_nil]
  · rw [if_neg hx, List.filter_cons_of_neg (by simpa using mt hself.1 hx), List.filter_nil]

/-- Every entry outside tasks opens a record. -/
theorem filter_leads_outside (xs : List Entry) :
    (leads xs).filter (fun x => x.1.task? = none) = xs.filter fun x => x.1.task? = none := by
  rw [leads, List.filter_filter]
  refine List.filter_congr fun x _ => ?_
  by_cases h : x.1.task? = none <;> simp [h, Opens]

/-- A task that occurs has one record, opened by its first entry. -/
theorem filter_leads_task {xs : List Entry} (h : Ascending xs) (task : TaskId) :
    (leads xs).filter (fun x => x.1.task? = some task) = (ofTask xs task).take 1 := by
  have hswap : (leads xs).filter (fun x => x.1.task? = some task) =
      (ofTask xs task).filter fun x => Opens xs x := by
    rw [leads, ofTask, List.filter_filter, List.filter_filter]
    exact List.filter_congr fun x _ => Bool.and_comm _ _
  have hsorted : Ascending (ofTask xs task) := h.filter _
  rw [hswap]
  cases hmembers : ofTask xs task with
  | nil => rfl
  | cons x rest =>
    rw [hmembers] at hsorted
    have hx : x ∈ xs ∧ x.1.task? = some task :=
      mem_ofTask.1 (hmembers ▸ List.mem_cons_self)
    have hfirst : Opens xs x := by
      refine Or.inr fun y hy hlt heq => ?_
      have hy' : y ∈ x :: rest := hmembers ▸ mem_ofTask.2 ⟨hy, heq.trans hx.2⟩
      rcases List.mem_cons.1 hy' with rfl | hrest
      · exact Nat.lt_irrefl _ hlt
      · exact Nat.lt_asymm hlt (List.rel_of_pairwise_cons hsorted hrest)
    have hlater : ∀ y ∈ rest, ¬ Opens xs y := by
      intro y hy hopens
      have hy' : y ∈ xs ∧ y.1.task? = some task :=
        mem_ofTask.1 (hmembers ▸ List.mem_cons_of_mem _ hy)
      rcases hopens with hnone | hall
      · rw [hy'.2] at hnone
        cases hnone
      · exact hall x hx.1 (List.rel_of_pairwise_cons hsorted hy) (hx.2.trans hy'.2.symm)
    rw [List.filter_cons_of_pos (by simpa using hfirst)]
    simpa using hlater

theorem mem_leads {xs : List Entry} {x : Entry} : x ∈ leads xs ↔ x ∈ xs ∧ Opens xs x := by
  simp [leads]

/-! ## Sharing out the entries -/

theorem mem_share {xs : List Entry} {x y : Entry} :
    y ∈ share xs x ↔ (∃ task, x.1.task? = some task ∧ y ∈ ofTask xs task) ∨
      (x.1.task? = none ∧ y = x) := by
  unfold share
  cases h : x.1.task? <;> simp

/-- Every entry belongs to the share of an entry that opens a record. -/
theorem exists_lead_of_mem {xs : List Entry} (h : Ascending xs) {y : Entry} (hy : y ∈ xs) :
    ∃ x ∈ leads xs, y ∈ share xs x := by
  cases htask : y.1.task? with
  | none => exact ⟨y, mem_leads.2 ⟨hy, .inl htask⟩, mem_share.2 (.inr ⟨htask, rfl⟩)⟩
  | some task =>
    have hmem : y ∈ ofTask xs task := mem_ofTask.2 ⟨hy, htask⟩
    have hfirst := filter_leads_task h task
    cases hmembers : ofTask xs task with
    | nil =>
      rw [hmembers] at hmem
      cases hmem
    | cons x rest =>
      rw [hmembers, List.take_succ_cons, List.take_zero] at hfirst
      have hx : x ∈ (leads xs).filter fun x => x.1.task? = some task :=
        hfirst ▸ List.mem_singleton_self x
      obtain ⟨hlead, hxtask⟩ := List.mem_filter.1 hx
      exact ⟨x, hlead, mem_share.2 (.inl ⟨task, of_decide_eq_true hxtask, hmem⟩)⟩

theorem task?_of_mem_share {xs : List Entry} {x y : Entry} (h : y ∈ share xs x) :
    x.1.task? = y.1.task? := by
  rcases mem_share.1 h with ⟨task, hx, hmem⟩ | ⟨_, rfl⟩
  · rw [hx, (mem_ofTask.1 hmem).2]
  · rfl

/-- Two entries go into one record if they are the same or belong to one task, and only then. -/
theorem exists_lead_iff {xs : List Entry} (h : Ascending xs) {x y : Entry} (hx : x ∈ xs)
    (hy : y ∈ xs) :
    (∃ lead ∈ leads xs, x ∈ share xs lead ∧ y ∈ share xs lead) ↔ x = y ∨ x.1.SameTask y.1 := by
  rw [Event.sameTask_iff]
  constructor
  · rintro ⟨lead, -, hxshare, hyshare⟩
    rcases mem_share.1 hxshare with ⟨task, htask, hxtask⟩ | ⟨hnone, rfl⟩
    · rw [task?_of_mem_share hyshare] at htask
      exact .inr ⟨task, (mem_ofTask.1 hxtask).2, htask⟩
    · rcases mem_share.1 hyshare with ⟨task, htask, -⟩ | ⟨-, rfl⟩
      · rw [hnone] at htask
        cases htask
      · exact .inl rfl
  · intro hsame
    obtain ⟨lead, hlead, hxshare⟩ := exists_lead_of_mem h hx
    refine ⟨lead, hlead, hxshare, ?_⟩
    rcases hsame with rfl | ⟨task, hxtask, hytask⟩
    · exact hxshare
    · have htask : lead.1.task? = some task := (task?_of_mem_share hxshare).trans hxtask
      exact mem_share.2 (.inl ⟨task, htask, mem_ofTask.2 ⟨hy, hytask⟩⟩)

/-- The entry that opens the record of a task is the first one of the task. -/
theorem head?_ofTask_of_mem_leads {xs : List Entry} (h : Ascending xs) {x : Entry}
    (hx : x ∈ leads xs) {task : TaskId} (htask : x.1.task? = some task) :
    (ofTask xs task).head? = some x := by
  have hmem : x ∈ (ofTask xs task).take 1 := by
    rw [← filter_leads_task h]
    exact List.mem_filter.2 ⟨hx, decide_eq_true htask⟩
  cases hmembers : ofTask xs task with
  | nil => simp [hmembers] at hmem
  | cons first rest =>
    rw [hmembers, List.take_succ_cons, List.take_zero, List.mem_singleton] at hmem
    rw [hmem, List.head?_cons]

theorem ofTask_ne_nil_of_mem_leads {xs : List Entry} (h : Ascending xs) {x : Entry}
    (hx : x ∈ leads xs) {task : TaskId} (htask : x.1.task? = some task) : ofTask xs task ≠ [] := by
  intro hnil
  have hhead := head?_ofTask_of_mem_leads h hx htask
  rw [hnil] at hhead
  cases hhead

/-- Two entries whose shares meet are the same, if both open a record. -/
theorem eq_of_mem_share {xs : List Entry} (h : Ascending xs) {x x' y : Entry}
    (hx : x ∈ leads xs) (hx' : x' ∈ leads xs) (hy : y ∈ share xs x) (hy' : y ∈ share xs x') :
    x = x' := by
  have hsame : x.1.task? = x'.1.task? :=
    (task?_of_mem_share hy).trans (task?_of_mem_share hy').symm
  cases htask : x.1.task? with
  | none =>
    have hyx : y = x := by simpa [share, htask] using hy
    have hyx' : y = x' := by simpa [share, ← hsame, htask] using hy'
    exact hyx.symm.trans hyx'
  | some task =>
    have hhead := head?_ofTask_of_mem_leads h hx htask
    rw [head?_ofTask_of_mem_leads h hx' (hsame.symm.trans htask)] at hhead
    exact (Option.some.inj hhead).symm

/-- The records opened share out the entries: none is lost, none is counted twice, and none is in a
record of another task. -/
theorem perm_flatMap_share {xs : List Entry} (h : Ascending xs) :
    ((leads xs).flatMap (share xs)).Perm xs := by
  have hnodup : ((leads xs).flatMap (share xs)).Nodup := by
    rw [List.nodup_flatMap]
    constructor
    · intro x _
      unfold share
      split
      · exact h.nodup.filter _
      · exact List.nodup_singleton x
    · refine List.Pairwise.imp_of_mem ?_ (h.nodup.filter _)
      intro x x' hx hx' hne y hy hy'
      exact hne (eq_of_mem_share h hx hx' hy hy')
  rw [List.perm_ext_iff_of_nodup hnodup h.nodup]
  intro y
  rw [List.mem_flatMap]
  constructor
  · rintro ⟨x, hx, hy⟩
    rcases mem_share.1 hy with ⟨task, _, hmem⟩ | ⟨_, rfl⟩
    · exact (mem_ofTask.1 hmem).1
    · exact (mem_leads.1 hx).1
  · exact exists_lead_of_mem h

end Entries

/-! ## Subjects -/

/-- The subject of the record that an event opens. -/
def Subject.of (e : NamedEvent) : Subject :=
  match e.task? with
  | some id => .task id
  | none => .event e

namespace Subject

theorem add_of_outside {e : NamedEvent} (h : e.task? = none) (subjects : Array Subject)
    (seen : Std.HashSet TaskId) : add (subjects, seen) e = (subjects.push (.of e), seen) := by
  simp [add, of, h, Event.isTask_of_task?_eq_none h]

theorem add_of_task {e : NamedEvent} {task : TaskId} (h : e.task? = some task)
    (subjects : Array Subject) (seen : Std.HashSet TaskId) :
    add (subjects, seen) e =
      if seen.contains task then (subjects, seen)
      else (subjects.push (.of e), seen.insert task) := by
  have hkind := Event.isTask_of_task? h
  have htask : TaskId.ofEvent e = task := by simpa [Event.task?, hkind] using h
  simp [add, of, h, hkind, htask]

/-- What has been listed after some entries: the subjects of those that open a record, and the tasks
seen. -/
structure Listed (xs : List Entry) (state : Array Subject × Std.HashSet TaskId) : Prop where
  subjects : state.1.toList = (leads xs).map fun x => of x.1
  seen : ∀ task, state.2.contains task = true ↔ ∃ x ∈ xs, x.1.task? = some task

theorem Listed.add {xs : List Entry} {x : Entry} (h : Ascending (xs ++ [x]))
    {state : Array Subject × Std.HashSet TaskId} (hstate : Listed xs state) :
    Listed (xs ++ [x]) (Subject.add state x.1) := by
  obtain ⟨subjects, seen⟩ := state
  have hsubjects : subjects.toList = (leads xs).map fun x => of x.1 := hstate.subjects
  have hseen : ∀ task, seen.contains task = true ↔ ∃ x ∈ xs, x.1.task? = some task := hstate.seen
  have hplaces : ∀ y ∈ xs, y.2 < x.2 := by
    intro y hy
    exact (List.pairwise_append.1 h).2.2 y hy x (List.mem_singleton_self x)
  cases htask : x.1.task? with
  | none =>
    have hopens : Opens xs x := .inl htask
    rw [add_of_outside htask]
    refine ⟨?_, fun task => ?_⟩
    · simp [leads_concat h, hopens, hsubjects]
    · simp [hseen, or_and_right, exists_or, htask]
  | some task =>
    have hopens : Opens xs x ↔ seen.contains task = false := by
      rw [Bool.eq_false_iff, ne_eq, hseen]
      constructor
      · rintro (hnone | hfirst) ⟨y, hy, hsame⟩
        · rw [htask] at hnone
          cases hnone
        · exact hfirst y hy (hplaces y hy) (hsame.trans htask.symm)
      · intro hnew
        refine .inr fun y hy _ heq => hnew ⟨y, hy, heq.trans htask⟩
    rw [add_of_task htask]
    cases hcontains : seen.contains task with
    | true =>
      have hnot : ¬ Opens xs x := by simp [hopens, hcontains]
      refine ⟨?_, fun other => ?_⟩
      · simp [leads_concat h, hnot, hsubjects]
      · have hold := (hseen task).1 hcontains
        simp only [if_true, hseen, List.mem_append, List.mem_singleton, or_and_right, exists_or,
          exists_eq_left, htask, Option.some.injEq]
        constructor
        · exact .inl
        · rintro (hmem | rfl)
          · exact hmem
          · exact hold
    | false =>
      have hyes : Opens xs x := hopens.2 hcontains
      refine ⟨?_, fun other => ?_⟩
      · simp [leads_concat h, hyes, hsubjects]
      · simp [Std.HashSet.contains_insert, hseen, or_and_right, exists_or, htask, or_comm]

/-- The subjects of a trace are those of the entries that open a record. -/
theorem ofEvents_eq {xs : List Entry} (h : Ascending xs) :
    ofEvents (xs.map Prod.fst) = (leads xs).map fun x => of x.1 := by
  have hlisted : Listed xs
      ((xs.map Prod.fst).foldl Subject.add (#[], Std.HashSet.emptyWithCapacity)) := by
    induction xs using List.reverseRecOn with
    | nil => exact ⟨rfl, by simp⟩
    | append_singleton xs x ih =>
      rw [List.map_append, List.foldl_append]
      exact (ih (List.pairwise_append.1 h).1).add h
  exact hlisted.subjects

end Subject

end FlowTrace
