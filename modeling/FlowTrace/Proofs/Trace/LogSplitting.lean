import FlowTrace.Proofs.Time.Cuts
import FlowTrace.Proofs.Trace.Origin
import FlowTrace.Proofs.Trace.Reading
set_option autoImplicit false

/-!
# Trace: one log or several

A range can be logged in one piece, or split by a step into windows that are logged one after the
other in the same session.  The windows say together what the whole says, whether the origin is
fixed or not: the windows come in the order of time, so the first one that holds an event holds the
earliest event of the range, and the base time that it fixes is the one of the whole.
-/

namespace FlowTrace

open Entries

/-- The records of a log, each with the entry it is about. -/
def Reading.logged (r : Reading) : List (Entry × TaskRecord) := r.entries.zip r.trace.records

/-- An entry with the times that a log has for it. -/
def Entries.withTimes (p : Entry × TaskRecord) : Entry × Option Int64 × Option Int64 :=
  (p.1, p.2.startTime, p.2.finishTime)

/-- The log of a range, and those of the windows that make it up, agree. -/
structure Reading.LogSplitInto (whole : Reading) (parts : List Reading) : Prop where
  /-- a log has one record for each entry -/
  complete : ∀ r ∈ whole :: parts, r.trace.records.length = r.entries.length
  /-- the windows have in total as many records as the range has events -/
  count : (parts.flatMap fun r => r.trace.records).length = whole.entries.length
  /-- an event has its record in exactly one of the windows -/
  once : ∀ x ∈ whole.entries,
    ∃! place : Nat, ∃ r, parts[place]? = some r ∧ ∃ record, (x, record) ∈ r.logged
  /-- the record has the times that the whole has for the event -/
  times : (parts.flatMap fun r => r.logged.map withTimes).Perm (whole.logged.map withTimes)
  /-- a window with a record has the base time of the whole -/
  baseTime : ∀ r ∈ parts, r.trace.records ≠ [] → r.trace.baseTime = whole.trace.baseTime

/-- What is shared out without repetition has its place in exactly one of the shares. -/
theorem existsUnique_getElem?_of_perm {α β : Type} {f : β → List α} {parts : List β} {xs : List α}
    (h : (parts.flatMap f).Perm xs) (hnodup : xs.Nodup) {x : α} (hx : x ∈ xs) :
    ∃! place : Nat, ∃ part, parts[place]? = some part ∧ x ∈ f part := by
  have hdisjoint : parts.Pairwise fun u v => List.Disjoint (f u) (f v) :=
    (List.nodup_flatMap.1 (h.nodup_iff.2 hnodup)).2
  have hlt : ∀ (i j : Nat) (u v : β), i < j → parts[i]? = some u → parts[j]? = some v →
      x ∈ f u → x ∈ f v → False := by
    intro i j u v hij hu hv hxu hxv
    obtain ⟨hi, rfl⟩ := List.getElem?_eq_some_iff.1 hu
    obtain ⟨hj, rfl⟩ := List.getElem?_eq_some_iff.1 hv
    exact List.pairwise_iff_getElem.1 hdisjoint i j hi hj hij hxu hxv
  obtain ⟨part, hpart, hin⟩ := List.mem_flatMap.1 (h.mem_iff.2 hx)
  obtain ⟨place, hplace⟩ := List.mem_iff_getElem?.1 hpart
  refine ⟨place, ⟨part, hplace, hin⟩, ?_⟩
  rintro other ⟨part', hother, hin'⟩
  rcases Nat.lt_trichotomy other place with hless | heq | hmore
  · exact (hlt other place part' part hless hother hplace hin' hin).elim
  · exact heq
  · exact (hlt place other part part' hmore hplace hother hin hin').elim

/-! ## Readings of a log -/

namespace Reading

/-- The reading is that of a log with this base time, where a log without events may have any. -/
structure LogsFrom (r : Reading) (base : Int64) : Prop where
  ascending : Ascending r.entries
  times : r.logged.map withTimes = r.entries.map fun x =>
    let time := some (Origin.time ⟨base, 0⟩ x.1.time)
    (x, if x.1.isFinish then none else time, if x.1.isFinish then time else none)
  complete : r.trace.records.length = r.entries.length
  baseTime : r.entries ≠ [] → r.trace.baseTime = base

variable {r whole : Reading} {parts : List Reading} {base : Int64}

theorem LogsFrom.exists_logged_iff (h : r.LogsFrom base) (x : Entry) :
    (∃ record, (x, record) ∈ r.logged) ↔ x ∈ r.entries := by
  have hfirst : r.logged.map Prod.fst = r.entries :=
    List.map_fst_zip (Nat.le_of_eq h.complete.symm)
  constructor
  · rintro ⟨record, hin⟩
    exact hfirst ▸ List.mem_map_of_mem (f := Prod.fst) hin
  · intro hx
    rw [← hfirst] at hx
    obtain ⟨⟨y, record⟩, hin, rfl⟩ := List.mem_map.1 hx
    exact ⟨record, hin⟩

/-- Logs with one base time whose entries are shared out agree. -/
theorem logSplitInto_of_perm (hwhole : whole.LogsFrom base) (hparts : ∀ r ∈ parts, r.LogsFrom base)
    (hperm : (parts.flatMap Reading.entries).Perm whole.entries) : whole.LogSplitInto parts := by
  refine ⟨?_, ?_, ?_, ?_, ?_⟩
  · intro r hr
    rcases List.mem_cons.1 hr with rfl | hr
    · exact hwhole.complete
    · exact (hparts r hr).complete
  · rw [← hperm.length_eq, List.length_flatMap, List.length_flatMap]
    congr 1
    exact List.map_congr_left fun r hr => (hparts r hr).complete
  · intro x hx
    obtain ⟨place, ⟨r, hplace, hin⟩, hunique⟩ :=
      existsUnique_getElem?_of_perm hperm hwhole.ascending.nodup hx
    have hr : r ∈ parts := List.mem_of_getElem? hplace
    refine ⟨place, ⟨r, hplace, ((hparts r hr).exists_logged_iff x).2 hin⟩, ?_⟩
    rintro other ⟨r', hother, hlogged⟩
    have hr' : r' ∈ parts := List.mem_of_getElem? hother
    exact hunique other ⟨r', hother, ((hparts r' hr').exists_logged_iff x).1 hlogged⟩
  · rw [List.flatMap_congr fun r hr => (hparts r hr).times, hwhole.times, ← List.map_flatMap]
    exact hperm.map _
  · intro r hr hne
    have hentries : r.entries ≠ [] := by
      rw [← List.length_pos_iff, ← (hparts r hr).complete, List.length_pos_iff]
      exact hne
    have hsome : whole.entries ≠ [] := by
      obtain ⟨x, rest, hx⟩ := List.exists_cons_of_ne_nil hentries
      have hin : x ∈ r.entries := hx ▸ List.mem_cons_self
      exact List.ne_nil_of_mem (hperm.mem_iff.1 (List.mem_flatMap.2 ⟨r, hr, hin⟩))
    rw [(hparts r hr).baseTime hentries, hwhole.baseTime hsome]

end Reading

/-! ## Windows of a session -/

namespace Session

/-- The log of a window with the entries of the window, and the session after it. -/
def readLog (s : Session) (buffer : List NamedEvent) (w : Window) : Reading × Session :=
  (⟨w.entries buffer, (s.log buffer w).1⟩, (s.log buffer w).2)

variable {s : Session} {buffer : List NamedEvent}

theorem logsFrom_readLog (hs : s.ids.Faithful) {w : Window} {base : Int64}
    (hbase : w.events buffer ≠ [] →
      (s.originAfter (w.events buffer)).map Origin.baseTime = some base) :
    (s.readLog buffer w).1.LogsFrom base := by
  have hrecords : (s.log buffer w).1.records =
      (w.entries buffer).map fun x => (s.logFrame buffer w).eventRecord x.1 := by
    rw [log_records buffer w hs, ← w.map_fst_entries, List.map_map]
    rfl
  have horigin : w.entries buffer ≠ [] → (s.logFrame buffer w).origin.baseTime = base := by
    intro hne
    rw [← w.map_fst_entries] at hbase
    obtain ⟨o, ho, rfl⟩ := Option.map_eq_some_iff.1 (hbase (mt List.map_eq_nil_iff.1 hne))
    rw [logFrame, ← w.map_fst_entries, ho]
    rfl
  refine ⟨w.ascending_entries buffer, ?_, ?_, horigin⟩
  · rw [Reading.logged, readLog, hrecords, ← List.map_prod_left_eq_zip, List.map_map]
    refine List.map_congr_left fun x hx => ?_
    have htime : (s.logFrame buffer w).origin.time x.1.time = Origin.time ⟨base, 0⟩ x.1.time := by
      rw [Origin.time, horigin (List.ne_nil_of_mem hx)]
      rfl
    simp only [Function.comp_apply, withTimes, Frame.eventRecord, htime]
  · rw [readLog, hrecords, List.length_map]

/-- Events of windows in the order of time have their times in this order. -/
theorem micros_le_micros_of_windows (hleap : ∀ e ∈ buffer, e.time.isLeap = false) {u v : Window}
    (huv : u.stop ≤ v.start) :
    ∀ d ∈ u.events buffer, ∀ e ∈ v.events buffer, d.micros ≤ e.micros := by
  intro d hd e he
  obtain ⟨hin, hd⟩ := List.mem_filter.1 hd
  obtain ⟨-, he⟩ := List.mem_filter.1 he
  have hstop : d.time ≤ u.stop := Std.le_of_lt (Window.contains_eq_true.1 hd).2
  have hstart : v.start ≤ e.time := (Window.contains_eq_true.1 he).1
  exact Instant.micros_le_micros (hleap d hin) (Std.le_trans hstop (Std.le_trans huv hstart))

theorem forall₂_readLogs (hs : s.ids.Faithful) (hleap : ∀ e ∈ buffer, e.time.isLeap = false)
    {windows : List Window} (horder : windows.Pairwise fun u v => u.stop ≤ v.start) {base : Int64}
    (hbase : windows.flatMap (fun w => w.events buffer) ≠ [] →
      (s.originAfter (windows.flatMap fun w => w.events buffer)).map Origin.baseTime = some base) :
    List.Forall₂ (fun r w => r.LogsFrom base ∧ r.entries = w.entries buffer)
      (mapThrough (fun s w => Session.readLog s buffer w) s windows).1 windows := by
  induction windows generalizing s with
  | nil => exact List.Forall₂.nil
  | cons w windows ih =>
    obtain ⟨hfirst, hothers⟩ := List.pairwise_cons.1 horder
    have hlater : ∀ d ∈ w.events buffer,
        ∀ e ∈ windows.flatMap (fun v => v.events buffer), d.micros ≤ e.micros := by
      intro d hd e he
      obtain ⟨v, hv, he⟩ := List.mem_flatMap.1 he
      exact micros_le_micros_of_windows hleap (hfirst v hv) d hd e he
    rw [List.flatMap_cons] at hbase
    rw [mapThrough_cons]
    refine List.Forall₂.cons ⟨logsFrom_readLog hs fun hne => ?_, rfl⟩
      (ih (makes_log buffer w hs).faithful hothers fun hne => ?_)
    · rw [← s.baseTime_originAfter_append hne hlater]
      exact hbase (List.append_ne_nil_of_left_ne_nil hne _)
    · have hcons : w.events buffer ++ windows.flatMap (fun v => v.events buffer) ≠ [] :=
        List.append_ne_nil_of_right_ne_nil _ hne
      rw [s.baseTime_originAfter_of_eq rfl hlater]
      exact hbase hcons

/-- Logging a range in one piece and in the windows that a step splits it into agree. -/
theorem readLog_splitInto (h : s.Reachable) (hleap : ∀ e ∈ buffer, e.time.isLeap = false)
    (w : Window) (step : Option Int64) :
    (s.readLog buffer w).1.LogSplitInto
      (mapThrough (fun s v => Session.readLog s buffer v) s (w.split step)).1 := by
  have hparted : ((w.split step).flatMap fun v => v.events buffer).Perm (w.events buffer) :=
    Window.perm_split Event.time buffer w step
  obtain ⟨base, hbase⟩ : ∃ base : Int64, w.events buffer ≠ [] →
      (s.originAfter (w.events buffer)).map Origin.baseTime = some base := by
    cases ho : s.originAfter (w.events buffer) with
    | some o => exact ⟨o.baseTime, fun _ => rfl⟩
    | none => exact ⟨0, fun hne => absurd (s.originAfter_eq_none_iff.1 ho).2 hne⟩
  have hnone : w.events buffer = [] → (w.split step).flatMap (fun v => v.events buffer) = [] := by
    intro hnil
    rw [hnil] at hparted
    exact hparted.eq_nil
  have hfixed : (w.split step).flatMap (fun v => v.events buffer) ≠ [] →
      (s.originAfter ((w.split step).flatMap fun v => v.events buffer)).map Origin.baseTime =
        some base := by
    rw [s.originAfter_eq_of_perm hparted]
    exact fun hne => hbase (mt hnone hne)
  have hparts := forall₂_readLogs h.faithful hleap (w.pairwise_split step) hfixed
  obtain ⟨hlogs, hsame⟩ := (List.forall₂_and_left _ _).1 hparts
  refine Reading.logSplitInto_of_perm (logsFrom_readLog h.faithful hbase) hlogs ?_
  rw [← List.forall₂_map_right_iff, ← List.forall₂_map_left_iff, List.forall₂_eq_eq_eq] at hsame
  rw [List.flatMap_def, hsame, ← List.flatMap_def]
  exact Window.perm_split (fun x : Entry => x.1.time) buffer.zipIdx w step

/-- The first five seconds split by two, in a session whose origin the first window has to fix. -/
theorem readLog_splitInto_handover :
    empty.Reachable ∧ empty.origin = none ∧ (∀ e ∈ handover, e.time.isLeap = false) ∧
      Window.split ⟨.ofSecond 0, .ofSecond 5⟩ (some 2000000) =
        [⟨.ofSecond 0, .ofSecond 2⟩, ⟨.ofSecond 2, .ofSecond 4⟩, ⟨.ofSecond 4, .ofSecond 5⟩] ∧
      (empty.readLog handover ⟨.ofSecond 0, .ofSecond 5⟩).1.LogSplitInto
        (mapThrough (fun s v => Session.readLog s handover v) empty
          (Window.split ⟨.ofSecond 0, .ofSecond 5⟩ (some 2000000))).1 := by
  have hleap : ∀ e ∈ handover, e.time.isLeap = false := by decide
  have hreachable : empty.Reachable := ⟨[], rfl⟩
  have hsplit : Window.split ⟨.ofSecond 0, .ofSecond 5⟩ (some 2000000) =
      [⟨.ofSecond 0, .ofSecond 2⟩, ⟨.ofSecond 2, .ofSecond 4⟩, ⟨.ofSecond 4, .ofSecond 5⟩] := by
    decide +kernel
  exact ⟨hreachable, rfl, hleap, hsplit, readLog_splitInto hreachable hleap _ _⟩

end Session

end FlowTrace
