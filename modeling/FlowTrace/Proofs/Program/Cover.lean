import FlowTrace.Proofs.Program.Build
import FlowTrace.Proofs.Trace.LogSplitting
set_option autoImplicit false

/-!
# Program: what a build covers unasked

Without a range, a build covers the dump from its first event to just behind the last one.  An event
at the last instant that there is has nothing behind it: the range ends there, and does not hold it.
All other events of a dump have their record in exactly one window of a log.
-/

namespace FlowTrace

open Entries

/-! ## Outputs -/

namespace Storage

variable {files : FileTree} {path : String}

/-- A document can be written to the path. -/
def Writable (files : FileTree) (path : String) : Prop :=
  ∃ d written, writeDocument files path d = .ok written

/-- Where one document can be written, every other one can. -/
theorem Writable.exists_written (h : Writable files path) (d : Document) :
    ∃ written, writeDocument files path d = .ok written := by
  obtain ⟨first, written, h⟩ := h
  obtain ⟨u, hcheck, h⟩ := Failure.exists_of_bind_eq_ok h
  obtain ⟨above, habove, h⟩ := Failure.exists_of_bind_eq_ok h
  have hfirst : above.write path first.text = .ok written := Failure.mapError_eq_ok_iff.1 h
  obtain ⟨place, hplace, -⟩ := Failure.exists_of_bind_eq_ok hfirst
  have hwrite : above.write path d.text = .ok (above.set place (.file (some d.text))) := by
    simp only [FileTree.write, hplace, bind, Except.bind, pure, Except.pure]
  refine ⟨above.set place (.file (some d.text)), ?_⟩
  simp only [writeDocument, hcheck, habove, hwrite, bind, Except.bind]
  rfl

end Storage

/-! ## How builds end -/

namespace Build

/-- How a build ends that has made a document and written it. -/
def ending (request : BuildRequest) (d : Document) : Except Stop Document :=
  if request.summary then
    match (summaries request.topNodes d).2 with
    | some overflow => .error (.overflow overflow)
    | none => .ok d
  else .ok d

/-- Where the output can be written, the document alone decides how the build ends. -/
theorem result_of_writable {files : FileTree} (request : BuildRequest) (now : String)
    (h : Storage.Writable files request.output) :
    (run files request now).result =
      (document files request now).mapError Stop.failure >>= ending request := by
  cases hmade : document files request now with
  | error failure => simp only [run, hmade, Except.mapError, bind, Except.bind]
  | ok d =>
    obtain ⟨written, hwritten⟩ := h.exists_written d
    simp only [run, hmade, hwritten, Failure.during, Except.mapError, bind, Except.bind, ending]
    by_cases hsummary : request.summary = true
    · rw [if_pos hsummary, if_pos hsummary]
      rcases hshown : summaries request.topNodes d with ⟨text, overflow⟩
      cases overflow <;> rfl
    · rw [if_neg hsummary, if_neg hsummary]

/-! ## The range -/

/-- The range of a build that is asked for none. -/
def defaultRange (events : List NamedEvent) : Window :=
  let start := (events.map Event.time).min?.getD .epoch
  ⟨start, (events.map fun e => justAfter e.time).max?.getD start⟩

variable {events : List NamedEvent} {e : NamedEvent}

theorem range_none (events : List NamedEvent) :
    range events none none = .ok (defaultRange events) := rfl

theorem isWhole_justAfter {t : Instant} (h : t.IsWhole) : (justAfter t).IsWhole := by
  unfold justAfter
  cases hlater : t.later? 1 with
  | none => exact h
  | some u => exact h.of_later? hlater

theorem start_defaultRange_le (he : e ∈ events) : (defaultRange events).start ≤ e.time := by
  have hin : e.time ∈ events.map Event.time := List.mem_map_of_mem he
  cases hmin : (events.map Event.time).min? with
  | none => rw [List.min?_eq_none_iff.1 hmin] at hin; cases hin
  | some first =>
    rw [defaultRange, hmin]
    exact (List.min?_eq_some_iff.1 hmin).2 e.time hin

/-- The range ends behind an event just when there is an instant behind the event. -/
theorem lt_stop_defaultRange_iff (hwhole : ∀ e ∈ events, e.time.IsWhole) (he : e ∈ events) :
    e.time < (defaultRange events).stop ↔ e.time.hasNext = true := by
  have hin : justAfter e.time ∈ events.map fun e => justAfter e.time := List.mem_map_of_mem he
  cases hmax : (events.map fun e => justAfter e.time).max? with
  | none => rw [List.max?_eq_none_iff.1 hmax] at hin; cases hin
  | some last =>
    have hstop : (defaultRange events).stop = last := by rw [defaultRange, hmax]; rfl
    obtain ⟨hlast, hbound⟩ := List.max?_eq_some_iff.1 hmax
    rw [hstop]
    constructor
    · intro hlt
      by_contra hnext
      obtain ⟨d, hd, hafter⟩ := List.mem_map.1 hlast
      have hle : last ≤ e.time := by
        rw [← hafter]
        exact (hwhole e he).le_of_hasNext (Bool.eq_false_iff.2 hnext)
          (isWhole_justAfter (hwhole d hd))
      exact hle hlt
    · intro hnext
      obtain ⟨u, hu⟩ := Option.isSome_iff_exists.1 hnext
      have hafter : justAfter e.time = u := by rw [justAfter, hu]; rfl
      exact Std.lt_of_lt_of_le (Instant.lt_of_later? (by decide) hu)
        (hafter ▸ hbound _ hin)

theorem contains_defaultRange (hwhole : ∀ e ∈ events, e.time.IsWhole) (he : e ∈ events) :
    (defaultRange events).contains e.time = e.time.hasNext := by
  rw [Bool.eq_iff_iff, Window.contains_eq_true, lt_stop_defaultRange_iff hwhole he]
  exact and_iff_right (start_defaultRange_le he)

theorem entries_defaultRange (hwhole : ∀ e ∈ events, e.time.IsWhole) :
    (defaultRange events).entries events = events.zipIdx.filter fun x => x.1.time.hasNext := by
  refine List.filter_congr fun x hx => ?_
  exact contains_defaultRange hwhole (List.fst_mem_of_mem_zipIdx hx)

end Build

/-! ## Logs of windows -/

/-- The trace has one record for each of the entries, in their order, with ids that `ids` has too. -/
structure Trace.LogOf (ids : IdTables) (t : Trace) (share : List Entry) : Prop where
  records : t.records =
    share.map fun x => Frame.eventRecord ⟨ids, t.origin, share.map Prod.fst⟩ x.1
  names : t.streamNames <+: ids.streams.names

namespace Build

/-- Logs in one session all have the ids of the session in the end. -/
theorem exists_ids_of_logs (buffer : List NamedEvent) (windows : List Window) (s : Session)
    (hs : s.ids.Faithful) :
    ∃ ids, s.ids.Within ids ∧
      List.Forall₂ (fun t w => t.LogOf ids (w.entries buffer))
        (mapThrough (window .log buffer) s windows).1 windows := by
  induction windows generalizing s with
  | nil => exact ⟨s.ids, IdTables.Within.refl s.ids, List.Forall₂.nil⟩
  | cons w windows ih =>
    obtain ⟨hanswers, hnext⟩ := answers_window .log buffer hs w
    have hmakes := hanswers.makes
    rw [hnext] at hmakes
    obtain ⟨ids, hlater, hrest⟩ := ih _ hmakes.faithful
    refine ⟨ids, hmakes.within.trans hlater, ?_⟩
    rw [mapThrough_cons]
    refine List.Forall₂.cons ⟨?_, ?_⟩ hrest
    · rw [hanswers.records_eq (hnext ▸ hlater), hanswers.shown, w.map_fst_entries]
      show (w.events buffer).map _ = _
      rw [← w.map_fst_entries, List.map_map]
      rfl
    · rw [hanswers.names, hnext]
      exact hlater.names

/-- The entries of a dump, shared out to the windows of a log of the whole dump. -/
def shares (events : List NamedEvent) (step : Option Int64) : List (List Entry) :=
  ((defaultRange events).split step).map fun w => w.entries events

theorem perm_shares {events : List NamedEvent} (hwhole : ∀ e ∈ events, e.time.IsWhole)
    (step : Option Int64) :
    (shares events step).flatten.Perm (events.zipIdx.filter fun x => x.1.time.hasNext) := by
  rw [← entries_defaultRange hwhole, shares, ← List.flatMap_def]
  exact Window.perm_split (fun x : Entry => x.1.time) events.zipIdx (defaultRange events) step

/-- An entry with an instant behind it is in one share only, and one without is in none. -/
theorem existsUnique_share {events : List NamedEvent} (hwhole : ∀ e ∈ events, e.time.IsWhole)
    (step : Option Int64) {x : Entry} (hx : x ∈ events.zipIdx) :
    if x.1.time.hasNext then
      ∃! place : Nat, ∃ share, (shares events step)[place]? = some share ∧ x ∈ share
    else ∀ share ∈ shares events step, x ∉ share := by
  have hperm := perm_shares hwhole step
  by_cases hnext : x.1.time.hasNext = true
  · rw [if_pos hnext]
    rw [← List.flatMap_id] at hperm
    exact existsUnique_getElem?_of_perm hperm
      (entries_defaultRange hwhole ▸ (Window.ascending_entries _ _).nodup)
      (List.mem_filter.2 ⟨hx, hnext⟩)
  · rw [if_neg hnext]
    intro share hshare hin
    have hshared := hperm.mem_iff.1 (List.mem_flatten.2 ⟨share, hshare, hin⟩)
    exact hnext (List.mem_filter.1 hshared).2

/-! ## Logs of whole dumps -/

/-- The request is for a log of all events of a dump, in windows or not. -/
structure AsksWholeLog (request : BuildRequest) : Prop where
  mode : request.mode = .log
  start : request.start = none
  stop : request.stop = none
  capacity : request.capacity = none

/-- The log of a whole dump. -/
def wholeLog (request : BuildRequest) (now : String) (events : List NamedEvent) : Document where
  version := Document.schemaVersion
  mode := .log
  windowBegin := (defaultRange events).start
  windowEnd := (defaultRange events).stop
  traces := traces .log events ((defaultRange events).split request.windowMicros)
  generatedAt := now

variable {files : FileTree} {request : BuildRequest} {all : List NamedEvent} (now : String)

/-- Logs print nothing, so a build that is asked for one succeeds. -/
theorem result_wholeLog (h : AsksWholeLog request)
    (hwritable : Storage.Writable files request.output)
    (hall : Storage.readEvents files request.input = .ok all) :
    (run files request now).result = .ok (wholeLog request now all) := by
  have hdocument : document files request now = .ok (wholeLog request now all) := by
    rw [document_of_events request now hall, h.mode, h.start, h.stop, h.capacity, range_none]
    rfl
  rw [result_of_writable request now hwritable, hdocument]
  show ending request (wholeLog request now all) = _
  unfold ending
  split <;> rfl

theorem exists_ids_wholeLog (request : BuildRequest) (all : List NamedEvent) :
    ∃ ids, List.Forall₂ (Trace.LogOf ids) (wholeLog request now all).traces
      (shares all request.windowMicros) := by
  obtain ⟨ids, -, hlogs⟩ := exists_ids_of_logs all
    ((defaultRange all).split request.windowMicros) Session.empty IdTables.faithful_empty
  exact ⟨ids, List.forall₂_map_right_iff.2 hlogs⟩

theorem recordCount_wholeLog (request : BuildRequest) (hwhole : ∀ e ∈ all, e.time.IsWhole) :
    (wholeLog request now all).recordCount = all.countP fun e => e.time.hasNext := by
  obtain ⟨ids, hlogs⟩ := exists_ids_wholeLog now request all
  have hlength : ∀ {ts : List Trace} {xss : List (List Entry)},
      List.Forall₂ (Trace.LogOf ids) ts xss →
        (ts.flatMap Trace.records).length = xss.flatten.length := by
    intro ts xss h
    induction h with
    | nil => rfl
    | cons hlog _ ih => simp [hlog.records, ih]
  rw [Document.recordCount, hlength hlogs, (perm_shares hwhole _).length_eq,
    ← List.countP_eq_length_filter]
  conv_rhs => rw [← List.zipIdx_map_fst 0 all, List.countP_map]
  rfl

/-- A log of a whole dump, in windows or not, succeeds where its output can be written.  Each event
has its record in exactly one of the windows, except for those at the last instant, which have
none. -/
theorem run_wholeLog (h : AsksWholeLog request)
    (hwritable : Storage.Writable files request.output)
    (hall : Storage.readEvents files request.input = .ok all) :
    ∃ d, (run files request now).result = .ok d ∧
      d.recordCount = all.countP (fun e => e.time.hasNext) ∧
      ∃ (ids : IdTables) (shares : List (List Entry)),
        List.Forall₂ (Trace.LogOf ids) d.traces shares ∧
        shares.flatten.Perm (all.zipIdx.filter fun x => x.1.time.hasNext) ∧
        ∀ x ∈ all.zipIdx,
          if x.1.time.hasNext then
            ∃! place : Nat, ∃ share, shares[place]? = some share ∧ x ∈ share
          else ∀ share ∈ shares, x ∉ share := by
  have hwhole := Storage.isWhole_of_readEvents hall
  obtain ⟨ids, hlogs⟩ := exists_ids_wholeLog now request all
  exact ⟨wholeLog request now all, result_wholeLog now h hwritable hall,
    recordCount_wholeLog now request hwhole, ids, shares all request.windowMicros, hlogs,
    perm_shares hwhole _, fun _ hx => existsUnique_share hwhole _ hx⟩

theorem asksWholeLog_sample : AsksWholeLog sampleRequest := ⟨rfl, rfl, rfl, rfl⟩

theorem writable_dumpFiles (text : String) :
    Storage.Writable (Storage.dumpFiles text) sampleRequest.output :=
  ⟨sampleDocument, _, Storage.writeDocument_dumpFiles text sampleDocument⟩

/-- Both events of the sample dump have a record. -/
theorem run_wholeLog_sample :
    AsksWholeLog sampleRequest ∧ Storage.Writable sampleFiles sampleRequest.output ∧
      Storage.readEvents sampleFiles sampleRequest.input = .ok sampleEvents ∧
      ∃ d, (run sampleFiles sampleRequest "now").result = .ok d ∧ d.recordCount = 2 := by
  have hwritable : Storage.Writable sampleFiles sampleRequest.output := writable_dumpFiles _
  obtain ⟨d, hd, hcount, -⟩ := run_wholeLog "now" asksWholeLog_sample hwritable
    readEvents_sample
  have hboth : sampleEvents.countP (fun e => e.time.hasNext) = 2 := by decide +kernel
  exact ⟨asksWholeLog_sample, hwritable, readEvents_sample, d, hd, hcount.trans hboth⟩

/-- An event with nothing behind it. -/
def lastEvent : NamedEvent :=
  ⟨.last, 0, .unset, .unset, .unknown, none, none, 0, false⟩

/-- The log of a dump of that event is empty. -/
theorem recordCount_run_lastEvent :
    let files := Storage.dumpFiles "[[8210266876799999999]]"
    AsksWholeLog sampleRequest ∧ Storage.Writable files sampleRequest.output ∧
      Storage.readEvents files sampleRequest.input = .ok [lastEvent] ∧
      ∃ d, (run files sampleRequest "now").result = .ok d ∧ d.recordCount = 0 := by
  have hall : Storage.readEvents (Storage.dumpFiles "[[8210266876799999999]]")
      sampleRequest.input = .ok [lastEvent] :=
    Storage.readEvents_dumpFiles (by decide +kernel)
  have hlast : [lastEvent].countP (fun e => e.time.hasNext) = 0 := by decide +kernel
  have hcount := recordCount_wholeLog "now" sampleRequest
    (Storage.isWhole_of_readEvents hall)
  exact ⟨asksWholeLog_sample, writable_dumpFiles _, hall, _,
    result_wholeLog _ asksWholeLog_sample (writable_dumpFiles _) hall, hcount.trans hlast⟩

end Build

end FlowTrace
