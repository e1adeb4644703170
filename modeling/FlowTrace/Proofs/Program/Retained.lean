import FlowTrace.Proofs.Program.Cover
import FlowTrace.Proofs.Trace.Allocations
set_option autoImplicit false

/-!
# Program: builds from the last events

A build that keeps only some of the most recent events makes the document of a dump that has no
others: the range, the windows and the traces are told from the events kept and from nothing else of
the dump.  Between two dumps the allocations of stream names differ, which none of these take notice
of.
-/

namespace FlowTrace

/-- What a document says of the events it was made from. -/
def Document.content (d : Document) : Mode × Instant × Instant × List Trace :=
  (d.mode, d.windowBegin, d.windowEnd, d.traces)

namespace Build

/-- The traces of a build are the answers to the calls for its windows. -/
theorem run_map_call (mode : Mode) (buffer : List NamedEvent) (s : Session) (ws : List Window) :
    (s.run (ws.map (call mode buffer))).1 = (mapThrough (window mode buffer) s ws).1.map some := by
  induction ws generalizing s with
  | nil => rfl
  | cons w ws ih =>
    rw [List.map_cons, Session.run, mapThrough_cons, mapThrough_cons, call_eq_window, List.map_cons,
      ← ih]
    rfl

/-! ## Events that differ in allocations -/

section

variable {events events' : List NamedEvent} (h : events.map Event.bare = events'.map Event.bare)

include h

theorem map_eq_of_bare {β : Type} {f : NamedEvent → β} (hf : ∀ e : NamedEvent, f e.bare = f e) :
    events.map f = events'.map f := by
  rw [← map_map_bare hf events, h, map_map_bare hf]

theorem range_eq_of_bare (start stop : Option String) :
    range events start stop = range events' start stop := by
  have hstart : startOf events start = startOf events' start := by
    unfold startOf
    rw [map_eq_of_bare h fun _ => rfl]
  have hstop : ∀ first, stopOf events first stop = stopOf events' first stop := by
    intro first
    unfold stopOf
    rw [map_eq_of_bare h fun _ => rfl]
  rw [range, range, hstart]
  exact bind_congr fun first => by rw [hstop]

theorem traces_eq_of_bare (mode : Mode) (ws : List Window) :
    traces mode events ws = traces mode events' ws := by
  have hcalls : (ws.map (call mode events)).map SessionCall.bare =
      (ws.map (call mode events')).map SessionCall.bare := by
    rw [List.map_map, List.map_map]
    refine List.map_congr_left fun w _ => ?_
    cases mode with
    | trace => exact congrArg (SessionCall.trace · w) h
    | log => exact congrArg (SessionCall.log · w) h
  have hfaithful : Session.empty.ids.Faithful := IdTables.faithful_empty
  have hanswers := Session.run_eq_of_bare hfaithful hcalls
  rw [run_map_call, run_map_call] at hanswers
  exact List.map_injective_iff.2 (fun _ _ hsame => Option.some.inj hsame) hanswers

end

/-! ## Documents and summaries of the same content -/

variable {files : FileTree} {request : BuildRequest} {all : List NamedEvent}

theorem ending_eq_of_content {d d' : Document} (h : d.content = d'.content) :
    (ending request d).map Document.content = (ending request d').map Document.content := by
  obtain ⟨hmode, -, -, htraces⟩ : d.mode = d'.mode ∧ d.windowBegin = d'.windowBegin ∧
      d.windowEnd = d'.windowEnd ∧ d.traces = d'.traces := by
    simpa only [Document.content, Prod.mk.injEq] using h
  have hsummaries : summaries request.topNodes d = summaries request.topNodes d' := by
    unfold summaries
    rw [hmode, htraces]
  have hok : (Except.ok d : Except Stop Document).map Document.content =
      (Except.ok d').map Document.content := congrArg Except.ok h
  unfold ending
  rw [hsummaries]
  split
  · split
    · rfl
    · exact hok
  · exact hok

/-- Builds of the same content end with the same content, or stop at the same point. -/
theorem bind_ending_eq_of_content {made made' : Except Failure Document}
    (h : made.map Document.content = made'.map Document.content) :
    (made.mapError Stop.failure >>= ending request).map Document.content =
      (made'.mapError Stop.failure >>= ending request).map Document.content := by
  cases made with
  | error failure =>
    cases made' with
    | error failure' =>
      cases h
      rfl
    | ok d' => cases h
  | ok d =>
    cases made' with
    | error failure' => cases h
    | ok d' => exact ending_eq_of_content (Except.ok.inj h)

/-! ## Builds that keep the last events -/

/-- A build that keeps `n` events makes the same of a dump as a build that keeps all makes of the last
`n` events. -/
theorem document_retained {n : Nat} {files' : FileTree} {input : String}
    (output now now' : String) {all' : List NamedEvent}
    (hall : Storage.readEvents files request.input = .ok all)
    (hall' : Storage.readEvents files' input = .ok all')
    (hlast : all'.map (Event.mapStream StreamName.text) =
      (all.map (Event.mapStream StreamName.text)).rtake (max n 1)) :
    (document files { request with capacity := some n } now).map Document.content =
      (document files' { request with input, output, capacity := none } now').map
        Document.content := by
  have hbare : (retained (some n) all).map Event.bare = (retained none all').map Event.bare := by
    apply Event.map_bare_eq_of_texts
    rw [retained_some, retained, hlast, List.rtake, List.rtake, List.map_drop, List.length_map]
  have hrange := range_eq_of_bare hbare request.start request.stop
  rw [document_of_events { request with capacity := some n } now hall,
    document_of_events { request with input, output, capacity := none } now' hall']
  show ((range (retained (some n) all) request.start request.stop).map _).map _ =
    ((range (retained none all') request.start request.stop).map _).map _
  rw [hrange]
  cases range (retained none all') request.start request.stop with
  | error failure => simp only [Except.map]
  | ok w =>
    have htraces := traces_eq_of_bare hbare request.mode (w.split request.windowMicros)
    exact congrArg (fun ts => Except.ok (request.mode, w.start, w.stop, ts)) htraces

/-- A recorder has room for as many elements as its capacity says, and for one at least.  After any
calls it holds the last elements it was given, as many as it has room for, oldest first.  So a build
with the capacity `n` makes the same mode, range and traces of a dump as a build without a capacity
makes of a dump with the last `n` events only, whatever else both are asked for; and where both
outputs can be written, both succeed, or both stop for the same reason. -/
theorem run_retained :
    (∀ (α : Type) (capacity : Nat) (calls : List (HistoryCall α)),
      ((History.empty α capacity).run calls).toList =
          (calls.flatMap HistoryCall.recorded).rtake (max capacity 1) ∧
        ((History.empty α capacity).run calls).size =
          min (calls.flatMap HistoryCall.recorded).length (max capacity 1)) ∧
      ∀ (files files' : FileTree) (request : BuildRequest) (n : Nat)
        (input output now now' : String) (all all' : List NamedEvent),
        Storage.readEvents files request.input = .ok all →
        Storage.readEvents files' input = .ok all' →
        all'.map (Event.mapStream StreamName.text) =
          (all.map (Event.mapStream StreamName.text)).rtake (max n 1) →
        (∀ d d',
          (run files { request with capacity := some n } now).result = .ok d →
          (run files' { request with input, output, capacity := none } now').result = .ok d' →
          d.content = d'.content) ∧
        (Storage.Writable files request.output → Storage.Writable files' output →
          (run files { request with capacity := some n } now).result.map Document.content =
            (run files' { request with input, output, capacity := none } now').result.map
              Document.content) := by
  refine ⟨fun α capacity calls => ?_, ?_⟩
  · have hholds := (History.holdsLast_empty (α := α) capacity).run calls
    exact ⟨hholds.elements, hholds.size_eq⟩
  · intro files files' request n input output now now' all all' hall hall' hlast
    have hsame := document_retained output now now' hall hall' hlast
    refine ⟨fun d d' hd hd' => ?_, fun hwritable hwritable' => ?_⟩
    · rw [(document_of_run hd).1, (document_of_run hd').1] at hsame
      exact Except.ok.inj hsame
    · rw [result_of_writable { request with capacity := some n } now hwritable,
        result_of_writable { request with input, output, capacity := none } now' hwritable']
      exact bind_ending_eq_of_content hsame

/-- A working directory with a dump of the second event of the sample dump. -/
def lastFiles : FileTree := Storage.dumpFiles "[[9,1,10,10,2,null,null,4,true]]"

/-- With room for one event, the log of the sample dump is that of its second event. -/
theorem run_retained_sample :
    Storage.readEvents sampleFiles sampleRequest.input = .ok sampleEvents ∧
      Storage.readEvents lastFiles "events.json" = .ok (sampleEvents.drop 1) ∧
      Storage.Writable sampleFiles sampleRequest.output ∧
      Storage.Writable lastFiles "trace.json" ∧
      (run sampleFiles { sampleRequest with capacity := some 1 } "now").result.map
        Document.content = .ok (wholeLog sampleRequest "later" (sampleEvents.drop 1)).content := by
  have hall' : Storage.readEvents lastFiles "events.json" = .ok (sampleEvents.drop 1) :=
    Storage.readEvents_dumpFiles (by decide +kernel)
  have hlast : (sampleEvents.drop 1).map (Event.mapStream StreamName.text) =
      (sampleEvents.map (Event.mapStream StreamName.text)).rtake (max 1 1) := rfl
  have hwritable : Storage.Writable sampleFiles sampleRequest.output := writable_dumpFiles _
  have hwritable' : Storage.Writable lastFiles "trace.json" := writable_dumpFiles _
  have hresult := (run_retained.2 sampleFiles lastFiles sampleRequest 1 "events.json" "trace.json"
    "now" "later" sampleEvents (sampleEvents.drop 1) readEvents_sample hall' hlast).2 hwritable
      hwritable'
  have hwhole := result_wholeLog "later" asksWholeLog_sample hwritable' hall'
  refine ⟨readEvents_sample, hall', hwritable, hwritable', hresult.trans ?_⟩
  exact congrArg (Except.map Document.content) hwhole

end Build

end FlowTrace
