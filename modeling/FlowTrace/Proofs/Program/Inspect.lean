import FlowTrace.Document
import FlowTrace.Program.Run
import FlowTrace.Proofs.Files.Writing
import FlowTrace.Proofs.Program.Build
import FlowTrace.Proofs.Time.Rfc3339
import FlowTrace.Proofs.Trace.Json
import FlowTrace.Proofs.Trace.OpenStamps
set_option autoImplicit false

/-!
# Program: looking at documents and dumps

The text of a document is read as the document, and so a document that was written is read back from
its path and accepted.  A dump that is asked for the first open stamp may hold an event that the stamp
misses.
-/

namespace FlowTrace

/-!
## The text of a document

The text of a document is read as the document, whatever its strings, numbers and times are: the
fields are read back one by one, and the layout that they are written in spells them.
-/

open Json

theorem Mode.ofJson?_text_name (mode : Mode) : ofJson? (.text mode.name) = some mode := by
  cases mode <;> decide

theorem Instant.ofJson?_text (t : Instant) :
    ofJson? (.text (Rfc3339.text .zulu t)) = some t := by
  rw [ofJson?, text?_text, Option.bind_some, Rfc3339.text, String.toList_ofList,
    Rfc3339.readFree?_write]

namespace Document

/-- The fields of a written document. -/
def fields (d : Document) : List (Option String × Json) :=
  [field "version" (.text d.version),
   field "mode" (.text d.mode.name),
   field "window_begin" (.text (Rfc3339.text .zulu d.windowBegin)),
   field "window_end" (.text (Rfc3339.text .zulu d.windowEnd)),
   field "traces" (.array (d.traces.map Trace.toJson)),
   field "generated_at" (.text d.generatedAt)]

theorem toJson_eq (d : Document) : d.toJson = .object d.fields := rfl

/-- Reading the value of a document gives the document. -/
theorem ofJson?_toJson (d : Document) : ofJson? d.toJson = some d := by
  have hsublist : (d.fields.map Prod.fst).Sublist (fieldNames.map some) := List.Sublist.refl _
  obtain ⟨record, hrecord, hlookup⟩ := exists_record? .refused (by decide) hsublist
  have hversion : record.required? "version" text? = some d.version :=
    (Record.required?_eq (by simp [hlookup, fields])).trans (text?_text _)
  have hmode : record.required? "mode" Mode.ofJson? = some d.mode :=
    (Record.required?_eq (by simp [hlookup, fields])).trans (Mode.ofJson?_text_name _)
  have hbegin : record.required? "window_begin" Instant.ofJson? = some d.windowBegin :=
    (Record.required?_eq (by simp [hlookup, fields])).trans (Instant.ofJson?_text _)
  have hend : record.required? "window_end" Instant.ofJson? = some d.windowEnd :=
    (Record.required?_eq (by simp [hlookup, fields])).trans (Instant.ofJson?_text _)
  have htraces : record.required? "traces" (list? Trace.ofJson?) = some d.traces :=
    (Record.required?_eq (by simp [hlookup, fields])).trans
      (list?_map fun t _ => t.ofJson?_toJson)
  have hgenerated : record.required? "generated_at" text? = some d.generatedAt :=
    (Record.required?_eq (by simp [hlookup, fields])).trans (text?_text _)
  rw [toJson_eq, ofJson?, hrecord]
  simp [hversion, hmode, hbegin, hend, htraces, hgenerated]

theorem plain_toJson (d : Document) : Plain d.toJson := by
  have htraces : Plain (.array (d.traces.map Trace.toJson)) :=
    plain_array_map _ fun t _ => t.plain_toJson
  refine plain_object ?_
  simp [plainField_field, Plain.text, htraces]

/-- The text of a document is read as the document. -/
theorem ofText?_text (d : Document) : ofText? d.text = some d := by
  rw [ofText?, text, d.plain_toJson.parse?_prettyText, Option.bind_some, ofJson?_toJson]

end Document

end FlowTrace

/-!
## Documents on disk

A document that was written is read back from its path, whatever it holds and whatever else is on
the disk.  So a build that succeeds leaves a file that holds the document it returned, and checking
that file accepts it.
-/

namespace FlowTrace

namespace Storage

variable {files written : FileTree} {path : String} {d : Document}

/-- What was written to a path is read from it. -/
theorem readDocument_of_writeDocument (h : writeDocument files path d = .ok written) :
    readDocument written path = .ok d := by
  obtain ⟨-, -, h⟩ := Failure.exists_of_bind_eq_ok h
  obtain ⟨above, -, h⟩ := Failure.exists_of_bind_eq_ok h
  have hwrite : above.write path d.text = .ok written := Failure.mapError_eq_ok_iff.1 h
  obtain ⟨place, hfind⟩ := FileTree.find_of_write hwrite
  simp only [readDocument, hfind, Except.mapError, bind, Except.bind, d.ofText?_text]
  rfl

end Storage

theorem Inspect.validate_of_readDocument {files : FileTree} {path : String} {d : Document}
    (h : Storage.readDocument files path = .ok d) (hversion : d.version = Document.schemaVersion) :
    (validate files path).2 = .ok () := by
  have hknown : knownDocument files path = .ok d := by
    simp only [knownDocument, h, bind, Except.bind, if_pos hversion]
    rfl
  rw [validate, hknown]

/-- Every document is read back from its text and from every file that it was written to; in
particular the file that a build leaves holds the document returned, and is accepted. -/
theorem Build.run_readsBack :
    (∀ d : Document, Document.ofText? d.text = some d) ∧
    (∀ (files written : FileTree) (path : String) (d : Document),
      Storage.writeDocument files path d = .ok written →
        Storage.readDocument written path = .ok d) ∧
    (∀ (files : FileTree) (request : BuildRequest) (now : String) (d : Document),
      (run files request now).result = .ok d →
        Storage.readDocument (run files request now).files request.output = .ok d ∧
          (Inspect.validate (run files request now).files request.output).2 = .ok ()) := by
  refine ⟨Document.ofText?_text, ?_, ?_⟩
  · intro files written path d h
    exact Storage.readDocument_of_writeDocument h
  · intro files request now d h
    obtain ⟨hdocument, hwritten⟩ := document_of_run h
    obtain ⟨all, hmade⟩ := exists_made_of_document hdocument
    have hread := Storage.readDocument_of_writeDocument hwritten
    exact ⟨hread, Inspect.validate_of_readDocument hread hmade.version⟩

/-- The log of a sample dump is read back from the disk. -/
theorem Build.run_readsBack_sample :
    Document.ofText? sampleDocument.text = some sampleDocument ∧
      (run sampleFiles sampleRequest "now").result = .ok sampleDocument ∧
      Storage.readDocument (run sampleFiles sampleRequest "now").files sampleRequest.output =
        .ok sampleDocument ∧
      (Inspect.validate (run sampleFiles sampleRequest "now").files sampleRequest.output).2 =
        .ok () := by
  obtain ⟨htexts, -, hbuilds⟩ := run_readsBack
  exact ⟨htexts sampleDocument, result_run_sample, hbuilds _ _ _ _ result_run_sample⟩

end FlowTrace

/-!
## The first open stamp of a dump

A dump keeps its events in the order of its text, whatever their times.  The stamp told for a time
lies behind all events before that time in a dump that lists these first, and a dump that does not
can hold an event that the stamp misses.
-/

namespace FlowTrace.Inspect

variable {files : FileTree} {input start : String} {events : List NamedEvent} {t : Instant}

theorem nextTimestamp_eq_ok (hevents : Storage.readEvents files input = .ok events)
    (hstart : Instant.ofArgument start = .ok t) :
    nextTimestamp files input start = .ok (timestampAfter events t) := by
  simp only [nextTimestamp, hevents, hstart, Failure.during, Except.mapError, bind, Except.bind,
    pure, Except.pure]

/-- The stamp of a dump and a time that can be read lies behind the events in front of the first one
that is not before the time.  These are all events before the time where none of them is listed
behind one that is not. -/
theorem nextTimestamp_isBehind (hevents : Storage.readEvents files input = .ok events)
    (hstart : Instant.ofArgument start = .ok t) :
    ∃ stamp, nextTimestamp files input start = .ok stamp ∧
      stamp.IsBehind (events.takeWhile fun e => e.time < t) ∧
      (events.Pairwise (fun d e => e.time < t → d.time < t) →
        stamp.IsBehind (events.filter fun e => e.time < t)) := by
  have hbehind := isBehind_timestampAfter events t
  refine ⟨timestampAfter events t, nextTimestamp_eq_ok hevents hstart, hbehind, ?_⟩
  intro hordered
  have hall : events.takeWhile (fun e => e.time < t) = events.filter fun e => e.time < t :=
    takeWhile_eq_filter_of_pairwise (hordered.imp fun h => by simpa using h)
  rwa [hall] at hbehind

/-- Two events with the later one first. -/
def descending : List NamedEvent :=
  [⟨⟨0, 200000, by decide⟩, 0, ⟨3⟩, .unset, .unknown, none, none, 0, false⟩,
   ⟨⟨0, 100000, by decide⟩, 0, ⟨7⟩, .unset, .unknown, none, none, 0, false⟩]

/-- A working directory with a dump of them. -/
def descendingFiles : FileTree := Storage.dumpFiles "[[200,0,3],[100,0,7]]"

theorem readEvents_descending :
    Storage.readEvents descendingFiles "events.json" = .ok descending :=
  Storage.readEvents_dumpFiles (by decide +kernel)

/-- Both events are before a time behind them. -/
theorem nextTimestamp_isBehind_descending :
    Storage.readEvents descendingFiles "events.json" = .ok descending ∧
      Instant.ofArgument "201" = .ok ⟨0, 201000, by decide⟩ ∧
      ∃ stamp, nextTimestamp descendingFiles "events.json" "201" = .ok stamp ∧
        stamp.IsBehind descending := by
  have hstart : Instant.ofArgument "201" = .ok ⟨0, 201000, by decide⟩ := by decide +kernel
  obtain ⟨stamp, hstamp, -, hbehind⟩ := nextTimestamp_isBehind readEvents_descending hstart
  exact ⟨readEvents_descending, hstart, stamp, hstamp, hbehind (by decide +kernel)⟩

/-- Only the event listed last is before a time between them, and the stamp misses it. -/
theorem not_isBehind_descending :
    Storage.readEvents descendingFiles "events.json" = .ok descending ∧
      Instant.ofArgument "150" = .ok ⟨0, 150000, by decide⟩ ∧
      ∃ stamp, nextTimestamp descendingFiles "events.json" "150" = .ok stamp ∧
        ¬ stamp.IsBehind (descending.filter fun e => e.time < ⟨0, 150000, by decide⟩) := by
  have hstart : Instant.ofArgument "150" = .ok ⟨0, 150000, by decide⟩ := by decide +kernel
  refine ⟨readEvents_descending, hstart, _, nextTimestamp_eq_ok readEvents_descending hstart, ?_⟩
  decide +kernel

end FlowTrace.Inspect
