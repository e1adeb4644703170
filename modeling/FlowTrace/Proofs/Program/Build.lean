import FlowTrace.Program.Build
import FlowTrace.Proofs.Dump.Times
import FlowTrace.Proofs.History
import FlowTrace.Proofs.Time.Cuts
import FlowTrace.Proofs.Trace.Sources
set_option autoImplicit false

/-!
# Program: what a build makes

A build that succeeds has read the events of a dump, kept some of them, and answered one call for
each window of the range in one session.  The first window that holds an event fixes the base time,
and because the windows ascend it is the earliest time of the whole range.
-/

namespace FlowTrace

/-! ## Steps that succeed -/

namespace Failure

variable {ε α β : Type} {result : Except ε α}

/-- Where two steps succeed, each of them does. -/
theorem exists_of_bind_eq_ok {next : α → Except ε β} {b : β} (h : result >>= next = .ok b) :
    ∃ a, result = .ok a ∧ next a = .ok b := by
  cases result with
  | error fault => cases h
  | ok a => exact ⟨a, rfl, h⟩

theorem mapError_eq_ok_iff {cause : ε → β} {a : α} :
    result.mapError cause = .ok a ↔ result = .ok a := by
  cases result <;> simp [Except.mapError]

theorem during_eq_ok_iff {activity : Activity} {cause : ε → Cause} {a : α} :
    during activity cause result = .ok a ↔ result = .ok a :=
  mapError_eq_ok_iff

end Failure

theorem Storage.isWhole_of_readEvents {files : FileTree} {path : String}
    {events : List NamedEvent} (h : readEvents files path = .ok events) :
    ∀ e ∈ events, e.time.IsWhole := by
  obtain ⟨text, -, hread⟩ := Failure.exists_of_bind_eq_ok h
  exact Dump.isWhole_of_read (Failure.during_eq_ok_iff.1 hread)

theorem Storage.isLeap_of_readEvents {files : FileTree} {path : String} {events : List NamedEvent}
    (h : readEvents files path = .ok events) : ∀ e ∈ events, e.time.isLeap = false :=
  fun e he => (isWhole_of_readEvents h e he).isLeap

/-- A working directory that holds one dump. -/
def Storage.dumpFiles (text : String) : FileTree := ⟨[(["events.json"], .file (some text))]⟩

theorem Storage.locate_dumpFiles (text : String) {name : String}
    (hzero : '\x00' ∉ name.toList)
    (hshort : name.utf8ByteSize ≤ FileTree.nameLimit)
    (hstart : Place.start name = ([], [name])) (hnext : Place.next [] name = [name]) :
    (dumpFiles text).locate name = .ok [name] := by
  have hlimit : name.utf8ByteSize ≤ FileTree.pathLimit := Nat.le_trans hshort (by decide)
  have hsome : name ≠ "" := by
    rintro rfl
    revert hnext
    decide
  simp [FileTree.locate, String.contains_char_eq, FileTree.follow, FileTree.entry?, Place.isAbove,
    hzero, Nat.not_lt.2 hshort, Nat.not_lt.2 hlimit, hsome, hstart, hnext, bind, Except.bind, pure,
    Except.pure]

theorem Storage.readEvents_dumpFiles {text : String} {events : List NamedEvent}
    (h : (Dump.read text).result.toOption = some events) :
    readEvents (dumpFiles text) "events.json" = .ok events := by
  have hlocate : (dumpFiles text).locate "events.json" = .ok ["events.json"] :=
    locate_dumpFiles text (by decide +kernel) (by decide +kernel) (by decide +kernel)
      (by decide +kernel)
  have hread : (dumpFiles text).read "events.json" = .ok text := by
    simp only [FileTree.read, FileTree.find, hlocate, bind, Except.bind]
    rfl
  have hresult : (Dump.read text).result = .ok events := by
    cases hresult : (Dump.read text).result with
    | error fault => rw [hresult] at h; cases h
    | ok read => rw [hresult] at h; exact congrArg Except.ok (Option.some.inj h)
  simp only [readEvents, hread, hresult, Failure.during, Except.mapError, bind, Except.bind]

/-- A document is written beside the dump. -/
theorem Storage.writeDocument_dumpFiles (text : String) (d : Document) :
    writeDocument (dumpFiles text) "trace.json" d =
      .ok ((dumpFiles text).set ["trace.json"] (.file (some d.text))) := by
  have hlocate : (dumpFiles text).locate "trace.json" = .ok ["trace.json"] :=
    locate_dumpFiles text (by decide +kernel) (by decide +kernel) (by decide +kernel)
      (by decide +kernel)
  have hentry : FileTree.entry? (dumpFiles text) ["trace.json"] = none := rfl
  have hoff : "trace.json" ≠ "" := by decide
  have hparent : Path.parent? "trace.json" = some "" := by decide +kernel
  simp [writeDocument, checkOutput, makeParent, FileTree.isDirectory, FileTree.find,
    FileTree.write, FileTree.writable, hlocate, hentry, hoff, hparent, Except.mapError, bind,
    Except.bind, pure, Except.pure]

namespace Build

/-- A recorder of the given capacity still holds the last events. -/
theorem retained_some {α : Type} (n : Nat) (events : List α) :
    retained (some n) events = events.rtake (max n 1) :=
  ((History.holdsLast_empty n).extend events).elements

theorem retained_subset {α : Type} (capacity : Option Nat) (events : List α) :
    retained capacity events ⊆ events := by
  cases capacity with
  | none => exact List.Subset.refl _
  | some n =>
    rw [retained_some]
    exact List.drop_subset _ _

/-- The events that a build covers: those held, inside the range of the document. -/
def covered (capacity : Option Nat) (events : List NamedEvent) (d : Document) : List NamedEvent :=
  (Window.mk d.windowBegin d.windowEnd).events (retained capacity events)

variable {files : FileTree} {request : BuildRequest} {now : String} {d : Document}

/-- What a document says of its build. -/
structure Made (files : FileTree) (request : BuildRequest) (now : String)
    (all : List NamedEvent) (d : Document) : Prop where
  events : Storage.readEvents files request.input = .ok all
  version : d.version = Document.schemaVersion
  traces : d.traces = traces request.mode (retained request.capacity all)
    ((Window.mk d.windowBegin d.windowEnd).split request.windowMicros)

theorem exists_made_of_document (h : document files request now = .ok d) :
    ∃ all, Made files request now all d := by
  obtain ⟨all, hall, h⟩ := Failure.exists_of_bind_eq_ok h
  obtain ⟨w, -, h⟩ := Failure.exists_of_bind_eq_ok h
  cases h
  exact ⟨all, hall, rfl, rfl⟩

/-- The document that the events of a dump decide. -/
theorem document_of_events (request : BuildRequest) (now : String)
    {all : List NamedEvent} (hall : Storage.readEvents files request.input = .ok all) :
    document files request now =
      (range (retained request.capacity all) request.start request.stop).map fun w =>
        { version := Document.schemaVersion
          mode := request.mode
          windowBegin := w.start
          windowEnd := w.stop
          traces := traces request.mode (retained request.capacity all)
            (w.split request.windowMicros)
          generatedAt := now } := by
  rw [document, hall]
  cases hrange : range (retained request.capacity all) request.start request.stop <;>
    simp only [bind, Except.bind, pure, Except.pure, Except.map, hrange]

/-- A build that succeeds has made its document and has written it. -/
theorem document_of_run (h : (run files request now).result = .ok d) :
    document files request now = .ok d ∧
      Storage.writeDocument files request.output d = .ok (run files request now).files := by
  cases hmade : document files request now with
  | error failure => simp [run, hmade] at h
  | ok made =>
    cases hduring : Failure.during .writingDocument id
        (Storage.writeDocument files request.output made) with
    | error failure => simp [run, hmade, hduring] at h
    | ok written =>
      -- a summary that can be made changes neither the document nor the files
      obtain ⟨rfl, hfiles⟩ : made = d ∧ (run files request now).files = written := by
        simp only [run, hmade, hduring] at h ⊢
        by_cases hsummary : request.summary = true
        · simp only [hsummary, if_true] at h ⊢
          split at h
          · cases h
          · exact ⟨Except.ok.inj h, rfl⟩
        · simp only [hsummary] at h ⊢
          exact ⟨Except.ok.inj h, rfl⟩
      rw [hfiles]
      exact ⟨rfl, Failure.during_eq_ok_iff.1 hduring⟩

/-! ## Windows as calls of a session -/

/-- The call that a build makes for a window. -/
def call (mode : Mode) (buffer : List NamedEvent) (w : Window) : SessionCall :=
  match mode with
  | .trace => .trace buffer w
  | .log => .log buffer w

theorem call_eq_window (mode : Mode) (buffer : List NamedEvent) (s : Session) (w : Window) :
    s.call (call mode buffer w) =
      (some (window mode buffer s w).1, (window mode buffer s w).2) := by
  cases mode <;> rfl

/-- The trace or log of a window is the answer to its call. -/
theorem answers_window (mode : Mode) (buffer : List NamedEvent) {s : Session}
    (hs : s.ids.Faithful) (w : Window) :
    s.Answers (call mode buffer w) (w.events buffer) (window mode buffer s w).1 ∧
      (s.call (call mode buffer w)).2 = (window mode buffer s w).2 := by
  have hevents : (call mode buffer w).events? = some (w.events buffer) := by
    cases mode <;> rfl
  have hreturned := call_eq_window mode buffer s w
  obtain ⟨t, ht⟩ := Session.exists_answers hs hevents
  have hsame : (window mode buffer s w).1 = t := by
    rw [← Option.some_inj, ← ht.returned, hreturned]
  rw [hsame, hreturned]
  exact ⟨ht, rfl⟩

/-! ## A build that succeeds -/

/-- A working directory with a dump of one task, which takes two microseconds. -/
def sampleFiles : FileTree :=
  ⟨[(["events.json"], .file (some "[[7,1,10,10,2],[9,1,10,10,2,null,null,4,true]]"))]⟩

/-- The log of a whole dump. -/
def sampleRequest : BuildRequest := { BuildRequest.standard with mode := .log }

/-- The events of the dump. -/
def sampleEvents : List NamedEvent :=
  [⟨⟨0, 7000, by decide⟩, 1, ⟨10⟩, ⟨10⟩, .processed, none, none, 0, false⟩,
   ⟨⟨0, 9000, by decide⟩, 1, ⟨10⟩, ⟨10⟩, .processed, none, none, 4, true⟩]

/-- The log of the dump, which covers the three microseconds from the first event on. -/
def sampleDocument : Document where
  version := Document.schemaVersion
  mode := .log
  windowBegin := ⟨0, 7000, by decide⟩
  windowEnd := ⟨0, 10000, by decide⟩
  traces := traces .log sampleEvents [⟨⟨0, 7000, by decide⟩, ⟨0, 10000, by decide⟩⟩]
  generatedAt := "now"

theorem readEvents_sample :
    Storage.readEvents sampleFiles sampleRequest.input = .ok sampleEvents :=
  Storage.readEvents_dumpFiles (by decide +kernel)

theorem result_run_sample :
    (run sampleFiles sampleRequest "now").result = .ok sampleDocument := by
  have hdocument : document sampleFiles sampleRequest "now" = .ok sampleDocument := by
    have hstart : (sampleEvents.map Event.time).min?.getD .epoch = sampleDocument.windowBegin := by
      decide +kernel
    have hstop : (sampleEvents.map fun e => justAfter e.time).max?.getD sampleDocument.windowBegin =
        sampleDocument.windowEnd := by
      decide +kernel
    have hrange : range (retained sampleRequest.capacity sampleEvents) sampleRequest.start
        sampleRequest.stop = .ok ⟨sampleDocument.windowBegin, sampleDocument.windowEnd⟩ := by
      show range sampleEvents none none = _
      simp only [range, startOf, stopOf, bind, Except.bind, pure, Except.pure, hstart, hstop]
    rw [document_of_events sampleRequest "now" readEvents_sample, hrange]
    rfl
  have hwritten : Storage.writeDocument sampleFiles sampleRequest.output sampleDocument =
      .ok (sampleFiles.set ["trace.json"] (.file (some sampleDocument.text))) :=
    Storage.writeDocument_dumpFiles _ sampleDocument
  simp only [run, hdocument, hwritten, Failure.during, Except.mapError]
  rfl

end Build

end FlowTrace
