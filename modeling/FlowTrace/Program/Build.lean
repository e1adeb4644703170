import FlowTrace.History
import FlowTrace.Program.Storage
import FlowTrace.Report.HopLatency
import FlowTrace.Report.Table
import FlowTrace.Text
import FlowTrace.Trace.Calls
set_option autoImplicit false

/-!
# Program: building a document

The events of a dump, possibly only the most recent ones, are traced or logged window by window in
one session, and the document is written.  On request a summary of every window is printed, as far
as its statistics fit words.
-/

namespace FlowTrace

/-- What a build is asked for. -/
structure BuildRequest where
  /-- the dump -/
  input : String
  /-- where the document goes -/
  output : String
  mode : Mode
  /-- the first instant; else the first event -/
  start : Option String
  /-- the end; else just behind the last event -/
  stop : Option String
  /-- cut the range into windows of this many microseconds -/
  windowMicros : Option Int64
  /-- keep this many of the most recent events only -/
  capacity : Option Nat
  /-- print a summary -/
  summary : Bool
  /-- the calculators shown in a summary -/
  topNodes : Nat
  deriving Repr

namespace BuildRequest

/-- The number of calculators shown by default. -/
def defaultTopNodes : Nat := 20

/-- A build with nothing asked for. -/
def standard : BuildRequest :=
  { input := "events.json", output := "trace.json", mode := .trace, start := none, stop := none,
    windowMicros := none, capacity := none, summary := false, topNodes := defaultTopNodes }

end BuildRequest

/-- What ends a command early. -/
inductive Stop where
  | failure (failure : Failure)
  /-- a statistic that does not fit a word -/
  | overflow (overflow : Overflow)
  deriving Repr, Inhabited

/-- What a build leaves behind. -/
structure BuildOutcome where
  result : Except Stop Document
  printed : String
  files : FileTree

namespace Build

/-- The events that a recorder of the given capacity still holds. -/
def retained {α : Type} (capacity : Option Nat) (events : List α) : List α :=
  match capacity with
  | none => events
  | some n => ((History.empty α n).extend events).toList

/-- The instant just behind an event. -/
def justAfter (t : Instant) : Instant := (t.later? 1).getD t

/-- The start of the range: the one asked for, else the first event, else the epoch. -/
def startOf {ν : Type} (events : List (Event ν)) (asked : Option String) :
    Except Failure Instant :=
  match asked with
  | some raw => Failure.during .readingBegin Cause.time (Instant.ofArgument raw)
  | none => .ok ((events.map Event.time).min?.getD .epoch)

/-- The end of the range: the one asked for, else just behind the last event, else its start. -/
def stopOf {ν : Type} (events : List (Event ν)) (start : Instant) (asked : Option String) :
    Except Failure Instant :=
  match asked with
  | some raw => Failure.during .readingEnd Cause.time (Instant.ofArgument raw)
  | none => .ok ((events.map fun e => justAfter e.time).max?.getD start)

/-- The range that a build covers. -/
def range {ν : Type} (events : List (Event ν)) (start stop : Option String) :
    Except Failure Window := do
  let start ← startOf events start
  let stop ← stopOf events start stop
  return ⟨start, stop⟩

/-- The trace or log of one window. -/
def window (mode : Mode) (events : List (Event StreamName)) (s : Session) (w : Window) :
    Trace × Session :=
  match mode with
  | .trace => s.trace events w
  | .log => s.log events w

/-- The traces of consecutive windows in one session. -/
def traces (mode : Mode) (events : List (Event StreamName)) (windows : List Window) :
    List Trace :=
  (mapThrough (window mode events) Session.empty windows).1

/-- The document that a build makes, before it is written. -/
def document (files : FileTree) (request : BuildRequest) (now : String) :
    Except Failure Document := do
  let all ← Storage.readEvents files request.input
  let events := retained request.capacity all
  let range ← range events request.start request.stop
  return {
    version := Document.schemaVersion
    mode := request.mode
    windowBegin := range.start
    windowEnd := range.stop
    traces := traces request.mode events (range.split request.windowMicros)
    generatedAt := now }

/-! ## Summaries -/

/-- A line of equals signs. -/
def bar : String := Text.rule '=' 80

/-- The base time of a trace, as a number where it is no instant. -/
def baseTimeText (trace : Trace) : String :=
  match Instant.ofMicros? trace.baseTime.toInt with
  | some t => Rfc3339.text .numeric t
  | none => Text.ofInt trace.baseTime.toInt

/-- What the summary of window `number` of `count` prints, and the overflow that cuts it short. -/
def summary (topNodes number count : Nat) (trace : Trace) : String × Option Overflow :=
  match NodeLoad.ofTrace trace, HopLatency.ofTrace trace with
  | .error overflow, _ => ("", some overflow)
  | .ok _, .error overflow => ("", some overflow)
  | .ok loads, .ok latency =>
    let head := Text.lines
      ["", bar, "TRACE SUMMARY (window " ++ Text.ofNat number ++ " of " ++ Text.ofNat count ++ ")",
       bar, "Base Time:  " ++ baseTimeText trace,
       "Records:    " ++ Text.ofNat trace.records.length,
       "Streams:    " ++ Text.ofNat (trace.streamNames.length - 1),
       latency.summary]
    match Report.table loads topNodes with
    | .error overflow => (head, some overflow)
    | .ok table => (head ++ Text.lines ["", table, bar], none)

/-- The summaries of numbered windows, up to the first overflow. -/
def summariesOf (topNodes count : Nat) : List (Trace × Nat) → String × Option Overflow
  | [] => ("", none)
  | (trace, number) :: rest =>
    match summary topNodes number count trace with
    | (text, some overflow) => (text, some overflow)
    | (text, none) =>
      let (more, overflow) := summariesOf topNodes count rest
      (text ++ more, overflow)

/-- The summaries of all windows; only traces have one. -/
def summaries (topNodes : Nat) (document : Document) : String × Option Overflow :=
  match document.mode with
  | .log => ("", none)
  | .trace => summariesOf topNodes document.traces.length (document.traces.zipIdx 1)

/-! ## The command -/

/-- Build a document, write it and print what was asked for.  A document that has been written stays
where it is when its summary cannot be made. -/
def run (files : FileTree) (request : BuildRequest) (now : String) : BuildOutcome :=
  match document files request now with
  | .error failure => ⟨.error (.failure failure), "", files⟩
  | .ok document =>
    match Failure.during .writingDocument id (Storage.writeDocument files request.output document) with
    | .error failure => ⟨.error (.failure failure), "", files⟩
    | .ok written =>
      if request.summary then
        match summaries request.topNodes document with
        | (text, some overflow) => ⟨.error (.overflow overflow), text, written⟩
        | (text, none) => ⟨.ok document, text, written⟩
      else ⟨.ok document, "", written⟩

/-- Arguments that a build cannot work with are refused before it begins. -/
def check (files : FileTree) (request : BuildRequest) : Except Failure Unit := do
  if request.input = "" then throw ⟨none, .argument .emptyInput⟩
  Failure.caused Cause.output (Storage.checkOutput files request.output)
  if let some raw := request.start then
    discard <| Failure.during .readingBegin Cause.time (Instant.ofArgument raw)
  if let some raw := request.stop then
    discard <| Failure.during .readingEnd Cause.time (Instant.ofArgument raw)
  if let some micros := request.windowMicros then
    if micros ≤ 0 then throw ⟨none, .argument .windowSize⟩
  if request.capacity = some 0 then throw ⟨none, .argument .bufferCapacity⟩
  if request.topNodes = 0 then throw ⟨none, .argument .topNodes⟩

end Build

end FlowTrace
