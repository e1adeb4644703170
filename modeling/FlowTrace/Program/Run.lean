import FlowTrace.Document
import FlowTrace.Program.Command
import FlowTrace.Program.Storage
import FlowTrace.Text
import FlowTrace.Trace.Record
set_option autoImplicit false

/-!
# Program: one run

The whole program as a function: arguments, the environment, the files and the present time give an
exit code, two texts and the files afterwards.
-/

/-!
## Texts about the program

What the program says about itself: its version, the layout of its documents and its commands.
-/

namespace FlowTrace.About

/-- The name of the program. -/
def name : String := "graph-trace"

/-- The version of the program. -/
def version : String := "0.1.0"

/-- The name and version on one line. -/
def signature : String := Text.lines [name ++ " " ++ version]

/-- The versions of the program and of its documents. -/
def versionText : String :=
  Text.lines
    ["Graph Trace v" ++ version,
     "Trace Schema: v" ++ Document.schemaVersion,
     "",
     "Trace reconstruction and profiling for calculator dataflow graphs."]

/-- The fields of a document. -/
def layout : List String :=
  ["Schema Structure:",
   "  version: string            - Schema version (e.g., '1.0.0')",
   "  mode: string               - 'trace' (per task) or 'log' (per event)",
   "  window_begin: string       - Covered range start (RFC 3339)",
   "  window_end: string         - Covered range end, exclusive",
   "  traces: array              - One graph trace per window",
   "    base_time: number        - Unix micros represented as 0",
   "    base_timestamp: number   - Packet timestamp represented as 0",
   "    calculator_trace: array  - Task or event records",
   "      node_id: number        - Calculator id",
   "      event_type: string     - OPEN, PROCESS, CLOSE, ...",
   "      input_timestamp: number? - Relative input timestamp",
   "      start_time: number?    - Relative start (us)",
   "      finish_time: number?   - Relative finish (us)",
   "      input_trace: array     - Packets consumed",
   "      output_trace: array    - Packets produced",
   "      thread_id: number      - Executing thread",
   "    stream_name: array       - Stream names indexed by stream_id",
   "  generated_at: string       - ISO 8601 timestamp"]

/-- The version of the layout, and the layout itself where details are asked for. -/
def schemaText (details : Bool) : String :=
  Text.lines <|
    ["Graph Trace Document Schema", "Current Version: " ++ Document.schemaVersion, ""] ++
      if details then layout else ["Use --show for detailed schema information"]

/-- The commands and their options. -/
def usage : String :=
  Text.lines
    ["Usage: " ++ name ++ " [-v] COMMAND",
     "",
     "Commands:",
     "  build           Build a trace or event log from an event dump",
     "  next-timestamp  Print the first input timestamp not yet covered before a time",
     "  validate        Validate a trace JSON file",
     "  schema          Display schema information",
     "  version         Display version information"]

end FlowTrace.About

/-!
## Looking at dumps and documents

Asking a dump for the first open input stamp, and checking that a file is a document of the known
version.
-/

namespace FlowTrace.Inspect

/-- The first input stamp that the events of a dump before a time leave open. -/
def nextTimestamp (files : FileTree) (input start : String) : Except Failure Timestamp := do
  let events ← Storage.readEvents files input
  let start ← Failure.during .readingBegin Cause.time (Instant.ofArgument start)
  return timestampAfter events start

/-- What is told about a document. -/
def description (d : Document) : String :=
  Text.lines
    ["✓ Valid trace JSON",
     "  Version: " ++ d.version,
     "  Mode: " ++ d.mode.name,
     "  Window: " ++ Rfc3339.text .numeric d.windowBegin ++ " .. " ++
       Rfc3339.text .numeric d.windowEnd,
     "  Windows: " ++ Text.ofNat d.traces.length,
     "  Calculator Records: " ++ Text.ofNat d.recordCount]

/-- The document at a path, if its version is the known one. -/
def knownDocument (files : FileTree) (path : String) : Except Cause Document := do
  let document ← Storage.readDocument files path
  if document.version = Document.schemaVersion then return document
  else throw (.version document.version)

/-- What checking a file prints, and whether the file is a document. -/
def validate (files : FileTree) (path : String) : String × Except Failure Unit :=
  let opening := Text.lines ["Validating trace: " ++ path]
  match knownDocument files path with
  | .ok document => (opening ++ description document, .ok ())
  | .error cause => (opening, .error ⟨none, cause⟩)

end FlowTrace.Inspect

/-! ## Runs -/

namespace FlowTrace

/-- How a run ends. -/
inductive ExitStatus where
  | done
  | failed
  /-- the arguments make no sense -/
  | misused
  /-- a statistic did not fit a word -/
  | overflowed
  deriving DecidableEq, Repr, Inhabited

/-- The exit code of a status. -/
def ExitStatus.code : ExitStatus → Nat
  | .done => 0
  | .failed => 1
  | .misused => 2
  | .overflowed => 101

/-- What a run leaves behind. -/
structure RunOutcome where
  status : ExitStatus
  printed : String
  /-- what goes to the error output -/
  complaint : String
  files : FileTree

namespace Run

/-- What is said about a failure: the outermost message first, and its cause below. -/
def complaint (f : Failure) : String :=
  match f.activity with
  | some _ => Text.lines ["Error: " ++ f.headline, "", "Caused by:", "    " ++ f.cause.text]
  | none => Text.lines ["Error: " ++ f.headline]

/-- A run that went well. -/
def done (files : FileTree) (printed : String) : RunOutcome := ⟨.done, printed, "", files⟩

/-- A run that failed after some output. -/
def failed (files : FileTree) (printed : String) (f : Failure) : RunOutcome :=
  ⟨.failed, printed, complaint f, files⟩

/-- Check a request and carry it out. -/
def build (files : FileTree) (request : BuildRequest) (now : String) : RunOutcome :=
  match Build.check files request with
  | .error f => failed files "" f
  | .ok () =>
    let outcome := Build.run files request now
    match outcome.result with
    | .ok _ => done outcome.files outcome.printed
    | .error (.failure f) => failed outcome.files outcome.printed f
    | .error (.overflow overflow) =>
      ⟨.overflowed, outcome.printed, Text.lines [overflow.message], outcome.files⟩

/-- Carry out a command. -/
def command (files : FileTree) (now : String) : Command → RunOutcome
  | .build request => build files request now
  | .nextTimestamp input start =>
    match Inspect.nextTimestamp files input start with
    | .ok t => done files (Text.lines [t.text])
    | .error f => failed files "" f
  | .validate file =>
    match Inspect.validate files file with
    | (printed, .ok ()) => done files printed
    | (printed, .error f) => failed files printed f
  | .schema details => done files (About.schemaText details)
  | .version => done files About.versionText

end Run

/-- One run of the program.  The environment may name a dump. -/
def run (arguments : List String) (environment : Option String) (files : FileTree)
    (now : String) : RunOutcome :=
  match Command.ofArguments environment arguments with
  | .ok command => Run.command files now command
  | .error .help => Run.done files About.usage
  | .error .version => Run.done files About.signature
  | .error .misuse => ⟨.misused, "", About.usage, files⟩

end FlowTrace
