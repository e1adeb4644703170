import Std.Time.DateTime.Timestamp
import FlowTrace.Program.Run
set_option autoImplicit false

/-!
# The program at the command line

The files on the way to every path that an argument may name are looked at first; then the run is a
pure function of them, and the files and directories that it adds or changes are written.
-/

namespace FlowTrace.Console

/-- The environment variable that may name a dump. -/
def inputVariable : String := "GRAPH_TRACE_INPUT"

/-- The text of the present time. -/
def presentTime : IO String := do
  let nanos := (← Std.Time.Timestamp.now).toNanosecondsSinceUnixEpoch.val
  return Rfc3339.text .numeric ((Instant.ofMicros? (nanos / 1000)).getD .epoch)

/-- The path to a place. -/
def pathOf : Place → String
  | "/" :: names => "/" ++ Path.ofParts names
  | [] => "."
  | names => Path.ofParts names

/-- The system's code for reading a directory as a file. -/
def directoryCode : UInt32 := 21

/-- What a place holds.  What cannot be read at all counts as missing. -/
def look (place : Place) : IO (Option FileEntry) := do
  match ← (IO.FS.readBinFile (pathOf place)).toBaseIO with
  | .ok bytes => return some (.file (String.fromUTF8? bytes))
  | .error (.inappropriateType _ code _) =>
    return if code = directoryCode then some .directory else none
  | .error _ => return none

/-- The texts that may be paths: the standard output, every argument, and its end behind a letter or
an equals sign. -/
def candidates (arguments : List String) : List String :=
  BuildRequest.standard.output :: arguments.flatMap fun argument =>
    [argument, String.ofList (argument.toList.drop 2), String.ofList (argument.toList.drop 3),
     String.ofList ((argument.toList.dropWhile (· != '=')).drop 1)]

/-- The files on the way to some paths. -/
def snapshot (paths : List String) : IO FileTree := do
  let places := paths.flatMap fun path =>
    let (place, parts) := Place.start path
    Place.along place parts
  places.foldlM (fun tree place => do
    match ← look place with
    | some entry => return FileTree.set tree place entry
    | none => return tree) ⟨[]⟩

/-- Write what a run has added or changed. -/
def store (before after : FileTree) : IO Unit :=
  for (place, entry) in after.entries do
    if before.entries.lookup place ≠ some entry then
      match entry with
      | .directory => IO.FS.createDir (pathOf place)
      | .file text => IO.FS.writeFile (pathOf place) (text.getD "")

end FlowTrace.Console

open FlowTrace in
/-- The program. -/
def main (arguments : List String) : IO UInt32 := do
  let environment ← IO.getEnv Console.inputVariable
  let files ← Console.snapshot (Console.candidates (arguments ++ environment.toList))
  let outcome := run arguments environment files (← Console.presentTime)
  Console.store files outcome.files
  IO.print outcome.printed
  IO.eprint outcome.complaint
  return outcome.status.code.toUInt32
