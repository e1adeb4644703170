import FlowTrace.Arithmetic
import FlowTrace.Document
import FlowTrace.Dump.Reader
import FlowTrace.Files.Tree
import FlowTrace.Time.Argument
set_option autoImplicit false

/-!
# Program: dumps and documents in files

Reading dumps and documents from a tree of files, and writing documents into it.  A command fails for
one cause, and says what it was doing when it met it; the full message gives the outermost first.
-/

namespace FlowTrace

/-! ## Failures -/

/-- Why a path cannot take the output. -/
inductive OutputFault where
  | empty
  | directory (path : String)
  /-- a directory above it cannot be made -/
  | parent (path : String) (fault : FileFault)
  deriving DecidableEq, Repr, Inhabited

/-- What an output fault says. -/
def OutputFault.text : OutputFault → String
  | .empty => "Path is empty"
  | .directory path => "Path is a directory: " ++ path
  | .parent path fault => "Cannot create directory " ++ path ++ ": " ++ fault.text

/-- An argument that is no use. -/
inductive ArgumentFault where
  | emptyInput
  | windowSize
  | bufferCapacity
  | topNodes
  deriving DecidableEq, Repr, Inhabited

/-- What an argument fault says. -/
def ArgumentFault.text : ArgumentFault → String
  | .emptyInput => "Input path cannot be empty"
  | .windowSize => "window size must be greater than 0"
  | .bufferCapacity => "buffer capacity must be greater than 0"
  | .topNodes => "top_nodes must be greater than 0"

/-- Why a command fails. -/
inductive Cause where
  /-- the dump has no events -/
  | dumpFormat (fault : Dump.Fault)
  /-- the dump cannot be read -/
  | dumpFile (fault : FileFault)
  /-- a document's file cannot be read or written -/
  | documentFile (fault : FileFault)
  /-- a file that is no document -/
  | notADocument
  | output (fault : OutputFault)
  | time (fault : TimeFault)
  | argument (fault : ArgumentFault)
  /-- a document of another version -/
  | version (found : String)
  deriving Repr, Inhabited

/-- What a cause says. -/
def Cause.text : Cause → String
  | .dumpFormat fault => "Invalid event dump format: " ++ fault.text
  | .dumpFile fault => "Failed to read event dump: " ++ fault.text
  | .documentFile fault => "Failed to write file: " ++ fault.text
  | .notADocument => "Failed to serialize JSON"
  | .output fault => "Invalid output path: " ++ fault.text
  | .time fault => fault.text
  | .argument fault => fault.text
  | .version found =>
    "Unsupported schema version " ++ found ++ " (expected " ++ Document.schemaVersion ++ ")"

/-- What a command was doing. -/
inductive Activity where
  | readingEvents (path : String)
  | readingBegin
  | readingEnd
  | writingDocument
  deriving DecidableEq, Repr, Inhabited

/-- What an activity says once it has failed. -/
def Activity.text : Activity → String
  | .readingEvents path => "Failed to read events from " ++ path
  | .readingBegin => "Invalid --begin"
  | .readingEnd => "Invalid --end"
  | .writingDocument => "Failed to write trace JSON"

/-- A cause and, where there is one, the activity that met it. -/
structure Failure where
  activity : Option Activity
  cause : Cause
  deriving Repr, Inhabited

namespace Failure

/-- The outermost message. -/
def headline (f : Failure) : String :=
  match f.activity with
  | some activity => activity.text
  | none => f.cause.text

/-- The whole message. -/
def message (f : Failure) : String :=
  match f.activity with
  | some activity => activity.text ++ ": " ++ f.cause.text
  | none => f.cause.text

end Failure

/-- The result of something done without a name for the activity. -/
def Failure.caused {ε α : Type} (cause : ε → Cause) (result : Except ε α) : Except Failure α :=
  result.mapError fun fault => ⟨none, cause fault⟩

/-- The result of something done within an activity. -/
def Failure.during {ε α : Type} (activity : Activity) (cause : ε → Cause) (result : Except ε α) :
    Except Failure α :=
  result.mapError fun fault => ⟨some activity, cause fault⟩

/-! ## Dumps and documents -/

namespace Storage

/-- The events of the dump at a path. -/
def readEvents (files : FileTree) (path : String) : Except Failure (List (Event StreamName)) := do
  let activity := Activity.readingEvents path
  let text ← Failure.during activity Cause.dumpFile (files.read path)
  Failure.during activity Cause.dumpFormat (Dump.read text).result

/-- A path can take an output: it is not empty and no directory. -/
def checkOutput (files : FileTree) (path : String) : Except OutputFault Unit :=
  if path = "" then .error .empty
  else if files.isDirectory path then .error (.directory path)
  else .ok ()

/-- The files with the directory above a path, made where it is missing. -/
def makeParent (files : FileTree) (path : String) : Except OutputFault FileTree :=
  match Path.parent? path with
  | none => .ok files
  | some parent =>
    if parent = "" || files.exists? parent then .ok files
    else (files.makePath parent).mapError (OutputFault.parent parent)

/-- The files with a document written at a path.  The text gets there whole or not at all: a disk that
runs full on the way, with part of the text in the file, is left out. -/
def writeDocument (files : FileTree) (path : String) (document : Document) :
    Except Cause FileTree := do
  (checkOutput files path).mapError Cause.output
  let files ← (makeParent files path).mapError Cause.output
  (files.write path document.text).mapError Cause.documentFile

/-- The document at a path.  A file that can be found but holds no document text counts as no
document, a directory among them. -/
def readDocument (files : FileTree) (path : String) : Except Cause Document := do
  let (_, entry) ← (files.find path).mapError Cause.documentFile
  match entry with
  | .file (some text) =>
    match Document.ofText? text with
    | some document => return document
    | none => throw .notADocument
  | _ => throw .notADocument

end Storage

end FlowTrace
