import FlowTrace.Program.Build
import FlowTrace.Program.Options
set_option autoImplicit false

/-!
# Program: commands

The commands and the options that each of them takes.
-/

namespace FlowTrace

/-- What the program is asked to do. -/
inductive Command where
  | build (request : BuildRequest)
  | nextTimestamp (input start : String)
  | validate (file : String)
  | schema (details : Bool)
  | version
  deriving Repr

namespace Command

/-! ## Values -/

/-- A path has at least one character. -/
def path? (text : String) : Option String := if text = "" then none else some text

/-- A signed word. -/
def word? (text : String) : Option Int64 :=
  ((Text.readInt? text.toList).filter fun i => Word.Fits i).map Int64.ofInt

/-- An unsigned word, without a minus sign. -/
def count? (text : String) : Option Nat :=
  if text.toList.head? = some '-' then none
  else ((Text.readInt? text.toList).map Int.toNat).filter fun n => n ≤ Word.greatestUnsigned

/-! ## Options -/

/-- The options that every command takes.  There is nothing more to tell where much is asked for. -/
def commonOptions (σ : Type) : List (CommandOption σ) :=
  [{ long := "verbose", letter := some 'v', effect := .switch id },
   { long := "help", letter := some 'h', effect := .ends .help }]

/-- The options in front of the command. -/
def leadingOptions : List (CommandOption Unit) :=
  commonOptions Unit ++ [{ long := "version", letter := some 'V', effect := .ends .version }]

/-- The option that names a dump; the environment may name one instead. -/
def inputOption {σ : Type} (environment : Option String) (set : String → σ → σ) :
    CommandOption σ :=
  { long := "input", letter := some 'i', required := true, fallback := environment,
    effect := .value fun text s => (path? text).map fun input => set input s }

/-- The options of a build. -/
def buildOptions (environment : Option String) : List (CommandOption BuildRequest) :=
  commonOptions BuildRequest ++
    [inputOption environment fun input r => { r with input },
     { long := "output", letter := some 'o',
       effect := .value fun text r => (path? text).map fun output => { r with output } },
     { long := "mode", letter := some 'm',
       effect := .value fun text r => (Mode.ofName? text).map fun mode => { r with mode } },
     { long := "begin", letter := none,
       effect := .value fun text r => some { r with start := some text } },
     { long := "end", letter := none,
       effect := .value fun text r => some { r with stop := some text } },
     { long := "window-us", letter := none,
       effect := .value fun text r =>
         (word? text).map fun micros => { r with windowMicros := some micros } },
     { long := "buffer-capacity", letter := none,
       effect := .value fun text r =>
         (count? text).map fun capacity => { r with capacity := some capacity } },
     { long := "summary", letter := none, effect := .switch fun r => { r with summary := true } },
     { long := "top-nodes", letter := none,
       effect := .value fun text r => (count? text).map fun topNodes => { r with topNodes } }]

/-- The options for the next open stamp; the settings are the dump and the time. -/
def nextTimestampOptions (environment : Option String) : List (CommandOption (String × String)) :=
  commonOptions (String × String) ++
    [inputOption environment fun input (_, start) => (input, start),
     { long := "begin", letter := some 'b', required := true,
       effect := .value fun start (input, _) => some (input, start) }]

/-- The options of a check; the setting is the file. -/
def validateOptions : List (CommandOption String) :=
  commonOptions String ++
    [{ long := "file", letter := some 'f', required := true,
       effect := .value fun text _ => path? text }]

/-- The options for the layout; the setting says whether details are shown. -/
def schemaOptions : List (CommandOption Bool) :=
  commonOptions Bool ++ [{ long := "show", letter := none, effect := .switch fun _ => true }]

/-! ## Commands -/

/-- The names of the commands, and of the one that asks for help. -/
def names : List String := ["build", "next-timestamp", "validate", "schema", "version", "help"]

/-- The command with a name and arguments. -/
def ofName (environment : Option String) (name : String) (arguments : List String) :
    Except Ending Command :=
  match name with
  | "build" =>
    (CommandOption.read (buildOptions environment) BuildRequest.standard arguments).map .build
  | "next-timestamp" =>
    (CommandOption.read (nextTimestampOptions environment) ("", "") arguments).map
      fun (input, start) => .nextTimestamp input start
  | "validate" => (CommandOption.read validateOptions "" arguments).map .validate
  | "schema" => (CommandOption.read schemaOptions false arguments).map .schema
  | "version" => (CommandOption.read (commonOptions Unit) () arguments).map fun _ => .version
  | "help" =>
    match arguments with
    | [] => .error .help
    | [topic] => .error (if topic ∈ names then .help else .misuse)
    | _ => .error .misuse
  | _ => .error .misuse

/-- The command that the arguments of the program name. -/
def ofArguments (environment : Option String) (arguments : List String) :
    Except Ending Command := do
  match ← CommandOption.scan leadingOptions none arguments ⟨(), []⟩ with
  | (_, name :: rest) => ofName environment name rest
  | _ => throw .misuse

end Command

end FlowTrace
