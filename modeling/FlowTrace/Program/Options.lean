set_option autoImplicit false

/-!
# Program: options

Arguments are read from the left.  An option has a long name and possibly a letter, and it switches
something on, takes a value or ends the reading; it may be given once.  A value stands right behind
its option or is the next argument, which then must not look like an option itself.  The first word
that belongs to no option stops the reading.
-/

namespace FlowTrace

/-- Why the reading of arguments ends without a command to carry out. -/
inductive Ending where
  /-- help was asked for -/
  | help
  /-- the version was asked for -/
  | version
  /-- the arguments make no sense -/
  | misuse
  deriving DecidableEq, Repr, Inhabited

/-- What an option does to the settings of its command. -/
inductive OptionEffect (σ : Type) where
  | switch (set : σ → σ)
  /-- a value that is of no use gives no settings -/
  | value (set : String → σ → Option σ)
  | ends (ending : Ending)

/-- The option stands before a value. -/
def OptionEffect.takesValue {σ : Type} : OptionEffect σ → Bool
  | .value _ => true
  | _ => false

/-- An option of a command. -/
structure CommandOption (σ : Type) where
  long : String
  letter : Option Char
  effect : OptionEffect σ
  /-- the command cannot do without it -/
  required : Bool := false
  /-- the value where the option is not given -/
  fallback : Option String := none

/-- Settings, and the long names of the options given so far. -/
structure Settings (σ : Type) where
  values : σ
  given : List String

namespace Settings

variable {σ : Type}

/-- The settings with one more option given. -/
def give (s : Settings σ) (name : String) (set : σ → Option σ) : Except Ending (Settings σ) :=
  if name ∈ s.given then .error .misuse
  else
    match set s.values with
    | some values => .ok ⟨values, name :: s.given⟩
    | none => .error .misuse

end Settings

/-! ## Single arguments -/

/-- The form of an argument. -/
inductive Argument where
  /-- a name or a value; a single dash is one -/
  | word
  /-- only words may follow -/
  | separator
  /-- a long name, possibly with a value behind an equals sign -/
  | long (name : String) (value : Option String)
  /-- letters of options, the last one possibly with its value -/
  | letters (letters : List Char)
  deriving DecidableEq, Repr, Inhabited

/-- A long name and what stands behind the first equals sign. -/
def Argument.splitName (text : List Char) : Argument :=
  match text.dropWhile (· != '=') with
  | [] => .long (String.ofList text) none
  | _ :: value => .long (String.ofList (text.takeWhile (· != '='))) (some (String.ofList value))

/-- The form of an argument's text. -/
def Argument.ofChars : List Char → Argument
  | ['-', '-'] => .separator
  | '-' :: '-' :: rest => splitName rest
  | '-' :: letter :: rest => .letters (letter :: rest)
  | _ => .word

/-- The form of an argument. -/
def Argument.ofText (text : String) : Argument := ofChars text.toList

namespace CommandOption

variable {σ : Type}

/-- The settings after an option with the value that came with it. -/
def apply (o : CommandOption σ) (value : Option String) (s : Settings σ) :
    Except Ending (Settings σ) :=
  match o.effect, value with
  | .switch set, none => s.give o.long fun values => some (set values)
  | .value set, some text => s.give o.long (set text)
  | .ends ending, none => .error ending
  | _, _ => .error .misuse

/-- The value that follows an option's letter in one argument, if there is one; one equals sign
between them does not count. -/
def attached : List Char → Option String
  | [] => none
  | '=' :: text => some (String.ofList text)
  | text => some (String.ofList text)

/-- The settings after the letters of one argument, and the option that still waits for a value. -/
def readLetters (options : List (CommandOption σ)) :
    List Char → Settings σ → Except Ending (Settings σ × Option (CommandOption σ))
  | [], s => .ok (s, none)
  | letter :: rest, s =>
    match options.find? fun o => o.letter = some letter with
    | none => .error .misuse
    | some o =>
      if o.effect.takesValue then
        match attached rest with
        | none => .ok (s, some o)
        | some text => (o.apply (some text) s).map fun s => (s, none)
      else (o.apply none s).bind (readLetters options rest)

/-- The settings after a long name, and the option that still waits for a value. -/
def readLong (options : List (CommandOption σ)) (name : String) (value : Option String)
    (s : Settings σ) : Except Ending (Settings σ × Option (CommandOption σ)) :=
  match options.find? fun o => o.long = name with
  | none => .error .misuse
  | some o =>
    if o.effect.takesValue && value.isNone then .ok (s, some o)
    else (o.apply value s).map fun s => (s, none)

/-! ## All arguments -/

/-- The settings after the options at the front, and the arguments from the first word on.  An
option that waits for a value takes a word only. -/
def scan (options : List (CommandOption σ)) :
    Option (CommandOption σ) → List String → Settings σ →
      Except Ending (Settings σ × List String)
  | none, [], s => .ok (s, [])
  | some _, [], _ => .error .misuse
  | some o, text :: rest, s =>
    if Argument.ofText text = .word then (o.apply (some text) s).bind (scan options none rest)
    else .error .misuse
  | none, text :: rest, s =>
    match Argument.ofText text with
    | .word => .ok (s, text :: rest)
    | .separator => if rest = [] then .ok (s, []) else .error .misuse
    | .long name value =>
      (readLong options name value s).bind fun (s, waiting) => scan options waiting rest s
    | .letters letters =>
      (readLetters options letters s).bind fun (s, waiting) => scan options waiting rest s

/-- The settings with an option that was not given: its fallback counts, and a required option
needs one. -/
def complete (s : Settings σ) (o : CommandOption σ) : Except Ending (Settings σ) :=
  if o.long ∈ s.given then .ok s
  else
    match o.fallback with
    | some text => o.apply (some text) s
    | none => if o.required then .error .misuse else .ok s

/-- The settings that the arguments of a command make from the initial ones.  Words of their own
make no sense to any command. -/
def read (options : List (CommandOption σ)) (initial : σ) (arguments : List String) :
    Except Ending σ := do
  match ← scan options none arguments ⟨initial, []⟩ with
  | (s, []) => return (← options.foldlM complete s).values
  | _ => throw .misuse

end CommandOption

end FlowTrace
