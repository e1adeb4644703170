set_option autoImplicit false

/-!
# Event: kinds

What a calculator was doing when an event was recorded.  The order of the kinds is fixed: dumps may
carry a kind as its ordinal.  Two capabilities depend on the kind: whether its events belong to
calculator tasks, and whether they also describe a packet on a stream.
-/

namespace FlowTrace

/-!
## Upper-case forms that lie in ASCII

Names of kinds are compared after full upper-casing.  All of them are ASCII, so only the characters
whose whole upper-case form is ASCII can take part in a match; every other character is kept as it
is, and then matches no name, just as its upper-case form would not.
-/

namespace Text

/-- The characters beyond ASCII whose full upper-case form is ASCII. -/
def asciiExpansions : List (Char × List Char) :=
  [('\u00df', ['S', 'S']), ('\u0131', ['I']), ('\u017f', ['S']),
   ('\ufb00', ['F', 'F']), ('\ufb01', ['F', 'I']), ('\ufb02', ['F', 'L']),
   ('\ufb03', ['F', 'F', 'I']), ('\ufb04', ['F', 'F', 'L']),
   ('\ufb05', ['S', 'T']), ('\ufb06', ['S', 'T'])]

/-- The upper-case form of a character where that form is ASCII, else the character. -/
def upperChar (c : Char) : List Char :=
  match asciiExpansions.lookup c with
  | some expansion => expansion
  | none => [c.toUpper]

/-- The upper-case form of a text, as far as it lies in ASCII. -/
def upper (cs : List Char) : List Char := cs.flatMap upperChar

end Text

/-! ## Kinds -/

/-- The kind of an event. -/
inductive EventKind where
  | unknown
  | opened
  | processed
  | closed
  | notReady
  | readyForProcess
  | readyForClose
  | throttled
  | unthrottled
  | cpuTaskUser
  | cpuTaskSystem
  | gpuTask
  | dspTask
  | tpuTask
  deriving DecidableEq, Repr, Hashable, Inhabited

namespace EventKind

/-- Every kind, in the fixed order. -/
def all : List EventKind :=
  [.unknown, .opened, .processed, .closed, .notReady, .readyForProcess, .readyForClose, .throttled,
   .unthrottled, .cpuTaskUser, .cpuTaskSystem, .gpuTask, .dspTask, .tpuTask]

/-- The place of a kind in the fixed order. -/
def ordinal : EventKind → Nat
  | .unknown => 0
  | .opened => 1
  | .processed => 2
  | .closed => 3
  | .notReady => 4
  | .readyForProcess => 5
  | .readyForClose => 6
  | .throttled => 7
  | .unthrottled => 8
  | .cpuTaskUser => 9
  | .cpuTaskSystem => 10
  | .gpuTask => 11
  | .dspTask => 12
  | .tpuTask => 13

/-- The kind at a place of the fixed order; unknown outside it. -/
def ofOrdinal : Int → EventKind
  | .ofNat n => all.getD n .unknown
  | .negSucc _ => .unknown

/-- The written name of a kind. -/
def name : EventKind → String
  | .unknown => "UNKNOWN"
  | .opened => "OPEN"
  | .processed => "PROCESS"
  | .closed => "CLOSE"
  | .notReady => "NOT_READY"
  | .readyForProcess => "READY_FOR_PROCESS"
  | .readyForClose => "READY_FOR_CLOSE"
  | .throttled => "THROTTLED"
  | .unthrottled => "UNTHROTTLED"
  | .cpuTaskUser => "CPU_TASK_USER"
  | .cpuTaskSystem => "CPU_TASK_SYSTEM"
  | .gpuTask => "GPU_TASK"
  | .dspTask => "DSP_TASK"
  | .tpuTask => "TPU_TASK"

/-- The form in which names are compared: upper case, with underscores for hyphens. -/
def normalize (name : List Char) : List Char :=
  (Text.upper name).map fun c => if c = '-' then '_' else c

/-- The kind with a name in any case, with hyphens or underscores; unknown for any other text. -/
def ofName (name : String) : EventKind :=
  let form := normalize name.toList
  (all.find? fun kind => kind.name.toList = form).getD .unknown

/-- Events of this kind belong to a calculator task. -/
def isTask : EventKind → Bool
  | .opened | .processed | .closed | .cpuTaskUser | .cpuTaskSystem | .gpuTask | .dspTask
  | .tpuTask => true
  | _ => false

/-- Events of this kind describe a packet on a stream. -/
def isHop : EventKind → Bool
  | .opened | .processed | .closed | .cpuTaskUser | .cpuTaskSystem => true
  | _ => false

theorem isTask_of_isHop {kind : EventKind} (h : kind.isHop = true) : kind.isTask = true := by
  cases kind <;> first | rfl | cases h

theorem ofOrdinal_ordinal (kind : EventKind) : ofOrdinal kind.ordinal = kind := by
  cases kind <;> rfl

end EventKind

end FlowTrace
