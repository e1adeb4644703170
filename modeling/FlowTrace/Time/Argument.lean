import FlowTrace.Arithmetic
import FlowTrace.Time.Rfc3339
set_option autoImplicit false

/-!
# Time: time arguments

A time is given as microseconds since the epoch or as an RFC 3339 text; blanks around it do not
count.  A number that no 64-bit word holds is not taken for microseconds.
-/

namespace FlowTrace

/-- Why a text is no time; the text is the trimmed one. -/
inductive TimeFault where
  /-- microseconds of no instant -/
  | outOfRange (text : String)
  /-- neither microseconds nor RFC 3339 -/
  | notATime (text : String)
  deriving DecidableEq, Repr, Inhabited

/-- What a fault says. -/
def TimeFault.text : TimeFault → String
  | .outOfRange raw => "Time out of range: " ++ raw
  | .notATime raw => "Expected unix microseconds or RFC 3339, got '" ++ raw ++ "'"

/-- The instant that a time argument names. -/
def Instant.ofArgument (raw : String) : Except TimeFault Instant :=
  let trimmed := Text.trim raw.toList
  let shown := String.ofList trimmed
  match (Text.readInt? trimmed).filter fun i => Word.Fits i with
  | some micros =>
    match Instant.ofMicros? micros with
    | some t => .ok t
    | none => .error (.outOfRange shown)
  | none =>
    match Rfc3339.readStrict? trimmed with
    | some t => .ok t
    | none => .error (.notATime shown)

end FlowTrace
