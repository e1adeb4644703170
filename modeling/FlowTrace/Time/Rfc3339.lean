import FlowTrace.Time.Instant
import FlowTrace.Text
set_option autoImplicit false

/-!
# Time: RFC 3339 texts

Writing an instant as date, time of day and offset, and reading such texts back.  Two readers share
their fields: the strict one takes the fixed widths of RFC 3339, the free one also takes signed
years of any length, fields of one digit, blanks between the fields and the word `UTC`.  Second 60
is a leap second: the second before it, with a thousand million nanoseconds more.
-/

namespace FlowTrace.Rfc3339

open Calendar (Date)

/-! ## Writing -/

/-- How universal time is marked at the end of a text. -/
inductive Zone where
  /-- `+00:00` -/
  | numeric
  /-- `Z` -/
  | zulu
  deriving DecidableEq, Repr, Inhabited

/-- A year: four digits, and a sign in front where it has not exactly those. -/
def yearText (year : Int) : List Char :=
  if 0 ≤ year ∧ year ≤ 9999 then Text.paddedDigits 4 year.toNat
  else (if year < 0 then '-' else '+') :: Text.paddedDigits 4 year.natAbs

/-- A fraction of a second: none, or the first of three, six and nine digits that is exact. -/
def fractionText (nano : Nat) : List Char :=
  if nano = 0 then []
  else if nano % 1000000 = 0 then '.' :: Text.paddedDigits 3 (nano / 1000000)
  else if nano % 1000 = 0 then '.' :: Text.paddedDigits 6 (nano / 1000)
  else '.' :: Text.paddedDigits 9 nano

/-- The mark of universal time. -/
def Zone.text : Zone → List Char
  | .numeric => ['+', '0', '0', ':', '0', '0']
  | .zulu => ['Z']

/-- A date. -/
def dateText (date : Date) : List Char :=
  yearText date.year ++ '-' :: (Text.paddedDigits 2 date.month ++
    '-' :: Text.paddedDigits 2 date.day)

/-- The time of day of a second of the day and its nanoseconds. -/
def clockText (second nano : Nat) : List Char :=
  Text.paddedDigits 2 (second / 3600) ++ ':' :: (Text.paddedDigits 2 (second / 60 % 60) ++
    ':' :: (Text.paddedDigits 2 (second % 60 + nano / secondNanos) ++
      fractionText (nano % secondNanos)))

/-- The text of an instant. -/
def write (zone : Zone) (t : Instant) : List Char :=
  dateText (Date.ofDays (t.second / daySeconds + epochDay)) ++
    'T' :: (clockText (t.second % daySeconds).toNat t.nano ++ zone.text)

/-- The text of an instant as a string. -/
def text (zone : Zone) (t : Instant) : String := String.ofList (write zone t)

/-! ## From fields to an instant -/

/-- The fields of a text. -/
structure Fields where
  date : Date
  hour : Nat
  minute : Nat
  second : Nat
  nano : Nat
  /-- minutes east of Greenwich -/
  offset : Int
  deriving DecidableEq, Repr, Inhabited

/-- The instant that the fields name, if its local time and itself lie in the range of instants. -/
def Fields.instant? (f : Fields) : Option Instant :=
  if f.date.Exists ∧ yearBounds.1 ≤ f.date.year ∧ f.date.year ≤ yearBounds.2 ∧
      f.hour ≤ 23 ∧ f.minute ≤ 59 ∧ f.second ≤ 60 ∧ -1440 < f.offset ∧ f.offset < 1440 then
    let day := (f.date.toDays - epochDay) * daySeconds
    let clock : Nat := f.hour * 3600 + f.minute * 60
    let leap := f.second = 60
    Instant.ofParts? (day + clock + (if leap then 59 else f.second : Nat) - f.offset * 60)
      (if leap then secondNanos + f.nano else f.nano)
  else none

/-! ## Fields of a text -/

/-- A number of at least `least` and at most `most` digits. -/
def number? (least most : Nat) (cs : List Char) : Option (Nat × List Char) :=
  let digits := (cs.take most).takeWhile Char.isDigit
  if least ≤ digits.length then some (Text.digitsValue digits, cs.drop digits.length) else none

/-- The text after an expected character. -/
def char? (expected : Char) : List Char → Option (List Char)
  | c :: rest => if c = expected then some rest else none
  | [] => none

/-- A fraction of a second behind its point: nine digits count, further ones are dropped. -/
def fraction? (cs : List Char) : Option (Nat × List Char) :=
  let (digits, rest) := Text.spanDigits cs
  if digits = [] then none
  else
    let kept := digits.take 9
    some (Text.digitsValue (kept ++ List.replicate (9 - kept.length) '0'), rest)

/-- An optional fraction of a second with its point. -/
def optionalFraction? : List Char → Option (Nat × List Char)
  | '.' :: rest => fraction? rest
  | cs => some (0, cs)

/-- The sign of an offset; the mathematical minus sign counts as one. -/
def sign? : List Char → Option (Int × List Char)
  | '+' :: rest => some (1, rest)
  | '-' :: rest => some (-1, rest)
  | '\u2212' :: rest => some (-1, rest)
  | _ => none

/-- An offset in minutes: `Z`, or a sign, two digits of hours, a separator and two digits of
minutes up to 59. -/
def offset? (separator? : List Char → Option (List Char)) : List Char → Option (Int × List Char)
  | 'Z' :: rest => some (0, rest)
  | 'z' :: rest => some (0, rest)
  | cs => do
    let (sign, cs) ← sign? cs
    let (hours, cs) ← number? 2 2 cs
    let cs ← separator? cs
    let (minutes, cs) ← number? 2 2 cs
    if minutes ≤ 59 then return (sign * (hours * 60 + minutes : Nat), cs) else none

/-- The mark between date and time of day. -/
def dateMark? : List Char → Option (List Char)
  | 'T' :: rest => some rest
  | 't' :: rest => some rest
  | ' ' :: rest => some rest
  | _ => none

/-! ## The strict reader -/

/-- The fields of a text in the fixed widths of RFC 3339. -/
def strictFields? (cs : List Char) : Option Fields := do
  let (year, cs) ← number? 4 4 cs
  let cs ← char? '-' cs
  let (month, cs) ← number? 2 2 cs
  let cs ← char? '-' cs
  let (day, cs) ← number? 2 2 cs
  let cs ← dateMark? cs
  let (hour, cs) ← number? 2 2 cs
  let cs ← char? ':' cs
  let (minute, cs) ← number? 2 2 cs
  let cs ← char? ':' cs
  let (second, cs) ← number? 2 2 cs
  let (nano, cs) ← optionalFraction? cs
  let (offset, cs) ← offset? (char? ':') cs
  if cs = [] then return ⟨⟨year, month, day⟩, hour, minute, second, nano, offset⟩ else none

/-- The instant of a text in the fixed widths of RFC 3339. -/
def readStrict? (cs : List Char) : Option Instant := (strictFields? cs).bind Fields.instant?

/-! ## The free reader -/

/-- A year: signed with any number of digits, or up to four digits. -/
def freeYear? (cs : List Char) : Option (Int × List Char) :=
  match Text.trimStart cs with
  | '-' :: rest => (number? 1 rest.length rest).map fun (n, r) => (-(n : Int), r)
  | '+' :: rest => (number? 1 rest.length rest).map fun (n, r) => ((n : Int), r)
  | rest => (number? 1 4 rest).map fun (n, r) => ((n : Int), r)

/-- A number of one or two digits after blanks. -/
def freeNumber? (cs : List Char) : Option (Nat × List Char) := number? 1 2 (Text.trimStart cs)

/-- The text after an expected character and the blanks before it. -/
def freeChar? (expected : Char) (cs : List Char) : Option (List Char) :=
  char? expected (Text.trimStart cs)

/-- Colons and blanks between the hours and the minutes of an offset. -/
def freeSeparator? (cs : List Char) : Option (List Char) :=
  some (cs.dropWhile fun c => c == ':' || Text.isBlank c)

/-- An offset, which may also be the word `UTC` in any case. -/
def freeOffset? (cs : List Char) : Option (Int × List Char) :=
  if (cs.take 3).map Char.toUpper = ['U', 'T', 'C'] then some (0, cs.drop 3)
  else offset? freeSeparator? cs

/-- The fields of a text in the free form. -/
def freeFields? (cs : List Char) : Option Fields := do
  let (year, cs) ← freeYear? cs
  let cs ← freeChar? '-' cs
  let (month, cs) ← freeNumber? cs
  let cs ← freeChar? '-' cs
  let (day, cs) ← freeNumber? cs
  let cs ← dateMark? cs
  let (hour, cs) ← freeNumber? cs
  let cs ← freeChar? ':' cs
  let (minute, cs) ← freeNumber? cs
  let cs ← freeChar? ':' cs
  let (second, cs) ← freeNumber? cs
  let (nano, cs) ← optionalFraction? cs
  let (offset, cs) ← freeOffset? (Text.trimStart cs)
  if Text.trimStart cs = [] then
    return ⟨⟨year, month, day⟩, hour, minute, second, nano, offset⟩
  else none

/-- The instant of a text in the free form. -/
def readFree? (cs : List Char) : Option Instant := (freeFields? cs).bind Fields.instant?

end FlowTrace.Rfc3339
