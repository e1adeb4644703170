import FlowTrace.Arithmetic
import FlowTrace.Json.Basic
import FlowTrace.Text
set_option autoImplicit false

/-!
# Json: reading

A text is a value with blanks (space, tab, line feed, carriage return) around every token.
Reading is greedy and never backs up; a reader returns the value and the text after it.  The
recursion is bounded by a count that starts above twice the length of the text.  A value, its list
of items or fields and the next value take one step each, and at least one character goes with two
steps, so the bound is never met.
-/

namespace FlowTrace.Json

/-- The characters that may stand between tokens. -/
def isSpace (c : Char) : Bool := c == ' ' || c == '\t' || c == '\n' || c == '\r'

/-- The text from its next token on. -/
def skipSpace (cs : List Char) : List Char := cs.dropWhile isSpace

/-! ## Strings -/

/-- The value of a hexadecimal digit. -/
def hexValue? (c : Char) : Option Nat :=
  if '0' ≤ c ∧ c ≤ '9' then some (c.toNat - '0'.toNat)
  else if 'a' ≤ c ∧ c ≤ 'f' then some (c.toNat - 'a'.toNat + 10)
  else if 'A' ≤ c ∧ c ≤ 'F' then some (c.toNat - 'A'.toNat + 10)
  else none

/-- The 16-bit unit written by four hexadecimal digits. -/
def unit? (a b c d : Char) : Option Nat := do
  let a ← hexValue? a
  let b ← hexValue? b
  let c ← hexValue? c
  let d ← hexValue? d
  return ((a * 16 + b) * 16 + c) * 16 + d

/-- The unit opens a surrogate pair. -/
def isHighSurrogate (unit : Nat) : Bool := 0xD800 ≤ unit && unit < 0xDC00

/-- The unit closes a surrogate pair. -/
def isLowSurrogate (unit : Nat) : Bool := 0xDC00 ≤ unit && unit < 0xE000

/-- The character of a surrogate pair. -/
def pairChar (high low : Nat) : Char :=
  Char.ofNat (0x10000 + (high - 0xD800) * 0x400 + (low - 0xDC00))

/-- The character of a one-letter escape. -/
def escaped? : Char → Option Char
  | '"' => some '"'
  | '\\' => some '\\'
  | '/' => some '/'
  | 'b' => some '\x08'
  | 'f' => some '\x0c'
  | 'n' => some '\n'
  | 'r' => some '\r'
  | 't' => some '\t'
  | _ => none

/-- What one step of a string body yields. -/
inductive Piece where
  /-- the closing quote -/
  | close (rest : List Char)
  /-- one character -/
  | char (c : Char) (rest : List Char)
  /-- an escaped surrogate without its partner -/
  | unpaired (rest : List Char)
  deriving Repr

/-- The next piece of a string body; none where the text is no string. -/
def piece? : List Char → Option Piece
  | [] => none
  | '"' :: rest => some (.close rest)
  | '\\' :: 'u' :: a :: b :: c :: d :: rest =>
    match unit? a b c d with
    | none => none
    | some high =>
      if isHighSurrogate high then
        match rest with
        | '\\' :: 'u' :: e :: f :: g :: h :: rest' =>
          match unit? e f g h with
          | some low =>
            if isLowSurrogate low then some (.char (pairChar high low) rest')
            else some (.unpaired rest)
          | none => some (.unpaired rest)
        | _ => some (.unpaired rest)
      else if isLowSurrogate high then some (.unpaired rest)
      else some (.char (Char.ofNat high) rest)
  | '\\' :: e :: rest => (escaped? e).map fun c => .char c rest
  | c :: rest => if c.toNat < 0x20 then none else some (.char c rest)

/-- The rest of a string after its opening quote: the text, unless a surrogate stays unpaired, and
what follows the closing quote.  `before` holds the characters so far, last first. -/
def stringBody : Nat → List Char → Bool → List Char → Option (Option String × List Char)
  | 0, _, _, _ => none
  | fuel + 1, before, paired, cs =>
    match piece? cs with
    | none => none
    | some (.close rest) =>
      some (if paired then some (String.ofList before.reverse) else none, rest)
    | some (.char c rest) => stringBody fuel (c :: before) paired rest
    | some (.unpaired rest) => stringBody fuel before false rest

/-- A string after its opening quote. -/
def readString (fuel : Nat) (cs : List Char) : Option (Option String × List Char) :=
  stringBody fuel [] true cs

/-! ## Numbers -/

/-- A significand of 64 bits on its way through the digits. -/
structure Significand where
  value : Nat
  exponent : Int
  /-- a digit has been dropped for want of room -/
  full : Bool
  deriving Repr, Inhabited

/-- The significand takes one more digit, if it has room. -/
def Significand.push? (s : Significand) (digit : Char) : Option Nat :=
  let next := s.value * 10 + (digit.toNat - '0'.toNat)
  if s.full ∨ Word.greatestUnsigned < next then none else some next

/-- A digit before the point: without room it only raises the exponent. -/
def Significand.whole (s : Significand) (digit : Char) : Significand :=
  match s.push? digit with
  | some next => { s with value := next }
  | none => { s with exponent := s.exponent + 1, full := true }

/-- A digit behind the point: without room it is dropped. -/
def Significand.fraction (s : Significand) (digit : Char) : Significand :=
  match s.push? digit with
  | some next => { s with value := next, exponent := s.exponent - 1 }
  | none => { s with full := true }

/-- The digits before the point: a zero alone, or digits that do not begin with zero. -/
def isWholePart : List Char → Bool
  | [] => false
  | ['0'] => true
  | d :: _ => d != '0'

/-- A point with its digits, if there is one. -/
def readFraction : List Char → Option (Option (List Char) × List Char)
  | '.' :: rest =>
    match Text.spanDigits rest with
    | ([], _) => none
    | (digits, rest') => some (some digits, rest')
  | cs => some (none, cs)

/-- An exponent, if there is one. -/
def readExponent : List Char → Option (Option Int × List Char)
  | c :: rest =>
    if c = 'e' ∨ c = 'E' then
      let (negative, unsigned) :=
        match rest with
        | '-' :: r => (true, r)
        | '+' :: r => (false, r)
        | r => (false, r)
      match Text.spanDigits unsigned with
      | ([], _) => none
      | (digits, rest') =>
        let value : Int := Text.digitsValue digits
        some (some (if negative then -value else value), rest')
    else some (none, c :: rest)
  | [] => some (none, [])

/-- The number written by its parts. -/
def numberOf (negative : Bool) (whole : List Char) (fraction : Option (List Char))
    (exponent : Option Int) : JsonNumber :=
  let value := Text.digitsValue whole
  if fraction = none ∧ exponent = none ∧ ¬ negative ∧ value ≤ Word.greatestUnsigned then
    .integer value
  else if fraction = none ∧ exponent = none ∧ negative ∧ 0 < value ∧ Word.least ≤ -value then
    .integer (-value)
  else
    let afterWhole := whole.foldl Significand.whole ⟨0, 0, false⟩
    let all := (fraction.getD []).foldl Significand.fraction { afterWhole with full := false }
    .real negative all.value (all.exponent + exponent.getD 0)

/-- A number at the start of the text. -/
def readNumber (cs : List Char) : Option (JsonNumber × List Char) := do
  let (negative, unsigned) :=
    match cs with
    | '-' :: rest => (true, rest)
    | rest => (false, rest)
  let (whole, afterWhole) := Text.spanDigits unsigned
  if isWholePart whole then
    let (fraction, afterFraction) ← readFraction afterWhole
    let (exponent, rest) ← readExponent afterFraction
    return (numberOf negative whole fraction exponent, rest)
  else none

/-! ## Values -/

/-- The text after an expected word. -/
def expect (word : List Char) (cs : List Char) : Option (List Char) :=
  if word.isPrefixOf cs then some (cs.drop word.length) else none

mutual

/-- A value, after blanks. -/
def readValue : Nat → List Char → Option (Json × List Char)
  | 0, _ => none
  | fuel + 1, cs =>
    match skipSpace cs with
    | '{' :: rest =>
      match skipSpace rest with
      | '}' :: rest' => some (.object [], rest')
      | _ => readFields fuel [] rest
    | '[' :: rest =>
      match skipSpace rest with
      | ']' :: rest' => some (.array [], rest')
      | _ => readItems fuel [] rest
    | '"' :: rest => (readString fuel rest).map fun (text, rest') => (.string text, rest')
    | 'n' :: rest => (expect ['u', 'l', 'l'] rest).map fun rest' => (.null, rest')
    | 't' :: rest => (expect ['r', 'u', 'e'] rest).map fun rest' => (.bool true, rest')
    | 'f' :: rest => (expect ['a', 'l', 's', 'e'] rest).map fun rest' => (.bool false, rest')
    | cs' => (readNumber cs').map fun (value, rest) => (.number value, rest)

/-- The items of an array from the next one on, up to its closing bracket. -/
def readItems : Nat → List Json → List Char → Option (Json × List Char)
  | 0, _, _ => none
  | fuel + 1, before, cs =>
    match readValue fuel cs with
    | none => none
    | some (item, rest) =>
      match skipSpace rest with
      | ',' :: rest' => readItems fuel (item :: before) rest'
      | ']' :: rest' => some (.array (item :: before).reverse, rest')
      | _ => none

/-- The fields of an object from the next one on, up to its closing brace. -/
def readFields : Nat → List (Option String × Json) → List Char → Option (Json × List Char)
  | 0, _, _ => none
  | fuel + 1, before, cs =>
    match skipSpace cs with
    | '"' :: rest =>
      match readString fuel rest with
      | none => none
      | some (name, rest₁) =>
        match skipSpace rest₁ with
        | ':' :: rest₂ =>
          match readValue fuel rest₂ with
          | none => none
          | some (value, rest₃) =>
            match skipSpace rest₃ with
            | ',' :: rest₄ => readFields fuel ((name, value) :: before) rest₄
            | '}' :: rest₄ => some (.object ((name, value) :: before).reverse, rest₄)
            | _ => none
        | _ => none
    | _ => none

end

/-- The value that a whole text writes, read for its grammar alone. -/
def parse? (cs : List Char) : Option Json :=
  match readValue (2 * cs.length + 1) cs with
  | some (value, rest) => if skipSpace rest = [] then some value else none
  | none => none

/-- The value that a whole text writes, where every part of it can be used. -/
def parseUsable? (cs : List Char) : Option Json :=
  (parse? cs).filter usable

end FlowTrace.Json
