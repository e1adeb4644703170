import FlowTrace.Json.Basic
import FlowTrace.Text
import FlowTrace.Decimal
set_option autoImplicit false

/-!
# Json: writing

Two layouts of one value: compact, without any blank, and pretty, with two spaces for each level
and every item and field on a line of its own.  Strings escape the quote, the backslash and the
control characters below the space, and nothing else.
-/

namespace FlowTrace.Json

/-- A hexadecimal digit, in lower case. -/
def hexDigit (n : Nat) : Char := Nat.digitChar n

/-- A character inside a string. -/
def escape (c : Char) : List Char :=
  if c = '"' then ['\\', '"']
  else if c = '\\' then ['\\', '\\']
  else if c = '\x08' then ['\\', 'b']
  else if c = '\x0c' then ['\\', 'f']
  else if c = '\n' then ['\\', 'n']
  else if c = '\r' then ['\\', 'r']
  else if c = '\t' then ['\\', 't']
  else if c.toNat < 0x20 then
    ['\\', 'u', '0', '0', hexDigit (c.toNat / 16), hexDigit (c.toNat % 16)]
  else [c]

/-- A string between its quotes. -/
def quote (text : String) : List Char := '"' :: (text.toList.flatMap escape ++ ['"'])

/-- Doubles are written with the fewest digits that read back: from `10^-5` up to below `10^16`
positional, and with an exponent outside that range, signed on both sides. -/
def floatLayout : Decimal.Layout := ⟨-5, 15, "e+", "e-"⟩

/-- A number. -/
def writeNumber : JsonNumber → List Char
  | .integer value => Text.intDigits value
  | .real negative significand exponent =>
    match (JsonNumber.real negative significand exponent).toFloat? with
    | some value => (Decimal.shortest floatLayout value).toList
    | none => ['n', 'u', 'l', 'l']

/-- A string without a text is written empty. -/
def writeString (text : Option String) : List Char := quote (text.getD "")

/-- A truth value. -/
def writeBool (value : Bool) : List Char :=
  if value then ['t', 'r', 'u', 'e'] else ['f', 'a', 'l', 's', 'e']

/-! ## Compact -/

mutual

/-- The value without blanks. -/
def compact : Json → List Char
  | .null => ['n', 'u', 'l', 'l']
  | .bool value => writeBool value
  | .number value => writeNumber value
  | .string value => writeString value
  | .array [] => ['[', ']']
  | .array (item :: rest) => '[' :: (compact item ++ compactItems rest)
  | .object [] => ['\x7b', '\x7d']
  | .object ((name, value) :: rest) =>
    '\x7b' :: (writeString name ++ ':' :: (compact value ++ compactFields rest))

/-- The items after the first one, and the closing bracket. -/
def compactItems : List Json → List Char
  | [] => [']']
  | item :: rest => ',' :: (compact item ++ compactItems rest)

/-- The fields after the first one, and the closing brace. -/
def compactFields : List (Option String × Json) → List Char
  | [] => ['\x7d']
  | (name, value) :: rest =>
    ',' :: (writeString name ++ ':' :: (compact value ++ compactFields rest))

end

/-! ## Pretty -/

/-- The start of a line at a level. -/
def newline (level : Nat) : List Char := '\n' :: List.replicate (2 * level) ' '

mutual

/-- The value at a level of nesting, each item and field on its own line. -/
def pretty : Nat → Json → List Char
  | _, .null => ['n', 'u', 'l', 'l']
  | _, .bool value => writeBool value
  | _, .number value => writeNumber value
  | _, .string value => writeString value
  | _, .array [] => ['[', ']']
  | level, .array (item :: rest) =>
    '[' :: (newline (level + 1) ++ pretty (level + 1) item ++ prettyItems level rest)
  | _, .object [] => ['\x7b', '\x7d']
  | level, .object ((name, value) :: rest) =>
    '\x7b' :: (newline (level + 1) ++ writeString name ++ ':' :: ' ' ::
      (pretty (level + 1) value ++ prettyFields level rest))

/-- The items after the first one, and the closing bracket at its level. -/
def prettyItems : Nat → List Json → List Char
  | level, [] => newline level ++ [']']
  | level, item :: rest =>
    ',' :: (newline (level + 1) ++ pretty (level + 1) item ++ prettyItems level rest)

/-- The fields after the first one, and the closing brace at its level. -/
def prettyFields : Nat → List (Option String × Json) → List Char
  | level, [] => newline level ++ ['\x7d']
  | level, (name, value) :: rest =>
    ',' :: (newline (level + 1) ++ writeString name ++ ':' :: ' ' ::
      (pretty (level + 1) value ++ prettyFields level rest))

end

/-- The compact text of a value. -/
def compactText (value : Json) : String := String.ofList value.compact

/-- The pretty text of a value. -/
def prettyText (value : Json) : String := String.ofList (value.pretty 0)

end FlowTrace.Json
