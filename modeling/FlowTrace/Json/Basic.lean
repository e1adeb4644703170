set_option autoImplicit false

/-!
# Json: values

A JSON text is first read for its grammar alone.  What only matters to a reader that uses the
value is kept in the tree: a number remembers whether it is an integer of 64 bits, and a string
whose escapes leave a surrogate unpaired has no text.  `Json.usable` says when all parts of a tree
mean something; fields that nobody asks for need not be usable.
-/

namespace FlowTrace

/-- A number of a JSON text. -/
inductive JsonNumber where
  /-- an integer without point and exponent, from `-2^63` up to `2^64 - 1`, and not `-0` -/
  | integer (value : Int)
  /-- any other number: `± significand · 10 ^ exponent` with a significand of 64 bits -/
  | real (negative : Bool) (significand : Nat) (exponent : Int)
  deriving DecidableEq, Repr, Inhabited

/-- A JSON value as written: fields keep their order and their repetitions. -/
inductive Json where
  | null
  | bool (value : Bool)
  | number (value : JsonNumber)
  /-- a string; no text when its escapes leave a surrogate unpaired -/
  | string (text : Option String)
  | array (items : List Json)
  | object (fields : List (Option String × Json))
  deriving Repr, Inhabited

namespace JsonNumber

/-- The power of ten as a double. -/
def tenTo (n : Nat) : Float := Float.ofScientific 1 false n

/-- The double read from a significand and a power of ten: the significand is rounded, then scaled
by at most one power of ten up, or by powers of ten down.  None when the result is infinite. -/
def scale (significand : Nat) (exponent : Int) : Option Float :=
  let base := significand.toUInt64.toFloat
  match exponent with
  | .ofNat e =>
    if e ≤ 308 then
      let scaled := base * tenTo e
      if scaled.isInf then none else some scaled
    else if significand = 0 then some base
    else none
  | .negSucc e =>
    let down := e + 1
    if down ≤ 308 then some (base / tenTo down)
    else if down ≤ 616 then some (base / tenTo 308 / tenTo (down - 308))
    else some 0

/-- The double that a number stands for; none when it is too large. -/
def toFloat? : JsonNumber → Option Float
  | .integer value => some (Float.ofInt value)
  | .real negative significand exponent =>
    (scale significand exponent).map fun value => if negative then -value else value

/-- The number stands for a finite value. -/
def isFinite : JsonNumber → Bool
  | .integer _ => true
  | .real negative significand exponent => (JsonNumber.real negative significand exponent).toFloat?.isSome

end JsonNumber

namespace Json

/-- A string value. -/
def text (value : String) : Json := .string (some value)

/-- An integer value. -/
def int (value : Int) : Json := .number (.integer value)

/-- One field of an object. -/
def field (name : String) (value : Json) : Option String × Json := (some name, value)

/-! ## Values that can be used -/

/-- Arrays and objects may be nested this deep in a value that is read as a whole. -/
def nestingLimit : Nat := 127

mutual

/-- Every string has a text, every number is finite, and at most `room` arrays and objects are
nested. -/
def usableWithin : Nat → Json → Bool
  | _, .null => true
  | _, .bool _ => true
  | _, .number value => value.isFinite
  | _, .string value => value.isSome
  | 0, .array _ => false
  | room + 1, .array items => itemsUsable room items
  | 0, .object _ => false
  | room + 1, .object fields => fieldsUsable room fields

/-- Every item is usable. -/
def itemsUsable : Nat → List Json → Bool
  | _, [] => true
  | room, item :: rest => usableWithin room item && itemsUsable room rest

/-- Every field has a name and a usable value. -/
def fieldsUsable : Nat → List (Option String × Json) → Bool
  | _, [] => true
  | room, (name, value) :: rest =>
    name.isSome && usableWithin room value && fieldsUsable room rest

end

/-- The value can be used as a whole: every part of it means something. -/
def usable (value : Json) : Bool := usableWithin nestingLimit value

end Json

end FlowTrace
