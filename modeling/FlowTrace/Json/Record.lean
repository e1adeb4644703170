import FlowTrace.Arithmetic
import FlowTrace.Json.Basic
set_option autoImplicit false

/-!
# Json: records with named fields

A record is written as an object, its fields found by name, or as an array of its fields in
declared order.  Unknown names are passed over.  Whether a name may be repeated depends on how the
text is read: straight into the record it may not, and out of a value read before, the last
occurrence counts.
-/

namespace FlowTrace.Json

/-! ## Plain values -/

/-- An integer between two bounds. -/
def intWithin? (low high : Int) : Json → Option Int
  | .number (.integer value) => if low ≤ value ∧ value ≤ high then some value else none
  | _ => none

/-- A signed integer of 64 bits. -/
def int64? (value : Json) : Option Int64 :=
  (value.intWithin? Word.least Word.greatest).map Int64.ofInt

/-- A signed integer of 32 bits. -/
def int32? (value : Json) : Option Int32 :=
  (value.intWithin? (-2147483648) 2147483647).map Int32.ofInt

/-- An unsigned integer of 64 bits. -/
def uint64? (value : Json) : Option UInt64 :=
  (value.intWithin? 0 Word.greatestUnsigned).map fun i => UInt64.ofNat i.toNat

/-- A truth value. -/
def bool? : Json → Option Bool
  | .bool value => some value
  | _ => none

/-- A string. -/
def text? : Json → Option String
  | .string text => text
  | _ => none

/-- A value or null. -/
def orNull? {α : Type} (read? : Json → Option α) : Json → Option (Option α)
  | .null => some none
  | value => (read? value).map some

/-- An array, all of whose items can be read. -/
def list? {α : Type} (read? : Json → Option α) : Json → Option (List α)
  | .array items => items.mapM read?
  | _ => none

/-! ## Records -/

/-- What a repeated field name means. -/
inductive Repeated where
  /-- the record is refused -/
  | refused
  /-- the last occurrence counts -/
  | lastCounts
  deriving DecidableEq, Repr, Inhabited

/-- The fields of a record that are present, by name. -/
abbrev Record := List (String × Json)

/-- The fields with a known name, where every name has a text. -/
def knownFields? (names : List String) :
    List (Option String × Json) → Option Record
  | [] => some []
  | (none, _) :: _ => none
  | (some name, value) :: rest =>
    (knownFields? names rest).map fun known =>
      if name ∈ names then (name, value) :: known else known

/-- The record that a value writes, for the declared names. -/
def record? (repeated : Repeated) (names : List String) : Json → Option Record
  | .array items => if items.length ≤ names.length then some (names.zip items) else none
  | .object fields =>
    match knownFields? names fields, repeated with
    | none, _ => none
    | some known, .lastCounts => some known.reverse
    | some known, .refused => if (known.map Prod.fst).Nodup then some known else none
  | _ => none

namespace Record

/-- A field that has to be present. -/
def required? {α : Type} (record : Record) (name : String) (read? : Json → Option α) :
    Option α :=
  (record.lookup name).bind read?

/-- A field that has a value of its own when it is absent. -/
def optional? {α : Type} (record : Record) (name : String) (absent : α)
    (read? : Json → Option α) : Option α :=
  match record.lookup name with
  | some value => read? value
  | none => some absent

end Record

/-- The value of a field, the last one where the name is repeated. -/
def lastField? (name : String) (fields : List (Option String × Json)) : Option Json :=
  fields.reverse.lookup (some name)

end FlowTrace.Json
