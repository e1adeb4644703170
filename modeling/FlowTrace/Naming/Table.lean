import Std.Data.HashMap
set_option autoImplicit false

/-!
# Naming: ids of names

A table numbers distinct keys in the order in which they were first seen; the first key is reserved
for "none given" and has id 0.  Looking up goes through a hash map, and an invariant says that the
map and the list of keys are the same numbering, so that the list of keys alone determines every
answer.
-/

namespace FlowTrace

/-! ## Maps that are used again -/

section

variable {α β : Type} [DecidableEq α] [Hashable α]

/-- The map with all entries taken out; its room is kept for the next ones. -/
def emptied (m : Std.HashMap α β) : Std.HashMap α β := m.filter fun _ _ => false

@[simp] theorem getElem?_emptied (m : Std.HashMap α β) (a : α) : (emptied m)[a]? = none := by
  rw [emptied, Std.HashMap.getElem?_filter']
  cases m[a]? <;> rfl

/-- A single key in a map without entries has the first place of a list that holds it alone. -/
theorem getElem?_insert_zero_iff {m : Std.HashMap α Nat} (h : ∀ b : α, m[b]? = none) (a b : α)
    (i : Nat) : (m.insert a 0)[b]? = some i ↔ (#[a])[i]? = some b := by
  rw [Std.HashMap.getElem?_insert]
  cases i with
  | zero => by_cases hb : a = b <;> simp [hb, h]
  | succ i => by_cases hb : a = b <;> simp [hb, h]

end

/-! ## Tables -/

/-- A numbering of distinct keys. -/
structure IdTable (α : Type) [DecidableEq α] [Hashable α] where
  /-- the keys, each at the place of its id -/
  keys : Array α
  /-- the id of each key -/
  ids : Std.HashMap α Nat
  ids_eq_some_iff : ∀ (a : α) (i : Nat), ids[a]? = some i ↔ keys[i]? = some a

namespace IdTable

variable {α : Type} [DecidableEq α] [Hashable α]

/-- The table that holds a reserved key only. -/
def reserving (a : α) : IdTable α where
  keys := #[a]
  ids := Std.HashMap.emptyWithCapacity.insert a 0
  ids_eq_some_iff b i := getElem?_insert_zero_iff (fun _ => by simp) a b i

/-- The table with all keys forgotten, so that it holds the reserved key only. -/
def clear (t : IdTable α) (a : α) : IdTable α where
  keys := #[a]
  ids := (emptied t.ids).insert a 0
  ids_eq_some_iff b i := getElem?_insert_zero_iff (getElem?_emptied t.ids) a b i

/-- The id of a key, if it has one. -/
def id? (t : IdTable α) (a : α) : Option Nat := t.ids[a]?

/-- The keys in the order of their ids. -/
def toList (t : IdTable α) : List α := t.keys.toList

/-- The number of keys. -/
def size (t : IdTable α) : Nat := t.keys.size

theorem id?_eq_some_iff (t : IdTable α) (a : α) (i : Nat) :
    t.id? a = some i ↔ t.toList[i]? = some a := by
  rw [id?, t.ids_eq_some_iff, toList, Array.getElem?_toList]

theorem id?_eq_none_iff (t : IdTable α) (a : α) : t.id? a = none ↔ a ∉ t.toList := by
  constructor
  · intro h hmem
    obtain ⟨i, hi⟩ := List.mem_iff_getElem?.1 hmem
    rw [(t.id?_eq_some_iff a i).2 hi] at h
    cases h
  · intro h
    cases hid : t.id? a with
    | none => rfl
    | some i =>
      exact absurd (List.mem_iff_getElem?.2 ⟨i, (t.id?_eq_some_iff a i).1 hid⟩) h

/-- The table with a key added that it does not hold. -/
def push (t : IdTable α) (a : α) (fresh : t.ids[a]? = none) : IdTable α where
  keys := t.keys.push a
  ids := t.ids.insert a t.keys.size
  ids_eq_some_iff b i := by
    have new : ∀ j : Nat, t.keys[j]? ≠ some a := by
      intro j hj
      rw [(t.ids_eq_some_iff a j).2 hj] at fresh
      cases fresh
    rw [Std.HashMap.getElem?_insert, Array.getElem?_push]
    by_cases hb : a = b
    · subst hb
      by_cases hi : i = t.keys.size
      · simp [hi]
      · simp [hi, new, Ne.symm hi]
    · by_cases hi : i = t.keys.size
      · subst hi
        have : t.ids[b]? ≠ some t.keys.size := by
          rw [ne_eq, t.ids_eq_some_iff]
          simp
        simp [hb, this]
      · simp [hb, hi, t.ids_eq_some_iff]

/-- The id of a key, and the table with the key added where it was new. -/
def intern (t : IdTable α) (a : α) : Nat × IdTable α :=
  match h : t.ids[a]? with
  | some i => (i, t)
  | none => (t.keys.size, t.push a h)

theorem intern_of_id? {t : IdTable α} {a : α} {i : Nat} (h : t.id? a = some i) :
    t.intern a = (i, t) := by
  unfold intern
  split
  · rename_i j hj
    rw [id?, hj] at h
    cases h
    rfl
  · rename_i hnone
    rw [id?, hnone] at h
    cases h

theorem toList_intern_of_not_mem {t : IdTable α} {a : α} (h : a ∉ t.toList) :
    (t.intern a).1 = t.toList.length ∧ (t.intern a).2.toList = t.toList ++ [a] := by
  have hnone : t.ids[a]? = none := (t.id?_eq_none_iff a).2 h
  unfold intern
  split
  · rename_i j hj
    rw [hnone] at hj
    cases hj
  · simp [push, toList]

end IdTable

/-!
## Stream names

The same name reaches the tracer through many allocations of its text, and through the same
allocation many times.  Ids belong to texts; on the way to them the allocation is looked up first,
which spares comparing texts.  An allocation that has been looked up is kept alive by the table, so
that its address cannot come to hold another text.
-/

/-- A stream name in memory: its text, and which of the allocations of that text it is. -/
structure StreamName where
  text : String
  allocation : Nat
  deriving DecidableEq, Repr, Hashable, Inhabited

/-- Ids of names, where a `κ` tells allocations apart. -/
structure NameIds (κ : Type) [DecidableEq κ] [Hashable κ] where
  /-- the ids of the texts; id 0 is reserved for the empty text -/
  table : IdTable String
  /-- the ids of the allocations seen, all of them kept alive -/
  seen : Std.HashMap κ Nat

namespace NameIds

variable {κ : Type} [DecidableEq κ] [Hashable κ]

/-- Only the empty name has an id, and no allocation has been seen. -/
def empty : NameIds κ := ⟨IdTable.reserving "", Std.HashMap.emptyWithCapacity⟩

/-- The id of a name, given by its allocation and its text; a missing name has id 0.  A text that is
new gets the next id. -/
def intern (t : NameIds κ) (name : Option (κ × String)) : Nat × NameIds κ :=
  match name with
  | none => (0, t)
  | some (allocation, text) =>
    match t.seen[allocation]? with
    | some id => (id, t)
    | none =>
      let (id, table) := t.table.intern text
      (id, ⟨table, t.seen.insert allocation id⟩)

/-- The id that a text already has. -/
def id? (t : NameIds κ) (text : String) : Option Nat := t.table.id? text

/-- The names in the order of their ids. -/
def names (t : NameIds κ) : List String := t.table.toList

/-- The number of names, the empty one included. -/
def size (t : NameIds κ) : Nat := t.table.size

/-- Forget all names but the empty one, and let go of all allocations. -/
def clear (t : NameIds κ) : NameIds κ := ⟨t.table.clear "", emptied t.seen⟩

/-- The table keeps this allocation alive. -/
def keepsAlive (t : NameIds κ) (allocation : κ) : Bool := t.seen.contains allocation

end NameIds

/-- Ids of the stream names of events. -/
abbrev StreamIds := NameIds StreamName

/-- The id of the name of a stream. -/
def StreamIds.internName (t : StreamIds) (name : Option StreamName) : Nat × StreamIds :=
  t.intern (name.map fun n => (n, n.text))

end FlowTrace
