import Mathlib.Data.List.DropRight
import FlowTrace.History
set_option autoImplicit false

/-!
# History: the last elements recorded

Whatever a history has been asked to do, it holds the last of all elements recorded, as many as it
has room for.  One more element moves this end of the list on by one.
-/

namespace FlowTrace

variable {α : Type}

/-- What a history can be asked to do. -/
inductive HistoryCall (α : Type) where
  /-- record one element -/
  | push (a : α)
  /-- record some elements, one after the other -/
  | extend (as : List α)

/-- The elements that a call records. -/
def HistoryCall.recorded : HistoryCall α → List α
  | .push a => [a]
  | .extend as => as

namespace History

/-- The history after a call. -/
def call (h : History α) : HistoryCall α → History α
  | .push a => h.push a
  | .extend as => h.extend as

/-- The history after some calls. -/
def run (h : History α) (calls : List (HistoryCall α)) : History α := calls.foldl call h

/-- The history has room for `room` elements and holds the last ones of `as`, as many as fit. -/
structure HoldsLast (h : History α) (room : Nat) (as : List α) : Prop where
  capacity : h.capacity = room
  elements : h.toList = as.rtake room

theorem capacity_push (h : History α) (a : α) : (h.push a).capacity = h.capacity := by
  show (if h.size = h.capacity then h.dropOldest else h).capacity = h.capacity
  split
  · exact capacity_dropOldest h
  · rfl

variable {h : History α} {room : Nat} {as : List α}

theorem HoldsLast.size_eq (hholds : h.HoldsLast room as) : h.size = min as.length room := by
  rw [← length_toList, hholds.elements, List.rtake, List.length_drop]
  omega

/-- A full history gives up its oldest element for a new one; one that is not full holds all there
are. -/
theorem HoldsLast.push (hholds : h.HoldsLast room as) (a : α) :
    (h.push a).HoldsLast room (as ++ [a]) := by
  refine ⟨(capacity_push h a).trans hholds.capacity, ?_⟩
  have hsize := hholds.size_eq
  have hpos := hholds.capacity ▸ h.capacity_pos
  obtain ⟨rest, rfl⟩ := Nat.exists_eq_add_one.2 hpos
  rw [toList_push, hholds.elements, hholds.capacity, List.rtake_concat_succ, List.rtake, List.rtake]
  congr 1
  split
  · rw [List.tail_drop]
    congr 1
    omega
  · congr 1
    omega

theorem HoldsLast.extend (hholds : h.HoldsLast room as) (more : List α) :
    (h.extend more).HoldsLast room (as ++ more) := by
  induction more generalizing h as with
  | nil => rwa [List.append_nil]
  | cons a more ih =>
    rw [List.append_cons]
    exact ih (hholds.push a)

theorem HoldsLast.call (hholds : h.HoldsLast room as) (c : HistoryCall α) :
    (h.call c).HoldsLast room (as ++ c.recorded) := by
  cases c with
  | push a => exact hholds.push a
  | extend more => exact hholds.extend more

theorem HoldsLast.run (hholds : h.HoldsLast room as) (calls : List (HistoryCall α)) :
    (h.run calls).HoldsLast room (as ++ calls.flatMap HistoryCall.recorded) := by
  induction calls generalizing h as with
  | nil => rwa [List.flatMap_nil, List.append_nil]
  | cons c calls ih =>
    rw [List.flatMap_cons, ← List.append_assoc]
    exact ih (hholds.call c)

/-- An empty history has room for at least one element. -/
theorem holdsLast_empty (capacity : Nat) : (empty α capacity).HoldsLast (max capacity 1) [] :=
  ⟨rfl, (List.rtake_nil _).symm⟩

end History

end FlowTrace
