set_option autoImplicit false

/-!
# History: the most recent events

A recorder keeps a bounded number of events: a new one pushes out the oldest when there is no room.
The events lie in two lists, the older ones oldest first and the newer ones newest first, so that
both ends are at hand.  `toList` is the view under which everything else is stated.
-/

namespace FlowTrace

/-- A queue that holds at most `capacity` elements, and at least one fits. -/
structure History (α : Type) where
  capacity : Nat
  /-- oldest first -/
  older : List α
  /-- newest first -/
  newer : List α
  /-- the number of elements -/
  size : Nat
  size_eq : size = older.length + newer.length
  capacity_pos : 0 < capacity
  size_le : size ≤ capacity

namespace History

variable {α : Type}

/-- The number of elements a recorder keeps by default. -/
def defaultCapacity : Nat := 20000

/-- Nothing has been recorded; a capacity of zero counts as one. -/
def empty (α : Type) (capacity : Nat) : History α where
  capacity := max capacity 1
  older := []
  newer := []
  size := 0
  size_eq := rfl
  capacity_pos := by omega
  size_le := Nat.zero_le _

/-- The elements, oldest first. -/
def toList (h : History α) : List α := h.older ++ h.newer.reverse

/-- Nothing is held. -/
def isEmpty (h : History α) : Bool := h.size == 0

theorem length_toList (h : History α) : h.toList.length = h.size := by
  simp [toList, h.size_eq]

/-- The history without its oldest element. -/
def dropOldest (h : History α) : History α :=
  match ho : h.older with
  | _ :: rest =>
    { capacity := h.capacity, older := rest, newer := h.newer, size := h.size - 1,
      size_eq := by have := h.size_eq; simp only [ho, List.length_cons] at this; omega,
      capacity_pos := h.capacity_pos, size_le := by have := h.size_le; omega }
  | [] =>
    { capacity := h.capacity, older := h.newer.reverse.tail, newer := [], size := h.size - 1,
      size_eq := by have := h.size_eq; simp only [ho, List.length_nil] at this; simp; omega,
      capacity_pos := h.capacity_pos, size_le := by have := h.size_le; omega }

@[simp] theorem capacity_dropOldest (h : History α) : h.dropOldest.capacity = h.capacity := by
  unfold dropOldest
  split <;> rfl

@[simp] theorem size_dropOldest (h : History α) : h.dropOldest.size = h.size - 1 := by
  unfold dropOldest
  split <;> rfl

@[simp] theorem toList_dropOldest (h : History α) : h.dropOldest.toList = h.toList.tail := by
  unfold dropOldest
  split <;> rename_i ho <;> simp [toList, ho]

/-- The history with one more element at its end; the oldest one leaves a full history. -/
def push (h : History α) (a : α) : History α :=
  let room := if h.size = h.capacity then h.dropOldest else h
  { capacity := room.capacity, older := room.older, newer := a :: room.newer,
    size := room.size + 1,
    size_eq := by have := room.size_eq; simp only [List.length_cons]; omega,
    capacity_pos := room.capacity_pos,
    size_le := by
      have := h.capacity_pos
      have := h.size_le
      show (if h.size = h.capacity then h.dropOldest else h).size + 1 ≤
        (if h.size = h.capacity then h.dropOldest else h).capacity
      split
      · simp only [size_dropOldest, capacity_dropOldest]; omega
      · omega }

theorem toList_push (h : History α) (a : α) :
    (h.push a).toList = (if h.size = h.capacity then h.toList.tail else h.toList) ++ [a] := by
  show (if h.size = h.capacity then h.dropOldest else h).older ++
      (a :: (if h.size = h.capacity then h.dropOldest else h).newer).reverse = _
  rw [List.reverse_cons, ← List.append_assoc]
  congr 1
  split
  · exact toList_dropOldest h
  · rfl

/-- The elements pushed one after the other. -/
def extend (h : History α) (as : List α) : History α := as.foldl push h

end History

end FlowTrace
