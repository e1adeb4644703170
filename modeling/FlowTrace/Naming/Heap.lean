import FlowTrace.Naming.Table
set_option autoImplicit false

/-!
# Naming: names on a heap

A caller allocates names, hands them to a table of ids and drops them again.  A name is an address
with a text; an address can be given to a new name only when neither the caller nor the table still
holds on to it.
-/

namespace FlowTrace

/-- A name on the heap. -/
structure HeapName where
  address : Nat
  text : String
  deriving DecidableEq, Repr, Inhabited

/-- A caller's names and the table it hands them to. -/
structure NameHeap where
  /-- every name the caller has allocated, none once it is dropped -/
  held : Array (Option HeapName)
  ids : NameIds Nat

namespace NameHeap

/-- No name has been allocated. -/
def empty : NameHeap := ⟨#[], NameIds.empty⟩

/-- The caller holds a name at the address. -/
def isHeld (h : NameHeap) (address : Nat) : Bool :=
  h.held.any fun name => (name.map HeapName.address) == some address

/-- The address belongs to a name that somebody holds on to. -/
def inUse (h : NameHeap) (address : Nat) : Bool := h.isHeld address || h.ids.keepsAlive address

/-- The first address that is not in use; among more addresses than names one is free. -/
def freeAddress (h : NameHeap) : Nat :=
  ((List.range (h.held.size + h.ids.seen.size + 1)).find? fun address => !h.inUse address).getD 0

/-- The caller's name with a number, unless it has been dropped. -/
def name? (h : NameHeap) (index : Nat) : Option HeapName := (h.held[index]?).join

/-- What a caller can do. -/
inductive Op where
  /-- allocate a name at an address that is not in use -/
  | allocate (address : Nat) (text : String)
  /-- give up the name with a number -/
  | drop (index : Nat)
  /-- ask for the id of the name with a number; none, and a dropped name, stand for no name -/
  | intern (index : Option Nat)
  /-- ask for the id that a text already has -/
  | find (text : String)
  /-- ask for all names in the order of their ids -/
  | names
  /-- forget all ids -/
  | clear
  deriving Repr

/-- What an operation answers. -/
inductive Answer where
  | nothing
  /-- the number of an allocated name -/
  | index (index : Nat)
  | id (id : Nat)
  | found (id : Option Nat)
  | names (names : List String)
  deriving DecidableEq, Repr

/-- The operation is possible: a name is allocated only at an address that is not in use. -/
def Op.Possible (h : NameHeap) : Op → Prop
  | .allocate address _ => h.inUse address = false
  | _ => True

instance (h : NameHeap) (op : Op) : Decidable (op.Possible h) := by
  cases op <;> (unfold Op.Possible; infer_instance)

/-- One operation. -/
def step (h : NameHeap) : Op → Answer × NameHeap
  | .allocate address text =>
    (.index h.held.size, { h with held := h.held.push (some ⟨address, text⟩) })
  | .drop index => (.nothing, { h with held := h.held.modify index fun _ => none })
  | .intern index =>
    let name := index.bind h.name?
    let (id, ids) := h.ids.intern (name.map fun n => (n.address, n.text))
    (.id id, { h with ids })
  | .find text => (.found (h.ids.id? text), h)
  | .names => (.names h.ids.names, h)
  | .clear => (.nothing, { h with ids := h.ids.clear })

end NameHeap

end FlowTrace
