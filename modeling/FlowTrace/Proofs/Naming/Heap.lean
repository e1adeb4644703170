import FlowTrace.Naming.Heap
import FlowTrace.Proofs.Naming.Ids
set_option autoImplicit false

/-!
# Naming: addresses are a detour

A table of ids trusts the address of a name and does not compare texts again.  It may do so because
it holds on to every name that it has seen: the address of such a name is not given to another one,
whatever the caller drops and allocates.  So the answers are those of a plain list of distinct texts,
which knows nothing of addresses (`NameHeap.run_eq_run_list`).  And they are
those of the stream ids of a session, which tell names apart by their text and a number that is never
given twice (`NameHeap.run_eq_run_streams`).
-/

namespace FlowTrace

/-! ## The plain list -/

/-- The caller's names as texts, and the distinct texts that have an id, each at its place. -/
structure NameList where
  /-- the text of every name the caller has allocated, none once it is dropped -/
  held : List (Option String)
  names : List String

namespace NameList

/-- No name has been allocated, and only the empty one has an id. -/
def empty : NameList := ⟨[], [""]⟩

/-- The text of the caller's name with a number, unless it has been dropped. -/
def text? (l : NameList) (index : Nat) : Option String := (l.held[index]?).join

/-- The names with a text at their end, unless it is one of them. -/
def withText (l : NameList) (text : String) : List String :=
  if text ∈ l.names then l.names else l.names ++ [text]

/-- One operation: an id is the place of a text in the list, and addresses do not matter. -/
def step (l : NameList) : NameHeap.Op → NameHeap.Answer × NameList
  | .allocate _ text => (.index l.held.length, { l with held := l.held ++ [some text] })
  | .drop index => (.nothing, { l with held := l.held.set index none })
  | .intern index =>
    match index.bind l.text? with
    | none => (.id 0, l)
    | some text => (.id ((l.withText text).idxOf text), { l with names := l.withText text })
  | .find text => (.found (if text ∈ l.names then some (l.names.idxOf text) else none), l)
  | .names => (.names l.names, l)
  | .clear => (.nothing, { l with names := [""] })

theorem text?_allocate (l : NameList) (address : Nat) (text : String) (index : Nat) :
    (l.step (.allocate address text)).2.text? index =
      if index = l.held.length then some text else l.text? index := by
  simp only [text?, step, List.getElem?_append]
  rcases Nat.lt_trichotomy index l.held.length with hlt | rfl | hlong
  · rw [if_pos hlt, if_neg (Nat.ne_of_lt hlt)]
  · simp
  · rw [if_neg (Nat.lt_asymm hlong), if_neg (Nat.ne_of_gt hlong),
      List.getElem?_eq_none (Nat.le_of_lt hlong), List.getElem?_singleton,
      if_neg (Nat.sub_ne_zero_of_lt hlong)]

theorem text?_drop (l : NameList) (dropped index : Nat) :
    (l.step (.drop dropped)).2.text? index = if index = dropped then none else l.text? index := by
  simp only [text?, step]
  split
  · rename_i hindex
    subst hindex
    by_cases hlt : index < l.held.length <;> simp [hlt]
  · rename_i hindex
    rw [List.getElem?_set_ne (Ne.symm hindex)]

/-- The answers to some operations, and the list after them. -/
def run (l : NameList) (ops : List NameHeap.Op) : List NameHeap.Answer × NameList :=
  mapThrough step l ops

end NameList

namespace NameHeap

/-- The answers to some operations, and the heap after them. -/
def run (h : NameHeap) (ops : List Op) : List Answer × NameHeap := mapThrough step h ops

/-- Every operation is possible when its turn comes. -/
def CanRun (h : NameHeap) : List Op → Prop
  | [] => True
  | op :: ops => op.Possible h ∧ (h.step op).2.CanRun ops

instance decidableCanRun : (h : NameHeap) → (ops : List Op) → Decidable (h.CanRun ops)
  | _, [] => .isTrue trivial
  | h, op :: ops =>
    have := decidableCanRun (h.step op).2 ops
    inferInstanceAs (Decidable (_ ∧ _))

/-- The operation without the address that it gives to a name. -/
def Op.content : Op → Op
  | .allocate _ text => .allocate 0 text
  | op => op

/-- The list does not look at addresses. -/
theorem run_list_map_content (l : NameList) (ops : List Op) :
    l.run (ops.map Op.content) = l.run ops := by
  induction ops generalizing l with
  | nil => rfl
  | cons op ops ih =>
    have hsame : l.step op.content = l.step op := by cases op <;> rfl
    simp only [NameList.run] at ih ⊢
    rw [List.map_cons, mapThrough_cons, mapThrough_cons, hsame, ih]

/-! ## Names that the caller holds -/

variable {h : NameHeap} {l : NameList}

@[simp] theorem held_allocate (h : NameHeap) (address : Nat) (text : String) :
    (h.step (.allocate address text)).2.held = h.held.push (some ⟨address, text⟩) := rfl

@[simp] theorem held_drop (h : NameHeap) (index : Nat) :
    (h.step (.drop index)).2.held = h.held.modify index fun _ => none := rfl

@[simp] theorem held_intern (h : NameHeap) (asked : Option Nat) :
    (h.step (.intern asked)).2.held = h.held := rfl

@[simp] theorem held_clear (h : NameHeap) : (h.step .clear).2.held = h.held := rfl

@[simp] theorem ids_allocate (h : NameHeap) (address : Nat) (text : String) :
    (h.step (.allocate address text)).2.ids = h.ids := rfl

@[simp] theorem ids_drop (h : NameHeap) (index : Nat) : (h.step (.drop index)).2.ids = h.ids := rfl

@[simp] theorem ids_clear (h : NameHeap) : (h.step .clear).2.ids = h.ids.clear := rfl

theorem step_intern_none {asked : Option Nat} (hasked : asked.bind h.name? = none) :
    h.step (.intern asked) = (.id 0, h) := by
  simp only [step, hasked, Option.map_none]
  rfl

theorem step_intern_some {asked : Option Nat} {n : HeapName} (hasked : asked.bind h.name? = some n) :
    h.step (.intern asked) =
      (.id (h.ids.intern (some (n.address, n.text))).1,
        ⟨h.held, (h.ids.intern (some (n.address, n.text))).2⟩) := by
  simp only [step, hasked, Option.map_some]

/-- Asking for an id keeps at most the name asked for alive. -/
theorem keepsAlive_intern (h : NameHeap) (asked : Option Nat) (address : Nat) :
    (h.step (.intern asked)).2.ids.keepsAlive address =
      (h.ids.keepsAlive address ||
        (asked.bind h.name?).any fun n => n.address == address) := by
  cases hname : asked.bind h.name? with
  | none => rw [step_intern_none hname, Option.any_none, Bool.or_false]
  | some n =>
    rw [step_intern_some hname, Option.any_some]
    cases hseen : h.ids.seen[n.address]? with
    | some id =>
      rw [NameIds.intern_of_seen hseen]
      by_cases heq : n.address = address
      · subst heq
        have hkept : h.ids.keepsAlive n.address = true := by
          rw [NameIds.keepsAlive, Std.HashMap.contains_eq_isSome_getElem?, hseen]
          rfl
        rw [hkept, Bool.true_or]
      · simp [heq]
    | none =>
      rw [NameIds.intern_of_not_seen hseen]
      simp [NameIds.keepsAlive, Std.HashMap.contains_insert, Bool.or_comm]

@[simp] theorem keepsAlive_empty (address : Nat) :
    (NameIds.empty : NameIds Nat).keepsAlive address = false := by
  simp [NameIds.keepsAlive, NameIds.empty]

@[simp] theorem keepsAlive_clear (t : NameIds Nat) (address : Nat) :
    t.clear.keepsAlive address = false := by
  rw [NameIds.keepsAlive, Std.HashMap.contains_eq_isSome_getElem?, NameIds.seen_clear]
  rfl

theorem name?_allocate (h : NameHeap) (address : Nat) (text : String) (index : Nat) :
    (h.step (.allocate address text)).2.name? index =
      if index = h.held.size then some ⟨address, text⟩ else h.name? index := by
  simp only [step, name?, Array.getElem?_push]
  split <;> rfl

theorem name?_drop (h : NameHeap) (dropped index : Nat) :
    (h.step (.drop dropped)).2.name? index =
      if index = dropped then none else h.name? index := by
  simp only [step, name?, Array.getElem?_modify]
  by_cases hindex : index = dropped
  · subst hindex
    cases h.held[index]? <;> simp
  · rw [if_neg (Ne.symm hindex), if_neg hindex]

theorem isHeld_of_name? {index : Nat} {n : HeapName} (hn : h.name? index = some n) :
    h.isHeld n.address = true := by
  obtain ⟨held, hheld, rfl⟩ : ∃ held, h.held[index]? = some held ∧ held = some n := by
    simpa [name?, Option.join_eq_some_iff] using hn
  have hmem : some n ∈ h.held := Array.mem_of_getElem? hheld
  rw [isHeld, Array.any_eq_true']
  exact ⟨some n, hmem, by simp⟩

/-- What may be relied on: at one address the caller sees one text, and an address that the table
knows has the id of the text that the caller sees there. -/
structure Sound (h : NameHeap) : Prop where
  oneText : ∀ (i j : Nat) (n m : HeapName), h.name? i = some n → h.name? j = some m →
    n.address = m.address → n.text = m.text
  trusts : ∀ (i : Nat) (n : HeapName), h.name? i = some n → h.ids.Trusts n.address n.text

/-- A name at an address that is not in use disturbs nobody. -/
theorem Sound.allocate (hs : h.Sound) {address : Nat} (hfree : h.inUse address = false)
    (text : String) : (h.step (.allocate address text)).2.Sound := by
  obtain ⟨hheld, hkept⟩ : h.isHeld address = false ∧ h.ids.keepsAlive address = false := by
    simpa [inUse] using hfree
  have hnone : ∀ i n, h.name? i = some n → n.address ≠ address := by
    rintro i n hn rfl
    rw [isHeld_of_name? hn] at hheld
    cases hheld
  refine ⟨fun i j n m hi hj heq => ?_, fun i n hi => ?_⟩
  · rw [name?_allocate] at hi hj
    split at hi <;> split at hj
    · cases hi
      cases hj
      rfl
    · cases hi
      exact absurd heq.symm (hnone j m hj)
    · cases hj
      exact absurd heq (hnone i n hi)
    · exact hs.oneText i j n m hi hj heq
  · rw [name?_allocate] at hi
    split at hi
    · -- the table has never seen the address of the new name
      cases hi
      intro id hid
      have hseen : h.ids.seen[address]? = none := by
        simpa [NameIds.keepsAlive] using hkept
      cases hseen.symm.trans hid
    · exact hs.trusts i n hi

theorem Sound.drop (hs : h.Sound) (dropped : Nat) : (h.step (.drop dropped)).2.Sound := by
  have hold : ∀ i n, (h.step (.drop dropped)).2.name? i = some n → h.name? i = some n := by
    intro i n hi
    rw [name?_drop] at hi
    split at hi
    · cases hi
    · exact hi
  exact ⟨fun i j n m hi hj => hs.oneText i j n m (hold i n hi) (hold j m hj),
    fun i n hi => hs.trusts i n (hold i n hi)⟩

/-- Interning a name of the caller leaves the other names alone. -/
theorem Sound.intern (hs : h.Sound) {index : Nat} {n : HeapName} (hn : h.name? index = some n) :
    Sound ⟨h.held, (h.ids.intern (some (n.address, n.text))).2⟩ where
  oneText := hs.oneText
  trusts i m hm := (hs.trusts index n hn).intern (hs.trusts i m hm) (hs.oneText index i n m hn hm)

theorem Sound.clear (hs : h.Sound) : (h.step .clear).2.Sound where
  oneText := hs.oneText
  trusts _ n _ := NameIds.trusts_clear h.ids n.address n.text

/-! ## The heap against the list -/

/-- The heap amounts to the list. -/
structure AmountsTo (h : NameHeap) (l : NameList) : Prop where
  sound : h.Sound
  count : l.held.length = h.held.size
  texts : ∀ index, l.text? index = (h.name? index).map HeapName.text
  names : l.names = h.ids.names
  unnamed : h.ids.id? "" = some 0

theorem amountsTo_empty : empty.AmountsTo NameList.empty where
  sound := ⟨fun i j n m hi => by simp [empty, name?] at hi, fun i n hi => by simp [empty, name?] at hi⟩
  count := rfl
  texts index := by simp [empty, NameList.empty, NameList.text?, name?]
  names := rfl
  unnamed := by
    rw [NameIds.id?, IdTable.id?_eq_some_iff]
    rfl

/-- The id of a text is its place in the list. -/
theorem place_eq_id? (t : NameIds Nat) (text : String) :
    (if text ∈ t.names then some (t.names.idxOf text) else none) = t.id? text := by
  cases hid : t.id? text with
  | none => exact if_neg ((t.table.id?_eq_none_iff text).1 hid)
  | some id =>
    rw [if_pos (NameIds.mem_names_iff.2 ⟨id, hid⟩)]
    obtain ⟨hlt, hplace⟩ := List.getElem?_eq_some_iff.1 ((t.table.id?_eq_some_iff text id).1 hid)
    rw [← hplace]
    exact congrArg some (t.table.nodup_toList.idxOf_getElem id hlt)

theorem AmountsTo.mem_held (ha : h.AmountsTo l) {index : Nat} {n : HeapName}
    (hn : h.name? index = some n) :
    (l.withText n.text).idxOf n.text = (h.ids.intern (some (n.address, n.text))).1 ∧
      l.withText n.text = (h.ids.intern (some (n.address, n.text))).2.names := by
  have htrusts := ha.sound.trusts index n hn
  have hnames : l.withText n.text = (h.ids.intern (some (n.address, n.text))).2.names := by
    rw [NameIds.names_intern htrusts, NameList.withText, ha.names]
  refine ⟨?_, hnames⟩
  have hplace := place_eq_id? (h.ids.intern (some (n.address, n.text))).2 n.text
  rw [NameIds.id?_intern htrusts, ← hnames] at hplace
  split at hplace
  · exact Option.some.inj hplace
  · cases hplace

/-- One operation is answered as by the list, and the heap amounts to the list again. -/
theorem AmountsTo.step (ha : h.AmountsTo l) {op : Op} (hop : op.Possible h) :
    (h.step op).1 = (l.step op).1 ∧ (h.step op).2.AmountsTo (l.step op).2 := by
  cases op with
  | allocate address text =>
    refine ⟨congrArg Answer.index ha.count.symm, ha.sound.allocate hop text, ?_, ?_, ha.names,
      ha.unnamed⟩
    · simp [NameList.step, ha.count]
    · intro index
      rw [name?_allocate, NameList.text?_allocate, ha.count, ha.texts]
      split <;> rfl
  | drop dropped =>
    refine ⟨rfl, ha.sound.drop dropped, ?_, ?_, ha.names, ha.unnamed⟩
    · simp [NameList.step, ha.count]
    · intro index
      rw [name?_drop, NameList.text?_drop, ha.texts]
      split <;> rfl
  | intern asked =>
    cases hname : asked.bind h.name? with
    | none =>
      have htext : asked.bind l.text? = none := by
        cases asked with
        | none => rfl
        | some index =>
          rw [Option.bind_some] at hname ⊢
          rw [ha.texts, hname]
          rfl
      rw [step_intern_none hname]
      simp only [NameList.step, htext]
      exact ⟨trivial, ha⟩
    | some n =>
      obtain ⟨index, rfl, hn⟩ := Option.bind_eq_some_iff.1 hname
      have htext : (some index).bind l.text? = some n.text := by
        rw [Option.bind_some, ha.texts, hn]
        rfl
      obtain ⟨hid, hnames⟩ := ha.mem_held hn
      rw [step_intern_some hname]
      simp only [NameList.step, htext]
      refine ⟨congrArg Answer.id hid.symm, ha.sound.intern hn, ha.count, ha.texts, hnames, ?_⟩
      exact IdTable.id?_of_grown (NameIds.grown_intern (ha.sound.trusts index n hn)) ha.unnamed
  | find text =>
    refine ⟨congrArg Answer.found ?_, ha⟩
    rw [ha.names, place_eq_id?]
  | names => exact ⟨congrArg Answer.names ha.names.symm, ha⟩
  | clear =>
    exact ⟨rfl, ha.sound.clear, ha.count, ha.texts, rfl, h.ids.id?_clear⟩

/-- A run is answered as by the list. -/
theorem AmountsTo.run (ha : h.AmountsTo l) {ops : List Op} (hops : h.CanRun ops) :
    (h.run ops).1 = (l.run ops).1 ∧ (h.run ops).2.AmountsTo (l.run ops).2 := by
  induction ops generalizing h l with
  | nil => exact ⟨rfl, ha⟩
  | cons op ops ih =>
    obtain ⟨hop, hrest⟩ := hops
    obtain ⟨hanswer, hnext⟩ := ha.step hop
    obtain ⟨hanswers, hlast⟩ := ih hnext hrest
    rw [NameHeap.run, NameList.run, mapThrough_cons, mapThrough_cons]
    exact ⟨congrArg₂ List.cons hanswer hanswers, hlast⟩

/-- Whatever a caller does with its names, every answer is that of a list of distinct texts which
starts with the empty one, and the number of names is the length of the list.  So runs that differ
only in the addresses of names have the same answers. -/
theorem run_eq_run_list {ops : List Op} (hops : empty.CanRun ops) :
    (empty.run ops).1 = (NameList.empty.run ops).1 ∧
      (empty.run ops).2.ids.size = (NameList.empty.run ops).2.names.length ∧
      (NameList.empty.run ops).2.names.Nodup ∧
      ∀ others, empty.CanRun others → others.map Op.content = ops.map Op.content →
        (empty.run others).1 = (empty.run ops).1 := by
  obtain ⟨hanswers, hlast⟩ := amountsTo_empty.run hops
  refine ⟨hanswers, ?_, ?_, fun others hothers hsame => ?_⟩
  · rw [hlast.names]
    exact Array.length_toList.symm
  · rw [hlast.names]
    exact (empty.run ops).2.ids.table.nodup_toList
  · rw [(amountsTo_empty.run hothers).1, hanswers, ← run_list_map_content _ others, hsame,
      run_list_map_content]

/-- A name is handed over and dropped.  Only when the table has forgotten it does another name get
its address, and a third name has the text of that one. -/
def reuse : List Op :=
  [.allocate 0 "in", .intern (some 0), .drop 0, .intern (some 0), .allocate 1 "out",
   .intern (some 1), .clear, .allocate 0 "out", .intern (some 2), .allocate 2 "out",
   .intern (some 3), .find "in", .names]

/-- The address that is used again has the id of its new text. -/
theorem run_eq_run_list_reuse :
    empty.CanRun reuse ∧
      (empty.run reuse).1 =
        [.index 0, .id 1, .nothing, .id 0, .index 1, .id 2, .nothing, .index 2, .id 1, .index 3,
         .id 1, .found none, .names ["", "out"]] ∧
      (empty.run reuse).1 = (NameList.empty.run reuse).1 ∧
      (empty.run reuse).2.ids.size = (NameList.empty.run reuse).2.names.length ∧
      (NameList.empty.run reuse).2.names.Nodup ∧
      ∀ others, empty.CanRun others → others.map Op.content = reuse.map Op.content →
        (empty.run others).1 = (empty.run reuse).1 := by
  have hops : empty.CanRun reuse := by
    simp [CanRun, reuse, Op.Possible, inUse, isHeld, keepsAlive_intern, name?, empty, Array.modify,
      Array.modifyM]
  have hlisted : (NameList.empty.run reuse).1 =
      [.index 0, .id 1, .nothing, .id 0, .index 1, .id 2, .nothing, .index 2, .id 1, .index 3,
       .id 1, .found none, .names ["", "out"]] := by decide +kernel
  have hruns := run_eq_run_list hops
  exact ⟨hops, hruns.1.trans hlisted, hruns⟩

/-! ## Stream names in place of addresses -/

/-- The caller's name with a number as a stream name: its text, and the number as its allocation, since
no number is given twice. -/
def streamName? (h : NameHeap) (index : Nat) : Option StreamName :=
  (h.name? index).map fun n => ⟨n.text, index⟩

/-- One operation with the stream ids of a session in place of the heap's own ids. -/
def streamStep (state : NameHeap × StreamIds) (op : Op) : Answer × NameHeap × StreamIds :=
  let (h, streams) := state
  let (answer, next) := h.step op
  match op with
  | .intern asked =>
    let (id, streams) := streams.internName (asked.bind h.streamName?)
    (.id id, next, streams)
  | .find text => (.found (streams.id? text), next, streams)
  | .names => (.names streams.names, next, streams)
  | .clear => (.nothing, next, streams.clear)
  | _ => (answer, next, streams)

/-- The stream ids know the same names as the ids of the heap. -/
structure SharesNames (h : NameHeap) (streams : StreamIds) : Prop where
  sound : h.Sound
  faithful : streams.Faithful
  names : h.ids.names = streams.names

variable {streams : StreamIds}

theorem sharesNames_empty : empty.SharesNames NameIds.empty where
  sound := amountsTo_empty.sound
  faithful := StreamIds.faithful_empty
  names := rfl

/-- One operation is answered alike, and the names stay the same. -/
theorem SharesNames.step (hs : h.SharesNames streams) {op : Op} (hop : op.Possible h) :
    (h.step op).1 = (streamStep (h, streams) op).1 ∧
      (h.step op).2.SharesNames (streamStep (h, streams) op).2.2 := by
  cases op with
  | allocate address text =>
    exact ⟨rfl, hs.sound.allocate hop text, hs.faithful, hs.names⟩
  | drop index => exact ⟨rfl, hs.sound.drop index, hs.faithful, hs.names⟩
  | intern asked =>
    cases hname : asked.bind h.name? with
    | none =>
      have hstream : asked.bind h.streamName? = none := by
        cases asked with
        | none => rfl
        | some index => exact Option.map_eq_none_iff.2 hname
      rw [step_intern_none hname]
      simp only [streamStep, hstream]
      exact ⟨rfl, hs⟩
    | some n =>
      obtain ⟨index, rfl, hn⟩ := Option.bind_eq_some_iff.1 hname
      have hstream : (some index).bind h.streamName? = some ⟨n.text, index⟩ :=
        Option.map_eq_some_iff.2 ⟨n, hn, rfl⟩
      obtain ⟨hid, hnames⟩ := NameIds.intern_eq_of_names hs.names (hs.sound.trusts index n hn)
        (hs.faithful.seen ⟨n.text, index⟩)
      rw [step_intern_some hname]
      simp only [streamStep, hstream]
      exact ⟨congrArg Answer.id hid, hs.sound.intern hn,
        StreamIds.faithful_internName hs.faithful (some ⟨n.text, index⟩), hnames⟩
  | find text => exact ⟨congrArg Answer.found (NameIds.id?_eq_of_names hs.names text), hs⟩
  | names => exact ⟨congrArg Answer.names hs.names, hs⟩
  | clear => exact ⟨rfl, hs.sound.clear, StreamIds.faithful_clear streams, rfl⟩

theorem streamStep_heap (state : NameHeap × StreamIds) (op : Op) :
    (streamStep state op).2.1 = (state.1.step op).2 := by
  cases op <;> rfl

theorem SharesNames.run (hs : h.SharesNames streams) {ops : List Op} (hops : h.CanRun ops) :
    (h.run ops).1 = (mapThrough streamStep (h, streams) ops).1 := by
  induction ops generalizing h streams with
  | nil => rfl
  | cons op ops ih =>
    obtain ⟨hop, hrest⟩ := hops
    obtain ⟨hanswer, hnext⟩ := hs.step hop
    have hstate : (streamStep (h, streams) op).2 =
        ((h.step op).2, (streamStep (h, streams) op).2.2) :=
      Prod.ext (streamStep_heap (h, streams) op) rfl
    rw [NameHeap.run, mapThrough_cons, mapThrough_cons, hstate]
    exact congrArg₂ List.cons hanswer (ih hnext hrest)

/-- A table that knows names by their addresses, and lets none of them go, answers like the stream ids
of a session, which tell names apart by text and number. -/
theorem run_eq_run_streams {ops : List Op} (hops : empty.CanRun ops) :
    (empty.run ops).1 = (mapThrough streamStep (empty, NameIds.empty) ops).1 :=
  sharesNames_empty.run hops

end NameHeap

end FlowTrace
