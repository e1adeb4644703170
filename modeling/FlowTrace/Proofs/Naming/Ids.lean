import Mathlib.Data.List.Nodup
import FlowTrace.Trace.Calls
set_option autoImplicit false

/-!
# Naming: ids stay

Tables of ids only grow at their end, so a key keeps its id for good.  A record that is made while
the tables grow therefore shows the ids that any later tables give, and a list of records made one
after the other is a plain map under the tables that are there in the end (`Makes.mapThrough`).
Allocations are a detour on the way to texts: as long as every allocation seen carries the id of its
text (`Faithful`), ids depend on texts alone.
-/

namespace FlowTrace

/-! ## Tables of keys -/

namespace IdTable

variable {α : Type} [DecidableEq α] [Hashable α]

theorem id?_injective {t : IdTable α} {a b : α} {i : Nat} (ha : t.id? a = some i)
    (hb : t.id? b = some i) : a = b := by
  rw [id?_eq_some_iff] at ha hb
  exact Option.some.inj (ha.symm.trans hb)

/-- No key is listed twice. -/
theorem nodup_toList (t : IdTable α) : t.toList.Nodup := by
  rw [List.nodup_iff_getElem?_ne_getElem?]
  intro i j hij hj heq
  have hjth : t.toList[j]? = some t.toList[j] := List.getElem?_eq_getElem hj
  have hi : t.id? t.toList[j] = some i := (t.id?_eq_some_iff _ i).2 (heq.trans hjth)
  have hj' : t.id? t.toList[j] = some j := (t.id?_eq_some_iff _ j).2 hjth
  have : i = j := Option.some.inj (hi.symm.trans hj')
  omega

/-- Interning lists a new key at the end, and an old key not again. -/
theorem toList_intern (t : IdTable α) (a : α) :
    (t.intern a).2.toList = if a ∈ t.toList then t.toList else t.toList ++ [a] := by
  split
  · rename_i hmem
    obtain ⟨i, hi⟩ := List.mem_iff_getElem?.1 hmem
    rw [intern_of_id? ((t.id?_eq_some_iff a i).2 hi)]
  · rename_i hmem
    exact (toList_intern_of_not_mem hmem).2

/-- The id handed out is the one the key has from then on. -/
theorem id?_intern (t : IdTable α) (a : α) :
    (t.intern a).2.id? a = some (t.intern a).1 := by
  by_cases hmem : a ∈ t.toList
  · obtain ⟨i, hi⟩ := List.mem_iff_getElem?.1 hmem
    have hid : t.id? a = some i := (t.id?_eq_some_iff a i).2 hi
    rw [intern_of_id? hid, hid]
  · obtain ⟨hid, hlist⟩ := toList_intern_of_not_mem hmem
    rw [id?_eq_some_iff, hlist, hid]
    simp

theorem grown_intern (t : IdTable α) (a : α) : t.toList <+: (t.intern a).2.toList := by
  rw [toList_intern]
  split
  · exact List.prefix_refl _
  · exact List.prefix_append _ _

/-- A key keeps its id when the table grows. -/
theorem id?_of_grown {t u : IdTable α} (h : t.toList <+: u.toList) {a : α} {i : Nat}
    (hid : t.id? a = some i) : u.id? a = some i := by
  rw [id?_eq_some_iff] at hid ⊢
  have hi : i < t.toList.length := (List.getElem?_eq_some_iff.1 hid).1
  rw [← hid, List.prefix_iff_eq_take.1 h, List.getElem?_take_of_lt hi]

/-- While there are no more keys than ids, the id shown for a listed key is the place of the key. -/
theorem exists_place_of_mem {t : IdTable α} (hfit : t.toList.length ≤ 2147483648) {a : α}
    (ha : a ∈ t.toList) :
    ∃ place : Nat, (Int32.ofNat ((t.id? a).getD 0)).toInt = place ∧ t.toList[place]? = some a := by
  obtain ⟨place, hplace⟩ := List.mem_iff_getElem?.1 ha
  have hlt : place < 2147483648 :=
    Nat.lt_of_lt_of_le (List.getElem?_eq_some_iff.1 hplace).1 hfit
  refine ⟨place, ?_, hplace⟩
  rw [(t.id?_eq_some_iff a place).2 hplace, Option.getD_some, Int32.toInt_ofNat_of_lt hlt]

end IdTable

/-! ## Names with allocations -/

namespace NameIds

variable {κ : Type} [DecidableEq κ] [Hashable κ] {t : NameIds κ} {allocation : κ} {text : String}

/-- Where the table knows the allocation, it has the id of this text for it. -/
def Trusts (t : NameIds κ) (allocation : κ) (text : String) : Prop :=
  ∀ id, t.seen[allocation]? = some id → t.id? text = some id

theorem mem_names_iff : text ∈ t.names ↔ ∃ id, t.id? text = some id := by
  rw [names, List.mem_iff_getElem?]
  exact exists_congr fun id => (t.table.id?_eq_some_iff text id).symm

theorem intern_of_seen {id : Nat} (h : t.seen[allocation]? = some id) :
    t.intern (some (allocation, text)) = (id, t) := by
  simp [intern, h]

theorem intern_of_not_seen (h : t.seen[allocation]? = none) :
    t.intern (some (allocation, text)) =
      ((t.table.intern text).1,
        ⟨(t.table.intern text).2, t.seen.insert allocation (t.table.intern text).1⟩) := by
  simp [intern, h]

/-- Interning lists a new text at the end, and an old text not again. -/
theorem names_intern (h : t.Trusts allocation text) :
    (t.intern (some (allocation, text))).2.names =
      if text ∈ t.names then t.names else t.names ++ [text] := by
  cases hseen : t.seen[allocation]? with
  | some id => rw [intern_of_seen hseen, if_pos (mem_names_iff.2 ⟨id, h id hseen⟩)]
  | none =>
    rw [intern_of_not_seen hseen]
    exact t.table.toList_intern text

/-- The id handed out is the one the text has from then on. -/
theorem id?_intern (h : t.Trusts allocation text) :
    (t.intern (some (allocation, text))).2.id? text =
      some (t.intern (some (allocation, text))).1 := by
  cases hseen : t.seen[allocation]? with
  | some id =>
    rw [intern_of_seen hseen]
    exact h id hseen
  | none =>
    rw [intern_of_not_seen hseen]
    exact t.table.id?_intern text

/-- Ids are told by the names, whatever the allocations are told apart by. -/
theorem id?_eq_of_names {κ' : Type} [DecidableEq κ'] [Hashable κ'] {u : NameIds κ'}
    (h : t.names = u.names) (text : String) : t.id? text = u.id? text := by
  refine Option.ext fun id => ?_
  rw [id?, id?, IdTable.id?_eq_some_iff, IdTable.id?_eq_some_iff]
  exact iff_of_eq (congrArg (fun names : List String => names[id]? = some text) h)

/-- Two tables of the same names hand out the same ids, and have the same names afterwards. -/
theorem intern_eq_of_names {κ' : Type} [DecidableEq κ'] [Hashable κ'] {u : NameIds κ'}
    {allocation' : κ'} (h : t.names = u.names) (ht : t.Trusts allocation text)
    (hu : u.Trusts allocation' text) :
    (t.intern (some (allocation, text))).1 = (u.intern (some (allocation', text))).1 ∧
      (t.intern (some (allocation, text))).2.names =
        (u.intern (some (allocation', text))).2.names := by
  have hnames : (t.intern (some (allocation, text))).2.names =
      (u.intern (some (allocation', text))).2.names := by
    rw [names_intern ht, names_intern hu, h]
  have hids := id?_eq_of_names hnames text
  rw [id?_intern ht, id?_intern hu] at hids
  exact ⟨Option.some.inj hids, hnames⟩

theorem grown_intern (h : t.Trusts allocation text) :
    t.names <+: (t.intern (some (allocation, text))).2.names := by
  rw [names_intern h]
  split
  · exact List.prefix_refl _
  · exact List.prefix_append _ _

/-- What is trusted stays so when another name is interned, if an allocation is only ever asked for
with one text. -/
theorem Trusts.intern (h : t.Trusts allocation text) {other : κ} {otherText : String}
    (hother : t.Trusts other otherText) (hsame : allocation = other → text = otherText) :
    (t.intern (some (allocation, text))).2.Trusts other otherText := by
  intro id hid
  cases hseen : t.seen[allocation]? with
  | some hit =>
    rw [intern_of_seen hseen] at hid ⊢
    exact hother id hid
  | none =>
    have hold : t.seen[other]? = some id →
        (t.intern (some (allocation, text))).2.id? otherText = some id :=
      fun hseen => IdTable.id?_of_grown (grown_intern h) (hother id hseen)
    -- the one allocation added carries the id just handed out for its text
    rw [intern_of_not_seen hseen, Std.HashMap.getElem?_insert] at hid
    split at hid
    · rename_i heq
      have hnew := id?_intern h
      rw [intern_of_not_seen hseen] at hnew ⊢
      rw [← hsame (eq_of_beq heq), ← hid]
      exact hnew
    · exact hold hid

theorem seen_clear (t : NameIds κ) (allocation : κ) : t.clear.seen[allocation]? = none :=
  getElem?_emptied t.seen allocation

/-- The empty name keeps its id. -/
theorem id?_clear (t : NameIds κ) : t.clear.id? "" = some 0 := by
  rw [id?, IdTable.id?_eq_some_iff]
  rfl

/-- No allocation is left that could have the id of another text. -/
theorem trusts_clear (t : NameIds κ) (allocation : κ) (text : String) :
    t.clear.Trusts allocation text := by
  intro id hid
  rw [seen_clear] at hid
  cases hid

end NameIds

/-! ## Names of streams -/

/-- The text that a stream is numbered under; a missing name counts as the empty one. -/
def StreamName.textOf (name : Option StreamName) : String := (name.map text).getD ""

@[simp] theorem StreamName.textOf_none : textOf none = "" := rfl

@[simp] theorem StreamName.textOf_some (name : StreamName) : textOf (some name) = name.text := rfl

namespace StreamIds

/-- Every allocation seen carries the id of its text, and the empty text has id 0. -/
structure Faithful (t : StreamIds) : Prop where
  seen : ∀ (name : StreamName) (id : Nat), t.seen[name]? = some id → t.id? name.text = some id
  unnamed : t.id? "" = some 0

theorem faithful_empty : Faithful NameIds.empty where
  seen name id h := by simp [NameIds.empty] at h
  unnamed := by
    rw [NameIds.id?, IdTable.id?_eq_some_iff]
    rfl

theorem faithful_clear (t : StreamIds) : Faithful t.clear where
  seen name := t.trusts_clear name name.text
  unnamed := t.id?_clear

theorem mem_names_iff {t : StreamIds} {text : String} :
    text ∈ t.names ↔ ∃ id, t.id? text = some id :=
  NameIds.mem_names_iff

/-- Interning lists a new text at the end, and an old text not again. -/
theorem names_internName {t : StreamIds} (ht : t.Faithful) (name : Option StreamName) :
    (t.internName name).2.names =
      if StreamName.textOf name ∈ t.names then t.names
      else t.names ++ [StreamName.textOf name] := by
  cases name with
  | none =>
    rw [StreamName.textOf_none, if_pos (mem_names_iff.2 ⟨0, ht.unnamed⟩)]
    rfl
  | some name => exact NameIds.names_intern (ht.seen name)

theorem mem_names_internName {t : StreamIds} (ht : t.Faithful) (name : Option StreamName)
    {text : String} :
    text ∈ (t.internName name).2.names ↔ text ∈ t.names ∨ text = StreamName.textOf name := by
  rw [names_internName ht]
  split
  · rename_i hold
    constructor
    · exact .inl
    · rintro (hmem | rfl)
      · exact hmem
      · exact hold
  · rw [List.mem_append, List.mem_singleton]

/-- The id handed out is the one the text has from then on. -/
theorem id?_internName {t : StreamIds} (ht : t.Faithful) (name : Option StreamName) :
    (t.internName name).2.id? (StreamName.textOf name) = some (t.internName name).1 := by
  cases name with
  | none => exact ht.unnamed
  | some name => exact NameIds.id?_intern (ht.seen name)

theorem grown_internName {t : StreamIds} (ht : t.Faithful) (name : Option StreamName) :
    t.names <+: (t.internName name).2.names := by
  cases name with
  | none => exact List.prefix_refl _
  | some name => exact NameIds.grown_intern (ht.seen name)

theorem faithful_internName {t : StreamIds} (ht : t.Faithful) (name : Option StreamName) :
    (t.internName name).2.Faithful where
  unnamed := IdTable.id?_of_grown (grown_internName ht name) ht.unnamed
  seen other id h := by
    cases name with
    | none => exact ht.seen other id h
    | some name =>
      have htrusts := NameIds.Trusts.intern (ht.seen name) (ht.seen other)
        fun heq => congrArg StreamName.text heq
      exact htrusts id h

end StreamIds

/-! ## The tables of a session -/

namespace IdTables

/-- Stream ids depend on texts alone, and the null handle has id 0. -/
structure Faithful (t : IdTables) : Prop where
  streams : t.streams.Faithful
  null : t.payloads.id? 0 = some 0

/-- The tables `t` were grown to the tables `u`. -/
structure Within (t u : IdTables) : Prop where
  names : t.streams.names <+: u.streams.names
  payloads : t.payloads.toList <+: u.payloads.toList

/-- The id that a stream has, in the form that records show it. -/
def streamId (t : IdTables) (name : Option StreamName) : Int32 :=
  Int32.ofNat ((t.streams.id? (StreamName.textOf name)).getD 0)

/-- The id that a payload has, in the form that records show it; a missing handle counts as the
null handle. -/
def payloadId (t : IdTables) (handle : Option UInt64) : Int32 :=
  Int32.ofNat ((t.payloads.id? (handle.getD 0)).getD 0)

theorem faithful_empty : Faithful empty where
  streams := StreamIds.faithful_empty
  null := by
    rw [IdTable.id?_eq_some_iff]
    rfl

theorem faithful_clear (t : IdTables) : t.clear.Faithful where
  streams := StreamIds.faithful_clear t.streams
  null := by
    rw [IdTable.id?_eq_some_iff]
    rfl

theorem Within.refl (t : IdTables) : t.Within t := ⟨List.prefix_refl _, List.prefix_refl _⟩

theorem Within.trans {t u v : IdTables} (htu : t.Within u) (huv : u.Within v) : t.Within v :=
  ⟨htu.names.trans huv.names, htu.payloads.trans huv.payloads⟩

/-- A stream that has an id keeps it. -/
theorem Within.streams_id? {t u : IdTables} (h : t.Within u) {text : String} {id : Nat}
    (hid : t.streams.id? text = some id) : u.streams.id? text = some id :=
  IdTable.id?_of_grown h.names hid

theorem Within.payloads_id? {t u : IdTables} (h : t.Within u) {handle : UInt64} {id : Nat}
    (hid : t.payloads.id? handle = some id) : u.payloads.id? handle = some id :=
  IdTable.id?_of_grown h.payloads hid

/-! ## Results made while ids are given -/

variable {α β : Type}

/-- From the tables `t` comes a result and grown tables, and the result shows the ids that any
tables show that the grown ones are grown to. -/
structure Makes (t : IdTables) (out : β × IdTables) (value : IdTables → β) : Prop where
  faithful : out.2.Faithful
  within : t.Within out.2
  value_eq : ∀ u : IdTables, out.2.Within u → out.1 = value u

theorem Makes.pure {t : IdTables} (ht : t.Faithful) (b : β) : t.Makes (b, t) fun _ => b :=
  ⟨ht, Within.refl t, fun _ _ => rfl⟩

/-- The number handed out for a stream is the one that its text has later. -/
theorem makes_internName {t : IdTables} (ht : t.Faithful) (name : Option StreamName) :
    t.Makes ((t.streams.internName name).1, { t with streams := (t.streams.internName name).2 })
      fun u => (u.streams.id? (StreamName.textOf name)).getD 0 where
  faithful := ⟨StreamIds.faithful_internName ht.streams name, ht.null⟩
  within := ⟨StreamIds.grown_internName ht.streams name, List.prefix_refl _⟩
  value_eq u hu := by
    rw [hu.streams_id? (StreamIds.id?_internName ht.streams name), Option.getD_some]

theorem makes_stream {t : IdTables} (ht : t.Faithful) (name : Option StreamName) :
    t.Makes (t.stream name) fun u => u.streamId name := by
  obtain ⟨hfaithful, hwithin, hvalue⟩ := makes_internName ht name
  exact ⟨hfaithful, hwithin, fun u hu => congrArg Int32.ofNat (hvalue u hu)⟩

theorem makes_payload {t : IdTables} (ht : t.Faithful) (handle : Option UInt64) :
    t.Makes (t.payload handle) fun u => u.payloadId handle := by
  cases handle with
  | none =>
    refine ⟨ht, Within.refl t, fun u hu => ?_⟩
    rw [payloadId, Option.getD_none, hu.payloads_id? ht.null]
    rfl
  | some address =>
    have hgrown := t.payloads.grown_intern address
    refine ⟨⟨ht.streams, IdTable.id?_of_grown hgrown ht.null⟩, ⟨List.prefix_refl _, hgrown⟩, ?_⟩
    intro u hu
    rw [payloadId, Option.getD_some, hu.payloads_id? (t.payloads.id?_intern address)]
    rfl

/-- Results made one after the other are a plain map under the tables that are there in the end.
Each of them may rely on what the tables `base` held before the first. -/
theorem makes_mapThrough {f : IdTables → α → β × IdTables} {value : IdTables → α → β}
    {base : IdTables} {as : List α}
    (hf : ∀ (t : IdTables) (a : α), t.Faithful → base.Within t → a ∈ as →
      t.Makes (f t a) fun u => value u a)
    {t : IdTables} (ht : t.Faithful) (hbase : base.Within t) :
    t.Makes (mapThrough f t as) fun u => as.map (value u) := by
  induction as generalizing t with
  | nil => exact Makes.pure ht []
  | cons a as ih =>
    obtain ⟨hfaithful, hwithin, hvalue⟩ := hf t a ht hbase List.mem_cons_self
    obtain ⟨hfaithful', hwithin', hvalue'⟩ :=
      ih (fun t b ht hbase hb => hf t b ht hbase (List.mem_cons_of_mem a hb)) hfaithful
        (hbase.trans hwithin)
    rw [mapThrough_cons]
    refine ⟨hfaithful', hwithin.trans hwithin', fun u hu => ?_⟩
    rw [List.map_cons, hvalue u (hwithin'.trans hu), hvalue' u hu]

end IdTables

end FlowTrace
