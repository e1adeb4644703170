import Mathlib.Data.List.Nodup
import FlowTrace.Json.Record
import FlowTrace.Trace.Json
import FlowTrace.Proofs.Json.Layouts
set_option autoImplicit false

/-!
# Json: records that are read back

A record whose fields stand in declared order, each at most once, is read with the values that the
fields have; a field that is left out has the value for absent fields.  For each shape of field there
is one lemma that says what is read of it.
-/

namespace FlowTrace.Json

/-! ## Finding fields -/

theorem exists_knownFields? {names : List String} {fields : List (Option String × Json)}
    (h : ∀ f ∈ fields, f.1 ∈ names.map some) :
    ∃ record : Record, knownFields? names fields = some record ∧
      fields = record.map fun f => Json.field f.1 f.2 := by
  induction fields with
  | nil => exact ⟨[], rfl, rfl⟩
  | cons f fields ih =>
    obtain ⟨record, hrecord, hfields⟩ := ih fun g hg => h g (List.mem_cons_of_mem f hg)
    obtain ⟨name, hname, hf⟩ := List.mem_map.1 (h f List.mem_cons_self)
    obtain ⟨found, value⟩ := f
    cases hf
    refine ⟨(name, value) :: record, ?_, ?_⟩
    · rw [knownFields?, hrecord, Option.map_some, if_pos hname]
    · rw [hfields]
      rfl

theorem lookup_map_field (record : Record) (name : String) :
    (record.map fun f => Json.field f.1 f.2).lookup (some name) = record.lookup name := by
  induction record with
  | nil => rfl
  | cons f record ih =>
    rw [List.map_cons, Json.field, List.lookup_cons, List.lookup_cons, ih]
    rfl

/-- Where no name is repeated, it does not matter from which end a field is looked for. -/
theorem lookup_reverse {α β : Type} [BEq α] [LawfulBEq α] {fields : List (α × β)}
    (h : (fields.map Prod.fst).Nodup) (name : α) :
    fields.reverse.lookup name = fields.lookup name := by
  induction fields with
  | nil => rfl
  | cons f fields ih =>
    obtain ⟨hfirst, hrest⟩ := List.nodup_cons.1 h
    obtain ⟨found, value⟩ := f
    rw [List.reverse_cons, List.lookup_append, ih hrest, List.lookup_cons, List.lookup_cons]
    by_cases hname : name = found
    · subst hname
      have hnone : fields.lookup name = none := by
        rw [List.lookup_eq_none_iff]
        intro g hg
        have hseen : g.1 ∈ fields.map Prod.fst := List.mem_map_of_mem hg
        exact bne_iff_ne.2 fun heq => hfirst (heq ▸ hseen)
      rw [hnone, beq_self_eq_true]
      rfl
    · rw [beq_false_of_ne hname]
      exact Option.or_none

/-- Fields in declared order, each at most once, are found by their names. -/
theorem exists_record? (repeated : Repeated) {names : List String} (hnames : names.Nodup)
    {fields : List (Option String × Json)}
    (h : (fields.map Prod.fst).Sublist (names.map some)) :
    ∃ record : Record, record? repeated names (.object fields) = some record ∧
      ∀ name, record.lookup name = fields.lookup (some name) := by
  obtain ⟨record, hrecord, hfields⟩ :=
    exists_knownFields? fun f hf => h.subset (List.mem_map_of_mem hf)
  have hdistinct : (record.map Prod.fst).Nodup := by
    have hsome : ((record.map Prod.fst).map some).Nodup := by
      have hsame : (record.map Prod.fst).map some = fields.map Prod.fst := by
        rw [hfields, List.map_map, List.map_map]
        rfl
      rw [hsame]
      exact ((List.nodup_map_iff (fun _ _ heq => Option.some.inj heq)).2 hnames).sublist h
    exact hsome.of_map _
  cases repeated with
  | refused =>
    refine ⟨record, ?_, fun name => ?_⟩
    · simp only [record?, hrecord]
      exact if_pos hdistinct
    · rw [hfields, lookup_map_field]
  | lastCounts =>
    refine ⟨record.reverse, ?_, fun name => ?_⟩
    · simp only [record?, hrecord]
    · rw [lookup_reverse hdistinct, hfields, lookup_map_field]

@[simp] theorem lookup_field (name other : String) (value : Json)
    (rest : List (Option String × Json)) :
    (Json.field name value :: rest).lookup (some other) =
      if other = name then some value else rest.lookup (some other) := by
  by_cases h : other = name
  · simp [Json.field, h]
  · have hdiffer : (some other == some name) = false := by simpa using h
    rw [Json.field, List.lookup_cons, hdiffer, if_neg h]

@[simp] theorem lookup_fieldIf {α : Type} (name other : String) (write : α → Json)
    (value : Option α) :
    (fieldIf name write value).lookup (some other) =
      if other = name then value.map write else none := by
  cases value <;> simp [fieldIf]

theorem forall_mem_fieldIf {α : Type} {name : String} {write : α → Json} {value : Option α}
    {p : Option String × Json → Prop} (h : ∀ a, p (field name (write a))) :
    ∀ f ∈ fieldIf name write value, p f := by
  intro f hf
  cases value with
  | none => cases hf
  | some a =>
    rw [List.mem_singleton.1 hf]
    exact h a

theorem sublist_fieldIf {α : Type} (name : String) (write : α → Json) (value : Option α) :
    ((fieldIf name write value).map Prod.fst).Sublist [some name] := by
  cases value <;> simp [fieldIf, Json.field]

/-! ## Reading fields -/

namespace Record

variable {α : Type} {record : Record} {name : String}

theorem required?_eq {read? : Json → Option α} {value : Json}
    (h : record.lookup name = some value) : record.required? name read? = read? value := by
  rw [required?, h]
  rfl

/-- A field that is left out when it has no value. -/
theorem optional?_eq {read? : Json → Option α} {write : α → Json} {value : Option α}
    (h : record.lookup name = value.map write)
    (hread : ∀ a, orNull? read? (write a) = some (some a)) :
    record.optional? name none (orNull? read?) = some value := by
  rw [optional?, h]
  cases value with
  | none => rfl
  | some a => exact hread a

end Record

/-! ## Plain values -/

@[simp] theorem text?_text (value : String) : text? (.text value) = some value := rfl

@[simp] theorem int64?_ofInt64 (w : Int64) : int64? (ofInt64 w) = some w := by
  have hfits := Word.fits_toInt w
  simp [int64?, ofInt64, int, intWithin?, hfits.1, hfits.2]

@[simp] theorem int32?_ofInt32 (w : Int32) : int32? (ofInt32 w) = some w := by
  have hleast := w.le_toInt
  have hgreatest := w.toInt_lt
  have hfits : (-2147483648 : Int) ≤ w.toInt ∧ w.toInt ≤ 2147483647 := by omega
  simp [int32?, ofInt32, int, intWithin?, hfits]

theorem uint64?_int (n : UInt64) : uint64? (.int n.toNat) = some n := by
  have hfits : (n.toNat : Int) ≤ Word.greatestUnsigned := by
    have := n.toNat_lt
    simp only [Word.greatestUnsigned]
    omega
  simp [uint64?, int, intWithin?, hfits]

theorem orNull?_ofInt64 (w : Int64) : orNull? int64? (ofInt64 w) = some (some w) :=
  congrArg (Option.map some) (int64?_ofInt64 w)

theorem orNull?_ofInt32 (w : Int32) : orNull? int32? (ofInt32 w) = some (some w) :=
  congrArg (Option.map some) (int32?_ofInt32 w)

theorem orNull?_uint64 (n : UInt64) : orNull? uint64? (.int n.toNat) = some (some n) :=
  congrArg (Option.map some) (uint64?_int n)

theorem list?_map {α : Type} {read? : Json → Option α} {write : α → Json} {values : List α}
    (h : ∀ a ∈ values, read? (write a) = some a) :
    list? read? (.array (values.map write)) = some values := by
  rw [list?]
  induction values with
  | nil => rfl
  | cons a values ih =>
    simp only [List.forall_mem_cons] at h
    simp [h.1, ih h.2]

theorem plain_ofInt64 (w : Int64) : Plain (ofInt64 w) := by
  have hfits := Word.fits_iff.1 (Word.fits_toInt w)
  refine .integer (Word.fits_toInt w).1 ?_
  simp only [Word.greatestUnsigned]
  omega

theorem plain_ofInt32 (w : Int32) : Plain (ofInt32 w) := by
  have hleast := w.le_toInt
  have hgreatest := w.toInt_lt
  refine .integer ?_ ?_
  · simp only [Word.least]
    omega
  · simp only [Word.greatestUnsigned]
    omega

theorem plain_uint64 (n : UInt64) : Plain (.int n.toNat) := by
  have := n.toNat_lt
  refine .integer ?_ ?_
  · simp only [Word.least]
    omega
  · simp only [Word.greatestUnsigned]
    omega

theorem plain_array_map {α : Type} {write : α → Json} (values : List α)
    (h : ∀ a ∈ values, Plain (write a)) : Plain (.array (values.map write)) := by
  refine .array fun item hitem => ?_
  obtain ⟨a, ha, rfl⟩ := List.mem_map.1 hitem
  exact h a ha

/-- The field has a name and a plain value. -/
def PlainField (f : Option String × Json) : Prop := f.1.isSome = true ∧ Plain f.2

theorem plainField_field {name : String} {value : Json} (h : Plain value) :
    PlainField (field name value) :=
  ⟨rfl, h⟩

theorem plainField_of_mem_fieldIf {α : Type} {name : String} {write : α → Json} {value : Option α}
    (h : ∀ a, Plain (write a)) : ∀ f ∈ fieldIf name write value, PlainField f :=
  forall_mem_fieldIf fun a => plainField_field (h a)

theorem plain_object {fields : List (Option String × Json)} (h : ∀ f ∈ fields, PlainField f) :
    Plain (.object fields) :=
  .object (fun f hf => (h f hf).1) fun f hf => (h f hf).2

end FlowTrace.Json
