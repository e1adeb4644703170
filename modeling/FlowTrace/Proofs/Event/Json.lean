import FlowTrace.Proofs.Dump.Times
import FlowTrace.Proofs.Trace.Json
set_option autoImplicit false

/-!
# Event: events that are read back

What is written of an event is a plain value without nesting.  Reading it gives the event again, as
far as its time has no fraction of a microsecond, since the time is written as a count of them.
-/

namespace FlowTrace

open Json

theorem Timestamp.ofJson?_toJson (t : Timestamp) : ofJson? t.toJson = some t :=
  congrArg (Option.map Timestamp.mk) (int64?_ofInt64 t.value)

theorem Timestamp.plain_toJson (t : Timestamp) : Plain t.toJson := plain_ofInt64 t.value

namespace Event

theorem timeOfJson?_int {t : Instant} (h : t.IsWhole) :
    timeOfJson? (.int t.microsInt) = some t := by
  have hfits := Word.fits_iff.1 t.fits_microsInt
  have hbounds : Word.least ≤ t.microsInt ∧ t.microsInt ≤ Word.greatestUnsigned := by
    simp only [Word.least, Word.greatestUnsigned]
    omega
  have hread : intWithin? Word.least Word.greatestUnsigned (.int t.microsInt) = some t.microsInt :=
    if_pos hbounds
  rw [timeOfJson?, hread, Option.bind_some, h.ofMicros?_microsInt]

/-- The fields of a written event. -/
def fields (e : Event String) : List (Option String × Json) :=
  [field "event_time" (.int e.time.microsInt),
   field "node_id" (ofInt32 e.node),
   field "input_ts" e.inputStamp.toJson,
   field "packet_ts" e.packetStamp.toJson,
   field "event_type" e.kind.toJson] ++
    fieldIf "stream_id" text e.stream ++
    fieldIf "packet_data_id" (fun handle => .int handle.toNat) e.payload ++
    [field "thread_id" (ofInt32 e.thread), field "is_finish" (.bool e.isFinish)]

variable (e : Event String)

theorem toJson_eq : e.toJson = .object e.fields := rfl

theorem sublist_fields : (e.fields.map Prod.fst).Sublist (fieldNames.map some) := by
  simp only [fields, List.map_append]
  exact (((List.Sublist.refl _).append (sublist_fieldIf _ _ _)).append
    (sublist_fieldIf _ _ _)).append (List.Sublist.refl _)

variable {e} in
/-- Reading a written event gives the event. -/
theorem ofJson?_toJson (repeated : Repeated) (h : e.time.IsWhole) :
    ofJson? repeated e.toJson = some e := by
  obtain ⟨record, hrecord, hlookup⟩ := exists_record? repeated (by decide) e.sublist_fields
  have htime : record.required? "event_time" timeOfJson? = some e.time :=
    (Record.required?_eq (by simp [hlookup, fields])).trans (timeOfJson?_int h)
  have hnode : record.optional? "node_id" 0 int32? = some e.node := by
    simp [Record.optional?, hlookup, fields]
  have hinput : record.optional? "input_ts" .unset Timestamp.ofJson? = some e.inputStamp := by
    simp [Record.optional?, hlookup, fields, Timestamp.ofJson?_toJson]
  have hpacket : record.optional? "packet_ts" .unset Timestamp.ofJson? = some e.packetStamp := by
    simp [Record.optional?, hlookup, fields, Timestamp.ofJson?_toJson]
  have hkind : record.optional? "event_type" .unknown EventKind.ofJson? = some e.kind := by
    simp [Record.optional?, hlookup, fields, EventKind.ofJson?_toJson]
  have hname : ∀ name, orNull? text? (text name) = some (some name) := fun _ => rfl
  have hstream : record.optional? "stream_id" none (orNull? text?) = some e.stream :=
    Record.optional?_eq (by simp [hlookup, fields, List.lookup_append]) hname
  have hpayload : record.optional? "packet_data_id" none (orNull? uint64?) = some e.payload :=
    Record.optional?_eq (by simp [hlookup, fields, List.lookup_append]) orNull?_uint64
  have hthread : record.optional? "thread_id" 0 int32? = some e.thread := by
    simp [Record.optional?, hlookup, fields, List.lookup_append]
  have hfinish : record.optional? "is_finish" false bool? = some e.isFinish := by
    simp [Record.optional?, hlookup, fields, List.lookup_append, bool?]
  rw [toJson_eq, ofJson?, hrecord]
  simp [ofRecord?, htime, hnode, hinput, hpacket, hkind, hstream, hpayload, hthread, hfinish]

theorem plain_toJson : Plain e.toJson := by
  have htime : Plain (.int e.time.microsInt) := by
    have hword := plain_ofInt64 e.time.micros
    rwa [ofInt64, Instant.toInt_micros] at hword
  have hkind : Plain e.kind.toJson := .text _
  rw [toJson_eq]
  refine plain_object ?_
  simp only [fields, List.forall_mem_append]
  refine ⟨⟨⟨?_, ?_⟩, ?_⟩, ?_⟩
  · simp [plainField_field, plain_ofInt32, htime, hkind, Timestamp.plain_toJson]
  · exact plainField_of_mem_fieldIf .text
  · exact plainField_of_mem_fieldIf plain_uint64
  · simp [plainField_field, plain_ofInt32, Plain.bool]

/-- A written event nests nothing. -/
theorem usableWithin_toJson (room : Nat) : usableWithin (room + 1) e.toJson = true := by
  rw [toJson_eq, usableWithin, fieldsUsable_iff]
  simp only [fields, List.forall_mem_append]
  refine ⟨⟨⟨?_, ?_⟩, ?_⟩, ?_⟩
  · simp [field, ofInt32, Timestamp.toJson, EventKind.toJson]
  · exact forall_mem_fieldIf fun name => ⟨rfl, usableWithin_text room name⟩
  · exact forall_mem_fieldIf fun handle => ⟨rfl, usableWithin_int room handle.toNat⟩
  · simp [field, ofInt32]

end Event

end FlowTrace
