import FlowTrace.Proofs.Json.Records
set_option autoImplicit false

/-!
# Trace: traces that are read back

What is written of a packet, a record or a trace is a plain value, and reading it gives the packet,
record or trace again.
-/

namespace FlowTrace

open Json

theorem EventKind.ofJson?_toJson (kind : EventKind) : ofJson? kind.toJson = some kind := by
  cases kind <;> decide

namespace StreamRecord

/-- The fields of a written packet. -/
def fields (r : StreamRecord) : List (Option String × Json) :=
  fieldIf "start_time" ofInt64 r.startTime ++
    fieldIf "finish_time" ofInt64 r.finishTime ++
    [field "packet_timestamp" (ofInt64 r.packetStamp), field "stream_id" (ofInt32 r.streamId)] ++
    fieldIf "packet_id" ofInt32 r.payloadId

theorem toJson_eq (r : StreamRecord) : r.toJson = .object r.fields := rfl

theorem sublist_fields (r : StreamRecord) :
    (r.fields.map Prod.fst).Sublist (fieldNames.map some) := by
  simp only [fields, List.map_append]
  exact (((sublist_fieldIf _ _ _).append (sublist_fieldIf _ _ _)).append
    (List.Sublist.refl _)).append (sublist_fieldIf _ _ _)

/-- Reading a written packet gives the packet. -/
theorem ofJson?_toJson (r : StreamRecord) : ofJson? r.toJson = some r := by
  obtain ⟨record, hrecord, hlookup⟩ := exists_record? .refused (by decide) r.sublist_fields
  have hstart : record.optional? "start_time" none (orNull? int64?) = some r.startTime :=
    Record.optional?_eq (by simp [hlookup, fields, List.lookup_append]) orNull?_ofInt64
  have hfinish : record.optional? "finish_time" none (orNull? int64?) = some r.finishTime :=
    Record.optional?_eq (by simp [hlookup, fields, List.lookup_append]) orNull?_ofInt64
  have hpayload : record.optional? "packet_id" none (orNull? int32?) = some r.payloadId :=
    Record.optional?_eq (by simp [hlookup, fields, List.lookup_append]) orNull?_ofInt32
  have hstamp : record.required? "packet_timestamp" int64? = some r.packetStamp :=
    (Record.required?_eq (by simp [hlookup, fields, List.lookup_append])).trans (int64?_ofInt64 _)
  have hstream : record.required? "stream_id" int32? = some r.streamId :=
    (Record.required?_eq (by simp [hlookup, fields, List.lookup_append])).trans (int32?_ofInt32 _)
  rw [toJson_eq, ofJson?, hrecord]
  simp [hstart, hfinish, hpayload, hstamp, hstream]

theorem plain_toJson (r : StreamRecord) : Plain r.toJson := by
  refine plain_object ?_
  simp only [List.forall_mem_append]
  refine ⟨⟨⟨?_, ?_⟩, ?_⟩, ?_⟩
  · exact plainField_of_mem_fieldIf plain_ofInt64
  · exact plainField_of_mem_fieldIf plain_ofInt64
  · simp [plainField_field, plain_ofInt64, plain_ofInt32]
  · exact plainField_of_mem_fieldIf plain_ofInt32

end StreamRecord

namespace TaskRecord

@[simp] theorem lookup_packets (name other : String) (records : List StreamRecord) :
    (packets name records).lookup (some other) =
      if other = name ∧ records ≠ [] then some (.array (records.map StreamRecord.toJson))
      else none := by
  unfold packets
  split <;> simp_all

theorem sublist_packets (name : String) (records : List StreamRecord) :
    ((packets name records).map Prod.fst).Sublist [some name] := by
  unfold packets
  split <;> simp [field]

/-- A list of packets is read back, also where the field for it is left out. -/
theorem optional?_packets {record : Json.Record} {name : String} {records : List StreamRecord}
    (h : record.lookup name =
      if records ≠ [] then some (.array (records.map StreamRecord.toJson)) else none) :
    record.optional? name [] (list? StreamRecord.ofJson?) = some records := by
  have hread : list? StreamRecord.ofJson? (.array (records.map StreamRecord.toJson)) =
      some records := list?_map fun r _ => r.ofJson?_toJson
  rw [Record.optional?, h]
  by_cases hne : records = []
  · simp [hne]
  · simp only [ne_eq, hne, not_false_eq_true, if_true]
    exact hread

/-- The fields of a written record. -/
def fields (r : TaskRecord) : List (Option String × Json) :=
  [field "node_id" (ofInt32 r.node)] ++
    fieldIf "input_timestamp" ofInt64 r.inputStamp ++
    [field "event_type" r.kind.toJson] ++
    fieldIf "start_time" ofInt64 r.startTime ++
    fieldIf "finish_time" ofInt64 r.finishTime ++
    packets "input_trace" r.inputs ++
    packets "output_trace" r.outputs ++
    [field "thread_id" (ofInt32 r.thread)]

theorem toJson_eq (r : TaskRecord) : r.toJson = .object r.fields := rfl

theorem sublist_fields (r : TaskRecord) :
    (r.fields.map Prod.fst).Sublist (fieldNames.map some) := by
  simp only [fields, List.map_append]
  exact (((((((List.Sublist.refl _).append (sublist_fieldIf _ _ _)).append
    (List.Sublist.refl _)).append (sublist_fieldIf _ _ _)).append (sublist_fieldIf _ _ _)).append
    (sublist_packets _ _)).append (sublist_packets _ _)).append (List.Sublist.refl _)

/-- Reading a written record gives the record. -/
theorem ofJson?_toJson (r : TaskRecord) : ofJson? r.toJson = some r := by
  obtain ⟨record, hrecord, hlookup⟩ := exists_record? .refused (by decide) r.sublist_fields
  have hnode : record.required? "node_id" int32? = some r.node :=
    (Record.required?_eq (by simp [hlookup, fields])).trans (int32?_ofInt32 _)
  have hstamp : record.optional? "input_timestamp" none (orNull? int64?) = some r.inputStamp :=
    Record.optional?_eq (by simp [hlookup, fields, List.lookup_append]) orNull?_ofInt64
  have hkind : record.required? "event_type" EventKind.ofJson? = some r.kind :=
    (Record.required?_eq (by simp [hlookup, fields, List.lookup_append])).trans
      (EventKind.ofJson?_toJson _)
  have hstart : record.optional? "start_time" none (orNull? int64?) = some r.startTime :=
    Record.optional?_eq (by simp [hlookup, fields, List.lookup_append]) orNull?_ofInt64
  have hfinish : record.optional? "finish_time" none (orNull? int64?) = some r.finishTime :=
    Record.optional?_eq (by simp [hlookup, fields, List.lookup_append]) orNull?_ofInt64
  have hinputs : record.optional? "input_trace" [] (list? StreamRecord.ofJson?) = some r.inputs :=
    optional?_packets (by simp [hlookup, fields, List.lookup_append])
  have houtputs : record.optional? "output_trace" [] (list? StreamRecord.ofJson?) =
      some r.outputs :=
    optional?_packets (by simp [hlookup, fields, List.lookup_append])
  have hthread : record.required? "thread_id" int32? = some r.thread :=
    (Record.required?_eq (by simp [hlookup, fields, List.lookup_append])).trans (int32?_ofInt32 _)
  rw [toJson_eq, ofJson?, hrecord]
  simp [hnode, hstamp, hkind, hstart, hfinish, hinputs, houtputs, hthread]

theorem plain_toJson (r : TaskRecord) : Plain r.toJson := by
  have hpackets : ∀ name (records : List StreamRecord), ∀ f ∈ packets name records,
      PlainField f := by
    intro name records f hf
    unfold packets at hf
    split at hf
    · cases hf
    · rw [List.mem_singleton.1 hf]
      exact plainField_field (plain_array_map records fun r _ => r.plain_toJson)
  refine plain_object ?_
  simp only [List.forall_mem_append]
  refine ⟨⟨⟨⟨⟨⟨⟨?_, ?_⟩, ?_⟩, ?_⟩, ?_⟩, ?_⟩, ?_⟩, ?_⟩
  · simp [plainField_field, plain_ofInt32]
  · exact plainField_of_mem_fieldIf plain_ofInt64
  · simp [plainField_field, EventKind.toJson, Plain.text]
  · exact plainField_of_mem_fieldIf plain_ofInt64
  · exact plainField_of_mem_fieldIf plain_ofInt64
  · exact hpackets _ _
  · exact hpackets _ _
  · simp [plainField_field, plain_ofInt32]

end TaskRecord

namespace Trace

/-- The fields of a written trace. -/
def fields (t : Trace) : List (Option String × Json) :=
  [field "base_time" (ofInt64 t.baseTime),
   field "base_timestamp" (ofInt64 t.baseStamp),
   field "calculator_trace" (.array (t.records.map TaskRecord.toJson)),
   field "stream_name" (.array (t.streamNames.map text))]

theorem toJson_eq (t : Trace) : t.toJson = .object t.fields := rfl

/-- Reading a written trace gives the trace. -/
theorem ofJson?_toJson (t : Trace) : ofJson? t.toJson = some t := by
  have hsublist : (t.fields.map Prod.fst).Sublist (fieldNames.map some) := List.Sublist.refl _
  obtain ⟨record, hrecord, hlookup⟩ := exists_record? .refused (by decide) hsublist
  have hbaseTime : record.required? "base_time" int64? = some t.baseTime :=
    (Record.required?_eq (by simp [hlookup, fields])).trans (int64?_ofInt64 _)
  have hbaseStamp : record.required? "base_timestamp" int64? = some t.baseStamp :=
    (Record.required?_eq (by simp [hlookup, fields])).trans (int64?_ofInt64 _)
  have hrecords : record.optional? "calculator_trace" [] (list? TaskRecord.ofJson?) =
      some t.records := by
    rw [Record.optional?, hlookup, fields]
    simpa using list?_map fun r _ => r.ofJson?_toJson
  have hnames : record.optional? "stream_name" [] (list? text?) = some t.streamNames := by
    have hread : list? text? (.array (t.streamNames.map text)) = some t.streamNames :=
      list?_map fun name _ => text?_text name
    rw [Record.optional?, hlookup, fields]
    simpa using hread
  rw [toJson_eq, ofJson?, hrecord]
  simp [hbaseTime, hbaseStamp, hrecords, hnames]

theorem plain_toJson (t : Trace) : Plain t.toJson := by
  have hrecords : Plain (.array (t.records.map TaskRecord.toJson)) :=
    plain_array_map _ fun r _ => r.plain_toJson
  have hnames : Plain (.array (t.streamNames.map text)) :=
    plain_array_map _ fun name _ => .text name
  refine plain_object ?_
  simp [plainField_field, plain_ofInt64, hrecords, hnames]

end Trace

end FlowTrace
