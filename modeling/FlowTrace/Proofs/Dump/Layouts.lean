import FlowTrace.Proofs.Dump.Lines
import FlowTrace.Proofs.Event.Json
set_option autoImplicit false

/-!
# Dump: dumps that are read back

Events can be written as an array, as an array inside an object or one on each line.  The reader is
not told which: it takes the whole text for one value first, and only where that fails for lines.
-/

namespace FlowTrace.Dump

open Json

/-! ## Events of records -/

section

variable {events : List (Event String)} (hwhole : ∀ e ∈ events, e.time.IsWhole)

include hwhole

/-- The events that some records were written for are read from them. -/
theorem eventsOf_toJson : eventsOf (events.map Event.toJson) = events := by
  rw [eventsOf, List.filterMap_map]
  exact (List.filterMap_congr fun e he => Event.ofJson?_toJson _ (hwhole e he)).trans
    List.filterMap_some

theorem gives_of_records {text : String} {layout : Layout}
    (h : (records text.toList).2 = .ok (layout, events.map Event.toJson)) : Gives text events := by
  have hevents := eventsOf_toJson hwhole
  refine gives_iff.2 ⟨_, records_eq_ok_iff.1 ⟨layout, h⟩, recordEvents_eq_ok_iff.2 ⟨hevents.symm, ?_⟩⟩
  rintro rfl
  rfl

end

/-! ## Whole values -/

/-- The text begins with a character that is not blank. -/
def Starts (cs : List Char) : Prop := ∃ c rest, cs = c :: rest ∧ Text.isBlank c = false

/-- A text that is one value decides by the value what the records are, and any other by lines. -/
theorem records_of_starts {cs : List Char} (h : Starts cs) :
    (records cs).2 =
      match parseUsable? cs with
      | some value => valueRecords value
      | none => (lineRecords cs).2 := by
  obtain ⟨c, rest, rfl, hc⟩ := h
  rw [records, Text.trimStart_cons hc, if_neg (List.cons_ne_nil c rest)]
  cases parseUsable? (c :: rest) <;> rfl

/-- Both layouts of a value write it with gaps of their own. -/
theorem exists_lay_of_text {value : Json} {text : String}
    (h : text ∈ [value.compactText, value.prettyText]) :
    ∃ gaps write, Gaps.Lay gaps write ∧ text.toList = write 0 value := by
  rcases List.mem_cons.1 h with rfl | h
  · exact ⟨_, _, lay_compact, String.toList_ofList⟩
  · rw [List.mem_singleton.1 h]
    exact ⟨_, _, lay_pretty, String.toList_ofList⟩

theorem records_array {items : List Json} (hplain : Plain (.array items))
    (husable : usable (.array items) = true) {text : String}
    (htext : text ∈ [(Json.array items).compactText, (Json.array items).prettyText]) :
    (records text.toList).2 = .ok (.array, items) := by
  obtain ⟨gaps, write, hlay, hwrite⟩ := exists_lay_of_text htext
  have hparse := parseUsable?_eq (hplain.spells_write hlay 0).reads.parse?_eq husable
  have hstarts : Starts (write 0 (.array items)) := ⟨_, _, hlay.array 0 items, by decide⟩
  rw [hwrite, records_of_starts hstarts, hparse]
  rfl

theorem records_object {fields : List (Option String × Json)} (hplain : Plain (.object fields))
    (husable : usable (.object fields) = true) {text : String}
    (htext : text ∈ [(Json.object fields).compactText, (Json.object fields).prettyText]) :
    (records text.toList).2 = objectRecords fields := by
  obtain ⟨gaps, write, hlay, hwrite⟩ := exists_lay_of_text htext
  have hparse := parseUsable?_eq (hplain.spells_write hlay 0).reads.parse?_eq husable
  have hstarts : Starts (write 0 (.object fields)) := ⟨_, _, hlay.object 0 fields, by decide⟩
  rw [hwrite, records_of_starts hstarts, hparse]
  rfl

/-! ## Objects that hold events -/

/-- A field of a dump that is none of those which hold events. -/
structure IsAside (f : Option String × Json) : Prop where
  plain : PlainField f
  usable : usableWithin (nestingLimit - 1) f.2 = true
  name : f.1 ∉ eventFieldNames.map some

theorem lookup_aside {fields : List (Option String × Json)} (h : ∀ f ∈ fields, IsAside f)
    {name : String} (hname : name ∈ eventFieldNames) : fields.lookup (some name) = none := by
  rw [List.lookup_eq_none_iff]
  intro f hf
  exact bne_iff_ne.2 fun heq => (h f hf).name (heq ▸ List.mem_map_of_mem hname)

/-- The array of events is found under its name, wherever it stands among the fields. -/
theorem objectRecords_wrapped {before after : List (Option String × Json)}
    (hbefore : ∀ f ∈ before, IsAside f) (hafter : ∀ f ∈ after, IsAside f) {name : String}
    (hname : name ∈ eventFieldNames) (items : List Json) :
    objectRecords (before ++ field name (.array items) :: after) = .ok (.wrapped, items) := by
  have hlast : ∀ other ∈ eventFieldNames,
      lastField? other (before ++ field name (.array items) :: after) =
        if other = name then some (.array items) else none := by
    intro other hother
    have hnone : after.reverse.lookup (some other) = none ∧
        before.reverse.lookup (some other) = none :=
      ⟨lookup_aside (fun f hf => hafter f (List.mem_reverse.1 hf)) hother,
        lookup_aside (fun f hf => hbefore f (List.mem_reverse.1 hf)) hother⟩
    simp [lastField?, List.lookup_append, hnone]
  simp only [eventFieldNames, List.forall_mem_cons] at hlast
  simp only [eventFieldNames, List.mem_cons, List.not_mem_nil, or_false] at hname
  rcases hname with rfl | rfl | rfl | rfl <;> simp [objectRecords, eventFieldNames, hlast]

/-! ## Lines -/

/-- The fields of a written event are found from either end. -/
theorem lastField?_fields (e : Event String) (name : String) :
    lastField? name e.fields = e.fields.lookup (some name) := by
  have hnames : (Event.fieldNames.map some).Nodup := by decide
  exact lookup_reverse (hnames.sublist e.sublist_fields) (some name)

/-- An event by itself counts as one line. -/
theorem objectRecords_fields (e : Event String) :
    objectRecords e.fields = .ok (.lines, [e.toJson]) := by
  have hnone : ∀ name ∈ eventFieldNames, lastField? name e.fields = none := by
    intro name hname
    simp only [eventFieldNames, List.mem_cons, List.not_mem_nil, or_false] at hname
    rw [lastField?_fields]
    rcases hname with rfl | rfl | rfl | rfl <;> simp [Event.fields, List.lookup_append]
  have htime : lastField? "event_time" e.fields = some (.int e.time.microsInt) := by
    rw [lastField?_fields]
    simp [Event.fields]
  simp only [eventFieldNames, List.forall_mem_cons] at hnone
  simp [objectRecords, eventFieldNames, hnone, htime, Event.toJson_eq]

/-- The line that an event is written on. -/
def line (e : Event String) : List Char := e.toJson.compact

theorem spells_line (e : Event String) : Spells (line e) e.toJson :=
  e.plain_toJson.spells_write lay_compact 0

theorem usable_toJson (e : Event String) : e.toJson.usable = true := e.usableWithin_toJson 126

theorem isObjectLine_line (e : Event String) : IsObjectLine (line e) e.fields where
  oneLine := fun hin => absurd (e.plain_toJson.noControl_compact _ hin) (by decide)
  parse := parseUsable?_eq (spells_line e).reads.parse?_eq (usable_toJson e)

/-- Written lines are read as the records that were written. -/
theorem exists_records_lines (events : List (Event String)) {tail : List (List Char)}
    (htail : tail = [] ∨ tail = [[]]) :
    ∃ layout, (records (['\n'].intercalate (events.map line ++ tail))).2 =
      .ok (layout, events.map Event.toJson) := by
  cases events with
  | nil => exact ⟨.array, by rcases htail with rfl | rfl <;> rfl⟩
  | cons e events =>
    have hobjects : List.Forall₂ IsObjectLine ((e :: events).map line)
        ((e :: events).map Event.fields) := by
      rw [List.forall₂_map_left_iff, List.forall₂_map_right_iff, List.forall₂_same]
      exact fun e _ => isObjectLine_line e
    have hlone : ∀ fields, (e :: events).map Event.fields = [fields] →
        Contains (.object fields) [.object fields] := by
      intro fields hfields
      obtain ⟨e', -, rfl⟩ := List.mem_map.1 (hfields ▸ List.mem_singleton_self fields)
      exact valueRecords_eq_ok_iff.1 ⟨.lines, objectRecords_fields e'⟩
    have hholds := holds_objectLines htail hobjects (List.cons_ne_nil _ _) hlone
      (String.toList_ofList (l := ['\n'].intercalate ((e :: events).map line ++ tail)))
    obtain ⟨layout, hrecords⟩ := records_eq_ok_iff.2 hholds
    rw [String.toList_ofList, List.map_map] at hrecords
    exact ⟨layout, hrecords⟩

/-! ## Dumps -/

/-- The array of events, as a dump holds it. -/
def arrayOf (events : List (Event String)) : Json := .array (events.map Event.toJson)

/-- An object with the array of events between other fields. -/
def wrap (name : String) (before after : List (Option String × Json))
    (events : List (Event String)) : Json :=
  .object (before ++ field name (arrayOf events) :: after)

/-- One line for each event. -/
def lineTexts (events : List (Event String)) : List String :=
  events.map fun e => e.toJson.compactText

theorem plain_arrayOf (events : List (Event String)) : Plain (arrayOf events) :=
  plain_array_map events fun e _ => e.plain_toJson

theorem usableWithin_arrayOf (events : List (Event String)) (room : Nat) :
    usableWithin (room + 2) (arrayOf events) = true := by
  rw [arrayOf, usableWithin, itemsUsable_iff]
  intro item hitem
  obtain ⟨e, -, rfl⟩ := List.mem_map.1 hitem
  exact e.usableWithin_toJson room

theorem toList_lineTexts (events : List (Event String)) :
    (lineTexts events).map String.toList = events.map line := by
  rw [lineTexts, List.map_map]
  exact List.map_congr_left fun e _ => String.toList_ofList

/-- Events with whole microseconds are read back from every layout of a dump: from an array, from an
object that holds the array under one of the known names, and from lines, with or without an end of
the last one. -/
theorem read_written {events : List (Event String)} (hwhole : ∀ e ∈ events, e.time.IsWhole) :
    (∀ text ∈ [(arrayOf events).compactText, (arrayOf events).prettyText], Gives text events) ∧
    (∀ name ∈ eventFieldNames, ∀ before after : List (Option String × Json),
      (∀ f ∈ before, IsAside f) → (∀ f ∈ after, IsAside f) →
        ∀ text ∈ [(wrap name before after events).compactText,
          (wrap name before after events).prettyText], Gives text events) ∧
    (∀ text ∈ [Text.joinWith "\n" (lineTexts events), Text.lines (lineTexts events)],
      Gives text events) := by
  refine ⟨?_, ?_, ?_⟩
  · intro text htext
    exact gives_of_records hwhole
      (records_array (plain_arrayOf events) (usableWithin_arrayOf events 125) htext)
  · intro name hname before after hbefore hafter text htext
    have hplain : Plain (wrap name before after events) := by
      refine plain_object ?_
      simp only [List.forall_mem_append, List.forall_mem_cons]
      exact ⟨fun f hf => (hbefore f hf).plain, plainField_field (plain_arrayOf events),
        fun f hf => (hafter f hf).plain⟩
    have husable : usable (wrap name before after events) = true := by
      rw [usable, wrap, nestingLimit, usableWithin, fieldsUsable_iff]
      simp only [List.forall_mem_append, List.forall_mem_cons]
      exact ⟨fun f hf => ⟨(hbefore f hf).plain.1, (hbefore f hf).usable⟩,
        ⟨rfl, usableWithin_arrayOf events 124⟩,
        fun f hf => ⟨(hafter f hf).plain.1, (hafter f hf).usable⟩⟩
    have hrecords := records_object hplain husable htext
    rw [arrayOf, objectRecords_wrapped hbefore hafter hname] at hrecords
    exact gives_of_records hwhole hrecords
  · intro text htext
    obtain ⟨tail, htail, hlist⟩ : ∃ tail : List (List Char), (tail = [] ∨ tail = [[]]) ∧
        text.toList = ['\n'].intercalate (events.map line ++ tail) := by
      rw [← toList_lineTexts]
      rcases List.mem_cons.1 htext with rfl | htext
      · exact ⟨[], .inl rfl, by rw [Text.toList_joinWith, List.append_nil]⟩
      · rw [List.mem_singleton.1 htext]
        exact ⟨[[]], .inr rfl, Text.toList_lines _⟩
    obtain ⟨layout, hrecords⟩ := exists_records_lines events htail
    exact gives_of_records hwhole (by rw [hlist, hrecords])

/-- Two events with numbers at the ends of their ranges, and a stream name with a quote, a backslash
and line ends in it. -/
def awkward : List (Event String) :=
  [⟨⟨-8334601228800, 0, by decide⟩, -2147483648, .unset, .done, .throttled,
      some "a\"b\\c\r\n\x01\u2028", some 18446744073709551615, 2147483647, true⟩,
   ⟨.last, 0, ⟨0⟩, .least, .unknown, some "", none, -1, false⟩]

theorem read_written_awkward :
    (∀ e ∈ awkward, e.time.IsWhole) ∧ Gives (arrayOf awkward).prettyText awkward ∧
      IsAside (field "version" (.text "1")) ∧
      Gives (wrap "trace" [field "version" (.text "1")] [] awkward).compactText awkward ∧
      Gives (Text.lines (lineTexts awkward)) awkward := by
  have hwhole : ∀ e ∈ awkward, e.time.IsWhole := by decide
  have haside : IsAside (field "version" (.text "1")) :=
    ⟨plainField_field (.text "1"), usableWithin_text _ _, by decide⟩
  obtain ⟨harray, hwrap, hlines⟩ := read_written hwhole
  refine ⟨hwhole, harray _ (by simp), haside, ?_, hlines _ (by simp)⟩
  exact hwrap "trace" (by decide) [field "version" (.text "1")] []
    (fun f hf => List.mem_singleton.1 hf ▸ haside) (fun f hf => by cases hf) _ (by simp)

end FlowTrace.Dump
