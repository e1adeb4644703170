import Mathlib.Data.List.Basic
import FlowTrace.Dump.Reader
import FlowTrace.Proofs.Dump.Sharing
import FlowTrace.Proofs.Text
set_option autoImplicit false

/-!
# Dump: what a text holds

Which records a text holds is told without reading it step by step: `Contains` says it of a document,
and `Holds` of a text, which may be blank, a document or lines.  Reading gives exactly the events of
these records and has four reasons to fail, three of them that there are no records.  A record or
line that means nothing takes nothing away from the others.
-/

namespace FlowTrace.Dump

open Json

/-! ## Documents -/

/-- The object holds these items under the name. -/
def HoldsArray (fields : List (Option String × Json)) (name : String) (items : List Json) : Prop :=
  lastField? name fields = some (.array items)

/-- The object holds these items under the first of the known names that it holds an array under. -/
def FirstArray (fields : List (Option String × Json)) (items : List Json) : Prop :=
  ∃ before name after, eventFieldNames = before ++ name :: after ∧ HoldsArray fields name items ∧
    ∀ other ∈ before, ∀ others, ¬ HoldsArray fields other others

/-- The object holds no array under a known name. -/
def NoArray (fields : List (Option String × Json)) : Prop :=
  ∀ name ∈ eventFieldNames, ∀ items, ¬ HoldsArray fields name items

/-- The records that a document contains: the items of an array, those of the first known array of an
object, or else the object by itself, if it has a time. -/
inductive Contains : Json → List Json → Prop where
  | array (items : List Json) : Contains (.array items) items
  | wrapped {fields : List (Option String × Json)} {items : List Json}
      (hfirst : FirstArray fields items) : Contains (.object fields) items
  | event {fields : List (Option String × Json)} (hnone : NoArray fields)
      (htime : (lastField? "event_time" fields).isSome = true) :
      Contains (.object fields) [.object fields]

/-- Why a document contains no records. -/
inductive Lacks : Json → Fault → Prop where
  | object {fields : List (Option String × Json)} (hnone : NoArray fields)
      (htime : lastField? "event_time" fields = none) : Lacks (.object fields) .noEventArray
  | scalar {value : Json} (harray : ∀ items, value ≠ .array items)
      (hobject : ∀ fields, value ≠ .object fields) : Lacks value (.notContainer value)

/-- The items that the object holds under the name. -/
def arrayUnder? (fields : List (Option String × Json)) (name : String) : Option (List Json) :=
  match lastField? name fields with
  | some (.array items) => some items
  | _ => none

theorem arrayUnder?_eq_some_iff {fields : List (Option String × Json)} {name : String}
    {items : List Json} : arrayUnder? fields name = some items ↔ HoldsArray fields name items := by
  unfold arrayUnder? HoldsArray
  split
  · rename_i found hfound
    simp [hfound]
  · rename_i hother
    exact ⟨nofun, fun h => absurd h (hother items)⟩

theorem arrayUnder?_eq_none_iff {fields : List (Option String × Json)} {name : String} :
    arrayUnder? fields name = none ↔ ∀ items, ¬ HoldsArray fields name items := by
  simp only [Option.eq_none_iff_forall_ne_some, ne_eq, arrayUnder?_eq_some_iff]

theorem findSome?_arrayUnder?_eq_some_iff {fields : List (Option String × Json)}
    {items : List Json} :
    eventFieldNames.findSome? (arrayUnder? fields) = some items ↔ FirstArray fields items := by
  simp only [List.findSome?_eq_some_iff, arrayUnder?_eq_some_iff, arrayUnder?_eq_none_iff]
  rfl

theorem findSome?_arrayUnder?_eq_none_iff {fields : List (Option String × Json)} :
    eventFieldNames.findSome? (arrayUnder? fields) = none ↔ NoArray fields := by
  simp only [List.findSome?_eq_none_iff, arrayUnder?_eq_none_iff]
  rfl

/-- An object's known array goes before the object itself. -/
theorem objectRecords_eq (fields : List (Option String × Json)) :
    objectRecords fields =
      match eventFieldNames.findSome? (arrayUnder? fields) with
      | some items => .ok (.wrapped, items)
      | none =>
        match lastField? "event_time" fields with
        | some _ => .ok (.lines, [.object fields])
        | none => .error .noEventArray := rfl

theorem valueRecords_eq_ok_iff {value : Json} {records : List Json} :
    (∃ layout, valueRecords value = .ok (layout, records)) ↔ Contains value records := by
  constructor
  · rintro ⟨layout, h⟩
    unfold valueRecords at h
    split at h
    · cases h
      exact .array records
    · rw [objectRecords_eq] at h
      split at h
      · rename_i items hitems
        cases h
        exact .wrapped (findSome?_arrayUnder?_eq_some_iff.1 hitems)
      · rename_i hnone
        split at h
        · rename_i time htime
          cases h
          exact .event (findSome?_arrayUnder?_eq_none_iff.1 hnone) (by rw [htime]; rfl)
        · cases h
    · cases h
  · intro h
    cases h with
    | array => exact ⟨.array, rfl⟩
    | wrapped hfirst =>
      exact ⟨.wrapped, by rw [valueRecords, objectRecords_eq,
        findSome?_arrayUnder?_eq_some_iff.2 hfirst]⟩
    | event hnone htime =>
      obtain ⟨time, htime⟩ := Option.isSome_iff_exists.1 htime
      exact ⟨.lines, by rw [valueRecords, objectRecords_eq,
        findSome?_arrayUnder?_eq_none_iff.2 hnone, htime]⟩

theorem valueRecords_eq_error_iff {value : Json} {fault : Fault} :
    valueRecords value = .error fault ↔ Lacks value fault := by
  constructor
  · intro h
    unfold valueRecords at h
    split at h
    · cases h
    · rw [objectRecords_eq] at h
      split at h
      · cases h
      · rename_i hnone
        split at h
        · cases h
        · rename_i htime
          cases h
          exact .object (findSome?_arrayUnder?_eq_none_iff.1 hnone) htime
    · rename_i harray hobject
      cases h
      exact .scalar harray hobject
  · intro h
    cases h with
    | object hnone htime =>
      rw [valueRecords, objectRecords_eq, findSome?_arrayUnder?_eq_none_iff.2 hnone, htime]
    | scalar harray hobject =>
      unfold valueRecords
      split
      · exact absurd rfl (harray _)
      · exact absurd rfl (hobject _)
      · rfl

/-! ## Lines -/

theorem filterMap_zipIdx {α β : Type} (f : α → Option β) (l : List α) (start : Nat) :
    (l.zipIdx start).filterMap (fun x => f x.1) = l.filterMap f := by
  conv => rhs; rw [← List.zipIdx_map_fst start l, List.filterMap_map]
  rfl

/-- The value of a line, between the blanks around it. -/
def trimmedValue? (line : List Char) : Option Json := parseUsable? (Text.trim line)

/-- The values of the lines that are one. -/
def lineValues (text : List Char) : List Json := (lines text).filterMap trimmedValue?

theorem lineValue?_bind_toOption (line : List Char × Nat) :
    (lineValue? line).bind Except.toOption = trimmedValue? line.1 := by
  unfold lineValue? trimmedValue?
  simp only
  split
  · rename_i hblank
    rw [hblank]
    rfl
  · split
    · rename_i value hvalue
      exact hvalue.symm
    · rename_i hnone
      exact hnone.symm

/-- A text that is not blank has a line that is not. -/
theorem exists_line_of_not_blank {text : List Char} (h : Text.trimStart text ≠ []) :
    ∃ line ∈ lines text, Text.trim line ≠ [] := by
  have hsome : ∃ c ∈ text, Text.isBlank c ≠ true := by
    by_contra hall
    exact h (Text.trimStart_eq_nil_iff.2 fun c hc => not_not.1 fun hne => hall ⟨c, hc, hne⟩)
  obtain ⟨c, hc, hblank⟩ := hsome
  have hpieces : ['\n'].intercalate (text.splitOn '\n') = text := List.intercalate_splitOn '\n'
  rw [← hpieces] at hc
  rcases Text.mem_intercalate hc with rfl | ⟨line, hline, hcline⟩
  · exact absurd (by decide) hblank
  refine ⟨_, List.mem_map_of_mem hline, fun hnil => hblank ?_⟩
  refine Text.trim_eq_nil_iff.1 hnil c ?_
  split
  · rename_i hlast
    -- only a blank is cut off
    rw [← List.dropLast_append_getLast? _ hlast] at hcline
    rcases List.mem_append.1 hcline with hc | hc
    · exact hc
    · exact absurd (List.mem_singleton.1 hc ▸ by decide) hblank
  · exact hcline

/-- The number of a line that is neither blank nor a value is noted. -/
theorem exists_bad_line {text line : List Char} (hline : line ∈ lines text)
    (hblank : Text.trim line ≠ []) (hnone : trimmedValue? line = none) :
    ∃ number, Except.error number ∈ ((lines text).zipIdx 1).filterMap lineValue? := by
  rw [← List.zipIdx_map_fst 1 (lines text)] at hline
  obtain ⟨⟨_, number⟩, hnumbered, rfl⟩ := List.mem_map.1 hline
  refine ⟨number, List.mem_filterMap.2 ⟨_, hnumbered, ?_⟩⟩
  rw [trimmedValue?] at hnone
  rw [lineValue?, if_neg hblank, hnone]

/-- The records of lines are the values among them, and without any there is a line to blame. -/
theorem lineRecords_eq {text : List Char} (h : Text.trimStart text ≠ []) :
    (lineRecords text).2 =
      if lineValues text = [] then .error .notJson else .ok (.lines, lineValues text) := by
  have hvalues : (((lines text).zipIdx 1).filterMap lineValue?).filterMap Except.toOption =
      lineValues text := by
    rw [List.filterMap_filterMap]
    simp only [lineValue?_bind_toOption]
    exact filterMap_zipIdx trimmedValue? (lines text) 1
  unfold lineRecords
  simp only [hvalues]
  by_cases hnone : lineValues text = []
  · obtain ⟨line, hline, hblank⟩ := exists_line_of_not_blank h
    obtain ⟨number, hnumber⟩ :=
      exists_bad_line hline hblank (List.filterMap_eq_nil_iff.1 hnone line hline)
    rw [if_pos hnone, if_pos]
    rw [Bool.and_eq_true, Bool.not_eq_true', List.isEmpty_iff, List.isEmpty_eq_false_iff]
    exact ⟨hnone, List.ne_nil_of_mem (List.mem_filterMap.2 ⟨_, hnumber, rfl⟩)⟩
  · simp [hnone]

/-! ## Texts -/

/-- The document that a text is. -/
def document? (text : String) : Option Json := parseUsable? (Text.trimStart text.toList)

/-- Some character of the text is not blank. -/
def IsWritten (text : String) : Prop := ∃ c ∈ text.toList, Text.isBlank c = false

/-- The records that a text holds: none when it is blank, those that it contains as a document, and
without a document the lines that are a value, if there are any. -/
inductive Holds (text : String) : List Json → Prop where
  | blank (hblank : ¬ IsWritten text) : Holds text []
  | document {value : Json} {records : List Json} (hdocument : document? text = some value)
      (hrecords : Contains value records) : Holds text records
  | lines (hwritten : IsWritten text) (hdocument : document? text = none)
      (hsome : lineValues text.toList ≠ []) : Holds text (lineValues text.toList)

/-- Why a text holds no records, though it is not blank: it is a document without records, or no
document, and no line of it is a value. -/
inductive HoldsNothing (text : String) : Fault → Prop where
  | document {value : Json} {fault : Fault} (hdocument : document? text = some value)
      (hlacks : Lacks value fault) : HoldsNothing text fault
  | lines (hwritten : IsWritten text) (hdocument : document? text = none)
      (hnone : lineValues text.toList = []) : HoldsNothing text .notJson

theorem trimStart_ne_nil_iff {text : String} :
    Text.trimStart text.toList ≠ [] ↔ IsWritten text := by
  simp [IsWritten, Text.trimStart_eq_nil_iff]

/-- A document is written. -/
theorem isWritten_of_document? {text : String} {value : Json} (h : document? text = some value) :
    IsWritten text := by
  refine trimStart_ne_nil_iff.1 fun hnil => ?_
  rw [document?, hnil] at h
  cases h

theorem records_of_not_isWritten {text : String} (h : ¬ IsWritten text) :
    (records text.toList).2 = .ok (.array, []) := by
  rw [records, if_pos (not_not.1 (mt trimStart_ne_nil_iff.1 h))]

theorem records_of_isWritten {text : String} (h : IsWritten text) :
    (records text.toList).2 =
      match document? text with
      | some value => valueRecords value
      | none =>
        if lineValues text.toList = [] then .error .notJson
        else .ok (.lines, lineValues text.toList) := by
  have hne := trimStart_ne_nil_iff.2 h
  rw [records, if_neg hne, ← lineRecords_eq hne, document?]
  cases parseUsable? (Text.trimStart text.toList) <;> rfl

theorem records_eq_ok_iff {text : String} {rs : List Json} :
    (∃ layout, (records text.toList).2 = .ok (layout, rs)) ↔ Holds text rs := by
  constructor
  · rintro ⟨layout, h⟩
    by_cases hwritten : IsWritten text
    · rw [records_of_isWritten hwritten] at h
      split at h
      · rename_i value hdocument
        exact .document hdocument (valueRecords_eq_ok_iff.1 ⟨layout, h⟩)
      · rename_i hdocument
        split at h
        · cases h
        · rename_i hsome
          cases h
          exact .lines hwritten hdocument hsome
    · rw [records_of_not_isWritten hwritten] at h
      cases h
      exact .blank hwritten
  · intro h
    cases h with
    | blank hblank => exact ⟨.array, records_of_not_isWritten hblank⟩
    | document hdocument hrecords =>
      rw [records_of_isWritten (isWritten_of_document? hdocument), hdocument]
      exact valueRecords_eq_ok_iff.2 hrecords
    | lines hwritten hdocument hsome =>
      exact ⟨.lines, by rw [records_of_isWritten hwritten, hdocument, if_neg hsome]⟩

theorem records_eq_error_iff {text : String} {fault : Fault} :
    (records text.toList).2 = .error fault ↔ HoldsNothing text fault := by
  constructor
  · intro h
    by_cases hwritten : IsWritten text
    · rw [records_of_isWritten hwritten] at h
      split at h
      · rename_i value hdocument
        exact .document hdocument (valueRecords_eq_error_iff.1 h)
      · rename_i hdocument
        split at h
        · rename_i hnone
          cases h
          exact .lines hwritten hdocument hnone
        · cases h
    · rw [records_of_not_isWritten hwritten] at h
      cases h
  · intro h
    cases h with
    | document hdocument hlacks =>
      rw [records_of_isWritten (isWritten_of_document? hdocument), hdocument]
      exact valueRecords_eq_error_iff.2 hlacks
    | lines hwritten hdocument hnone =>
      rw [records_of_isWritten hwritten, hdocument, if_pos hnone]

/-! ## Events -/

/-- Reading the text gives the events, whatever the allocations of their stream names are. -/
def Gives (text : String) (events : List (Event String)) : Prop :=
  ∃ read, (Dump.read text).result = .ok read ∧
    read.map (Event.mapStream StreamName.text) = events

/-- The events among some records. -/
def eventsOf (records : List Json) : List (Event String) :=
  records.filterMap (Event.ofJson? .lastCounts)

/-- The events of records are those of the records that are one, unless there are none. -/
theorem recordEvents_eq (records : List Json) :
    (recordEvents records).2 =
      if eventsOf records = [] ∧ records ≠ [] then .error .noEvents else .ok (eventsOf records) := by
  have hevent : ∀ record : Json × Nat,
      (recordEvent record).toOption = Event.ofJson? .lastCounts record.1 := by
    intro record
    unfold recordEvent
    split <;> simp_all [Except.toOption]
  have hevents : (records.zipIdx.map recordEvent).filterMap Except.toOption = eventsOf records := by
    rw [List.filterMap_map]
    simp only [Function.comp_def, hevent]
    exact filterMap_zipIdx (Event.ofJson? .lastCounts) records 0
  simp [recordEvents, hevents]

theorem recordEvents_eq_ok_iff {records : List Json} {events : List (Event String)} :
    (recordEvents records).2 = .ok events ↔
      events = eventsOf records ∧ (events = [] → records = []) := by
  rw [recordEvents_eq]
  split
  · rename_i hnone
    refine ⟨nofun, fun ⟨heq, hsome⟩ => ?_⟩
    exact absurd (hsome (heq.trans hnone.1)) hnone.2
  · rename_i hsome
    simp only [not_and, not_not] at hsome
    refine ⟨fun h => ?_, fun ⟨heq, _⟩ => heq ▸ rfl⟩
    cases h
    exact ⟨rfl, hsome⟩

theorem recordEvents_eq_error_iff {records : List Json} {fault : Fault} :
    (recordEvents records).2 = .error fault ↔
      fault = .noEvents ∧ records ≠ [] ∧ eventsOf records = [] := by
  rw [recordEvents_eq]
  split
  · rename_i hnone
    refine ⟨fun h => ?_, fun ⟨hfault, _⟩ => hfault ▸ rfl⟩
    cases h
    exact ⟨rfl, hnone.2, hnone.1⟩
  · rename_i hsome
    exact ⟨nofun, fun ⟨_, hne, hnil⟩ => absurd ⟨hnil, hne⟩ hsome⟩

theorem result_read (text : String) :
    (Dump.read text).result =
      match (records text.toList).2 with
      | .error fault => .error fault
      | .ok (_, rs) => (recordEvents rs).2.map fun events => (shareNames (allocateAll events)).1 := by
  unfold Dump.read
  simp only
  cases (records text.toList).2 with
  | error fault => rfl
  | ok found =>
    simp only
    cases (recordEvents found.2).2 <;> rfl

theorem gives_iff {text : String} {events : List (Event String)} :
    Gives text events ↔ ∃ rs, Holds text rs ∧ (recordEvents rs).2 = .ok events := by
  constructor
  · rintro ⟨read, hread, rfl⟩
    rw [result_read] at hread
    split at hread
    · cases hread
    · rename_i layout rs hrecords
      refine ⟨rs, records_eq_ok_iff.1 ⟨layout, hrecords⟩, ?_⟩
      cases hevents : (recordEvents rs).2 with
      | error fault =>
        rw [hevents] at hread
        cases hread
      | ok events =>
        rw [hevents] at hread
        cases hread
        rw [map_text_shareNames]
  · rintro ⟨rs, hholds, hevents⟩
    obtain ⟨layout, hrecords⟩ := records_eq_ok_iff.2 hholds
    refine ⟨(shareNames (allocateAll events)).1, ?_, map_text_shareNames events⟩
    simp only [result_read, hrecords, hevents]
    rfl

theorem Gives.unique {text : String} {events others : List (Event String)} (h : Gives text events)
    (h' : Gives text others) : events = others := by
  obtain ⟨read, hread, rfl⟩ := h
  obtain ⟨read', hread', rfl⟩ := h'
  rw [hread] at hread'
  cases hread'
  rfl

theorem result_eq_error_iff {text : String} {fault : Fault} :
    (Dump.read text).result = .error fault ↔
      HoldsNothing text fault ∨ ∃ rs, Holds text rs ∧ (recordEvents rs).2 = .error fault := by
  rw [result_read, ← records_eq_error_iff]
  simp only [← records_eq_ok_iff]
  cases (records text.toList).2 with
  | error other => simp
  | ok found =>
    obtain ⟨layout, rs⟩ := found
    cases hevents : (recordEvents rs).2 <;> simp [hevents, Except.map]

/-- Reading a text gives the events of the records that it holds, in their order, where one of them
is an event or there are none at all.  It fails where the text holds nothing without being blank, and
where it holds records and none of them is an event, and nowhere else. -/
theorem read_exactly (text : String) :
    (∀ events, Gives text events ↔
      ∃ rs, Holds text rs ∧ events = eventsOf rs ∧ (events = [] → rs = [])) ∧
    ∀ fault, (Dump.read text).result = .error fault ↔
      HoldsNothing text fault ∨
        fault = .noEvents ∧ ∃ rs, Holds text rs ∧ rs ≠ [] ∧ eventsOf rs = [] := by
  constructor
  · intro events
    rw [gives_iff]
    simp only [recordEvents_eq_ok_iff]
  · intro fault
    rw [result_eq_error_iff]
    simp only [recordEvents_eq_error_iff]
    constructor
    · rintro (hnothing | ⟨rs, hholds, hfault, hevents⟩)
      · exact .inl hnothing
      · exact .inr ⟨hfault, rs, hholds, hevents⟩
    · rintro (hnothing | ⟨hfault, rs, hholds, hevents⟩)
      · exact .inl hnothing
      · exact .inr ⟨rs, hholds, hfault, hevents⟩

end FlowTrace.Dump
