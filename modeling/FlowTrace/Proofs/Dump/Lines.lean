import Mathlib.Data.List.Forall2
import FlowTrace.Proofs.Dump.Records
import FlowTrace.Proofs.Json.Layouts
import FlowTrace.Proofs.Json.Locality
set_option autoImplicit false

/-!
# Dump: dumps made of lines

Lines that are an object each hold these objects, whatever stands in them and around them
(`holds_objectLines`).  Several of them are no document, because a document ends where the first of
them does.  One line alone is a document, and there an array under a known name goes before the
object itself (`IsWrapper`).
-/

namespace FlowTrace

theorem Json.mem_of_knownFields? {names : List String} {fields : List (Option String × Json)}
    {known : Json.Record} (h : Json.knownFields? names fields = some known) {name : String}
    {value : Json} (hmem : (name, value) ∈ known) : (some name, value) ∈ fields := by
  induction fields generalizing known with
  | nil =>
    cases h
    cases hmem
  | cons f fields ih =>
    obtain ⟨_ | found, value'⟩ := f
    · cases h
    · obtain ⟨rest, hrest, rfl⟩ := Option.map_eq_some_iff.1 h
      split at hmem
      · rcases List.mem_cons.1 hmem with heq | hmem
        · cases heq
          exact List.mem_cons_self
        · exact List.mem_cons_of_mem _ (ih hrest hmem)
      · exact List.mem_cons_of_mem _ (ih hrest hmem)

/-- An object that is an event has a time. -/
theorem Event.hasTime_of_ofJson? {fields : List (Option String × Json)} {e : Event String}
    (h : ofJson? .lastCounts (.object fields) = some e) :
    (Json.lastField? "event_time" fields).isSome = true := by
  obtain ⟨record, hrecord, h⟩ := Option.bind_eq_some_iff.1 h
  obtain ⟨time, htime, -⟩ := Option.bind_eq_some_iff.1 h
  obtain ⟨value, hvalue, -⟩ := Option.bind_eq_some_iff.1 htime
  obtain ⟨before, after, hsplit, -⟩ := List.lookup_eq_some_iff.1 hvalue
  have hmem : ("event_time", value) ∈ record := by simp [hsplit]
  unfold Json.record? at hrecord
  cases hknown : Json.knownFields? fieldNames fields with
  | none => simp [hknown] at hrecord
  | some known =>
    simp only [hknown, Option.some.injEq] at hrecord
    rw [← hrecord, List.mem_reverse] at hmem
    exact List.lookup_isSome_iff.2 ⟨_, List.mem_reverse.2 (Json.mem_of_knownFields? hknown hmem),
      beq_self_eq_true _⟩

namespace Dump

open Json

/-! ## One line -/

/-- The line is a document by itself, an object with these fields. -/
structure IsObjectLine (line : List Char) (fields : List (Option String × Json)) : Prop where
  oneLine : '\n' ∉ line
  parse : parseUsable? line = some (.object fields)

theorem isBlank_of_isSpace {c : Char} (h : isSpace c = true) : Text.isBlank c = true := by
  simp only [isSpace, Bool.or_eq_true, beq_iff_eq] at h
  rcases h with ((rfl | rfl) | rfl) | rfl <;> decide

/-- Trimming leaves of an object what is read as the object.  What follows the object decides whether
it is the whole document. -/
theorem parse?_around {cs : List Char} {fields : List (Option String × Json)}
    (h : parse? cs = some (.object fields)) :
    '\x7b' ∈ cs ∧ parse? (Text.trim cs) = some (.object fields) ∧
      ∀ {rest : List Char}, EndsNumber rest →
        parse? (Text.trimStart (cs ++ rest)) =
          if skipSpace rest = [] then some (.object fields) else none := by
  obtain ⟨front, used, back, rfl, hfront, hback, hreads, inner, rfl⟩ := parse?_eq_some_iff.1 h
  have hblank : ∀ {cs}, IsBlank cs → ∀ c ∈ cs, Text.isBlank c = true :=
    fun hcs c hc => isBlank_of_isSpace (hcs c hc)
  refine ⟨by simp, ?_, fun {rest} hrest => ?_⟩
  · rw [Text.trim_around (hblank hfront) (hblank hback), Text.trim_between (by decide) (by decide)]
    exact hreads.parse?_eq
  · rw [← skipSpace_append hback, ← hreads.parse?_append (endsNumber_blank hback hrest),
      Text.trimStart]
    simp only [List.append_assoc, List.cons_append]
    rw [List.dropWhile_append_of_pos (hblank hfront), List.dropWhile_cons_of_neg (by decide)]

theorem skipSpace_ne_nil_of_mem {cs : List Char} (h : '\x7b' ∈ cs) : skipSpace cs ≠ [] := by
  intro hnil
  exact absurd (List.dropWhile_eq_nil_iff.1 hnil _ h) (by decide)

section

variable {line : List Char} {fields : List (Option String × Json)} (h : IsObjectLine line fields)

include h

theorem IsObjectLine.parse?_eq : parse? line = some (.object fields) :=
  (Option.filter_eq_some_iff.1 h.parse).1

theorem IsObjectLine.usable_eq : usable (.object fields) = true :=
  (Option.filter_eq_some_iff.1 h.parse).2

theorem IsObjectLine.trimmedValue?_eq : trimmedValue? line = some (.object fields) :=
  parseUsable?_eq (parse?_around h.parse?_eq).2.1 h.usable_eq

end

/-! ## Lines -/

/-- Trimming a line takes a carriage return at its end with it. -/
theorem trim_line (line : List Char) :
    Text.trim (if line.getLast? = some '\r' then line.dropLast else line) = Text.trim line := by
  split
  · rename_i hlast
    have hreturn : ∀ c ∈ ['\r'], Text.isBlank c = true := List.forall_mem_singleton.2 (by decide)
    have hline : line = [] ++ (line.dropLast ++ ['\r']) :=
      (List.dropLast_append_getLast? _ hlast).symm
    conv => rhs; rw [hline, Text.trim_around (List.forall_mem_nil _) hreturn]
  · rfl

/-- The values of lines that were put together are the values of these lines. -/
theorem lineValues_intercalate {ls : List (List Char)} (hne : ls ≠ []) (h : ∀ l ∈ ls, '\n' ∉ l) :
    lineValues (['\n'].intercalate ls) = ls.filterMap trimmedValue? := by
  rw [lineValues, lines, List.splitOn_intercalate '\n' h hne, List.filterMap_map]
  simp only [Function.comp_def, trimmedValue?, trim_line]
  rfl

section

variable {ls : List (List Char)} {objects : List (List (Option String × Json))}

theorem oneLine_of_mem (h : List.Forall₂ IsObjectLine ls objects) : ∀ l ∈ ls, '\n' ∉ l := by
  induction h with
  | nil => exact List.forall_mem_nil _
  | cons hline _ ih => exact List.forall_mem_cons.2 ⟨hline.oneLine, ih⟩

theorem filterMap_trimmedValue? (h : List.Forall₂ IsObjectLine ls objects) :
    ls.filterMap trimmedValue? = objects.map Json.object := by
  induction h with
  | nil => rfl
  | cons hline _ ih =>
    rw [List.filterMap_cons_some hline.trimmedValue?_eq, ih, List.map_cons]

variable {text : String} {tail : List (List Char)} (htail : tail = [] ∨ tail = [[]])

include htail

/-- One line alone is a document. -/
theorem document?_of_line {line : List Char} {fields : List (Option String × Json)}
    (h : IsObjectLine line fields) (htext : text.toList = ['\n'].intercalate (line :: tail)) :
    document? text = some (.object fields) := by
  obtain ⟨rest, hrest, hends, hskip⟩ : ∃ rest,
      text.toList = line ++ rest ∧ EndsNumber rest ∧ skipSpace rest = [] := by
    rcases htail with rfl | rfl
    · exact ⟨[], by simp [htext], endsNumber_nil, rfl⟩
    · exact ⟨['\n'], by simp [htext, List.intercalate_cons_cons], endsNumber_newline [], rfl⟩
  refine parseUsable?_eq ?_ h.usable_eq
  rw [hrest, (parse?_around h.parse?_eq).2.2 hends, if_pos hskip]

/-- Several lines are no document, as a document ends with the first of them, and their records are
the lines. -/
theorem holds_lines {line next : List Char}
    (h : List.Forall₂ IsObjectLine (line :: next :: ls) objects)
    (htext : text.toList = ['\n'].intercalate (line :: next :: ls ++ tail)) :
    Holds text (objects.map Json.object) := by
  have hvalues : lineValues text.toList = objects.map Json.object := by
    have htailEnd : ∀ l ∈ tail, '\n' ∉ l := by
      rcases htail with rfl | rfl
      · exact List.forall_mem_nil _
      · exact List.forall_mem_singleton.2 List.not_mem_nil
    have htailValues : tail.filterMap trimmedValue? = [] := by
      rcases htail with rfl | rfl <;> rfl
    rw [htext, lineValues_intercalate (by simp)
        (List.forall_mem_append.2 ⟨oneLine_of_mem h, htailEnd⟩),
      List.filterMap_append, htailValues, List.append_nil, filterMap_trimmedValue? h]
  rw [← hvalues]
  obtain _ | ⟨hline, hmore⟩ := h
  obtain _ | ⟨hnext, -⟩ := hmore
  obtain ⟨rest, hrest⟩ := Text.exists_intercalate_cons ['\n'] next (ls ++ tail)
  have htext' : text.toList = line ++ '\n' :: (next ++ rest) := by
    rw [htext, ← hrest]
    simp [List.intercalate_cons_cons]
  have hbrace : '\x7b' ∈ '\n' :: (next ++ rest) :=
    List.mem_cons_of_mem _ (List.mem_append_left _ (parse?_around hnext.parse?_eq).1)
  have hdocument : document? text = none := by
    rw [document?, parseUsable?, htext', (parse?_around hline.parse?_eq).2.2 (endsNumber_newline _),
      if_neg (skipSpace_ne_nil_of_mem hbrace)]
    rfl
  have hwritten : IsWritten text := ⟨'\x7b', htext' ▸ List.mem_append_right _ hbrace, by decide⟩
  refine .lines hwritten hdocument ?_
  rw [hvalues]
  exact List.cons_ne_nil _ _

/-- A text of lines that are an object each holds these objects.  Only an object that is alone has to
count for itself. -/
theorem holds_objectLines (h : List.Forall₂ IsObjectLine ls objects) (hne : ls ≠ [])
    (hlone : ∀ fields, objects = [fields] → Contains (.object fields) [.object fields])
    (htext : text.toList = ['\n'].intercalate (ls ++ tail)) :
    Holds text (objects.map Json.object) := by
  cases h with
  | nil => exact absurd rfl hne
  | cons hline hmore =>
    cases hmore with
    | nil => exact .document (document?_of_line htail hline htext) (hlone _ rfl)
    | cons hnext hrest => exact holds_lines htail (.cons hline (.cons hnext hrest)) htext

end

/-! ## Dumps -/

/-- The line is a document by itself, an object, and the object is the event. -/
structure IsEventLine (line : String) (e : Event String) : Prop where
  oneLine : '\n' ∉ line.toList
  exists_fields : ∃ fields, parseUsable? line.toList = some (.object fields) ∧
    Event.ofJson? .lastCounts (.object fields) = some e

/-- The line is an object that holds an array under a known name. -/
def IsWrapper (line : String) : Prop :=
  ∃ fields, parseUsable? line.toList = some (.object fields) ∧ ¬ NoArray fields

theorem exists_objects {ls : List String} {events : List (Event String)}
    (h : List.Forall₂ IsEventLine ls events) :
    ∃ objects, List.Forall₂ IsObjectLine (ls.map String.toList) objects ∧
      List.Forall₂ (fun fields e => Event.ofJson? .lastCounts (.object fields) = some e) objects
        events := by
  induction h with
  | nil => exact ⟨[], .nil, .nil⟩
  | cons hline _ ih =>
    obtain ⟨fields, hparse, hevent⟩ := hline.exists_fields
    obtain ⟨objects, hobjects, hevents⟩ := ih
    exact ⟨fields :: objects, .cons ⟨hline.oneLine, hparse⟩ hobjects, .cons hevent hevents⟩

theorem eventsOf_objects {objects : List (List (Option String × Json))} {events : List (Event String)}
    (h : List.Forall₂ (fun fields e => Event.ofJson? .lastCounts (.object fields) = some e) objects
      events) : eventsOf (objects.map Json.object) = events := by
  induction h with
  | nil => rfl
  | cons hevent _ ih =>
    rw [List.map_cons, eventsOf, List.filterMap_cons_some hevent]
    exact congrArg (List.cons _) ih

/-- Both ways to put lines together leave at most an empty line at the end. -/
theorem exists_tail {ls : List String} {text : String}
    (h : text ∈ [Text.joinWith "\n" ls, Text.lines ls]) :
    ∃ tail : List (List Char), (tail = [] ∨ tail = [[]]) ∧
      text.toList = ['\n'].intercalate (ls.map String.toList ++ tail) := by
  rcases List.mem_cons.1 h with rfl | h
  · exact ⟨[], .inl rfl, by rw [Text.toList_joinWith, List.append_nil]⟩
  · rw [List.mem_singleton.1 h]
    exact ⟨[[]], .inr rfl, Text.toList_lines _⟩

/-- Lines that are an event each, each with its end or with line ends between them. -/
theorem gives_of_eventLines {ls : List String} {events : List (Event String)}
    (h : List.Forall₂ IsEventLine ls events) (hne : ls ≠ [])
    (hlone : ∀ line, ls = [line] → ¬ IsWrapper line) :
    ∀ text ∈ [Text.joinWith "\n" ls, Text.lines ls], Gives text events := by
  intro text htext
  obtain ⟨tail, htail, hlist⟩ := exists_tail htext
  obtain ⟨objects, hobjects, hevents⟩ := exists_objects h
  have hcounts : ∀ fields, objects = [fields] → Contains (.object fields) [.object fields] := by
    rintro fields rfl
    obtain ⟨line, rfl⟩ : ∃ line, ls = [line] :=
      List.length_eq_one_iff.1 (by simpa using hobjects.length_eq)
    obtain _ | ⟨hline, -⟩ := hobjects
    obtain _ | ⟨hevent, -⟩ := hevents
    have hnone : NoArray fields :=
      not_not.1 fun hsome => hlone line rfl ⟨fields, hline.parse, hsome⟩
    exact .event hnone (Event.hasTime_of_ofJson? hevent)
  have hholds := holds_objectLines htail hobjects (mt List.map_eq_nil_iff.1 hne) hcounts hlist
  refine gives_iff.2 ⟨_, hholds, recordEvents_eq_ok_iff.2 ⟨(eventsOf_objects hevents).symm, ?_⟩⟩
  rintro rfl
  cases hevents
  rfl

/-- Lines that are an event each are read as these events, in their order, and lines behind other lines
as the events of both.  Only a line that is alone has to be no wrapper: of a wrapper the array is
read. -/
theorem read_eventLines {ls : List String} {events : List (Event String)}
    (h : List.Forall₂ IsEventLine ls events) (hne : ls ≠ []) :
    ((∀ line, ls = [line] → ¬ IsWrapper line) →
      ∀ text ∈ [Text.joinWith "\n" ls, Text.lines ls], Gives text events) ∧
    (∀ {line : String} {fields : List (Option String × Json)} {items : List Json}, ls = [line] →
      parseUsable? line.toList = some (.object fields) → FirstArray fields items →
        ∀ text ∈ [Text.joinWith "\n" ls, Text.lines ls], Holds text items) ∧
    ∀ {more : List String} {moreEvents : List (Event String)},
      List.Forall₂ IsEventLine more moreEvents → more ≠ [] →
        ∀ text ∈ [Text.lines ls ++ Text.joinWith "\n" more, Text.lines ls ++ Text.lines more],
          Gives text (events ++ moreEvents) := by
  refine ⟨gives_of_eventLines h hne, ?_, ?_⟩
  · rintro line fields items rfl hparse hfirst text htext
    obtain ⟨tail, htail, hlist⟩ := exists_tail htext
    obtain _ | ⟨hline, -⟩ := h
    exact .document (document?_of_line htail ⟨hline.oneLine, hparse⟩ hlist) (.wrapped hfirst)
  · intro more moreEvents hmore hnonempty text htext
    rw [← Text.joinWith_append ls hnonempty, ← Text.lines_append] at htext
    refine gives_of_eventLines (List.rel_append h hmore) (List.append_ne_nil_of_left_ne_nil hne more)
      (fun line hline => ?_) text htext
    have hlength := congrArg List.length hline
    have hpos : 0 < ls.length ∧ 0 < more.length :=
      ⟨List.length_pos_iff.2 hne, List.length_pos_iff.2 hnonempty⟩
    simp only [List.length_append, List.length_singleton] at hlength
    omega

/-- A line with an array under a name that may hold events. -/
def hidingLine : String := "\x7b\"event_time\":300,\"events\":[]\x7d"

/-- The event that `hidingLine` is. -/
def hiddenEvent : Event String :=
  ⟨⟨0, 300000, by decide⟩, 0, .unset, .unset, .unknown, none, none, 0, false⟩

/-- The fields of `hidingLine`. -/
def hidingFields : List (Option String × Json) :=
  [field "event_time" (.int 300), field "events" (.array [])]

theorem parseUsable?_hidingLine : parseUsable? hidingLine.toList = some (.object hidingFields) := by
  have hchars : hidingLine.toList =
      ['\x7b', '"', 'e', 'v', 'e', 'n', 't', '_', 't', 'i', 'm', 'e', '"', ':', '3', '0', '0', ',',
        '"', 'e', 'v', 'e', 'n', 't', 's', '"', ':', '[', ']', '\x7d'] := by decide +kernel
  rw [hchars]
  exact parseUsable?_eq rfl rfl

theorem isEventLine_hidingLine : IsEventLine hidingLine hiddenEvent where
  oneLine := by decide +kernel
  exists_fields := ⟨hidingFields, parseUsable?_hidingLine, by decide +kernel⟩

theorem firstArray_hidingFields : FirstArray hidingFields [] :=
  ⟨[], "events", _, rfl, rfl, List.forall_mem_nil _⟩

/-- Between other lines the event of such a line is read, and of such a line alone the array. -/
theorem read_eventLines_hiding :
    List.Forall₂ IsEventLine [hidingLine, hidingLine] [hiddenEvent, hiddenEvent] ∧
      Gives (Text.lines [hidingLine, hidingLine]) [hiddenEvent, hiddenEvent] ∧
      Gives (Text.lines [hidingLine, hidingLine] ++ Text.lines [hidingLine, hidingLine])
        [hiddenEvent, hiddenEvent, hiddenEvent, hiddenEvent] ∧
      Holds (Text.lines [hidingLine]) [] := by
  have hline : List.Forall₂ IsEventLine [hidingLine] [hiddenEvent] :=
    .cons isEventLine_hidingLine .nil
  have hlines : List.Forall₂ IsEventLine [hidingLine, hidingLine] [hiddenEvent, hiddenEvent] :=
    .cons isEventLine_hidingLine hline
  obtain ⟨hread, -, hbehind⟩ := read_eventLines hlines (List.cons_ne_nil _ _)
  obtain ⟨-, halone, -⟩ := read_eventLines hline (List.cons_ne_nil _ _)
  exact ⟨hlines, hread (fun line hline => by simp at hline) _ (by simp),
    hbehind hlines (List.cons_ne_nil _ _) _ (by simp),
    halone rfl parseUsable?_hidingLine firstArray_hidingFields _ (by simp)⟩

/-- Alone, such a line is a document with an array of no events. -/
theorem not_gives_hidingLine :
    IsEventLine hidingLine hiddenEvent ∧ Gives hidingLine [] ∧ ¬ Gives hidingLine [hiddenEvent] := by
  have hstart : Text.trimStart hidingLine.toList = hidingLine.toList := by decide +kernel
  have hdocument : document? hidingLine = some (.object hidingFields) := by
    rw [document?, hstart, parseUsable?_hidingLine]
  have hnone : Gives hidingLine [] :=
    gives_iff.2 ⟨[], .document hdocument (.wrapped firstArray_hidingFields), rfl⟩
  exact ⟨isEventLine_hidingLine, hnone, fun hsome => List.cons_ne_nil _ _ (hsome.unique hnone)⟩

end Dump

end FlowTrace
