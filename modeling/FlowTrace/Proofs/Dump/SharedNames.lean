import FlowTrace.Proofs.Dump.Sharing
import FlowTrace.Proofs.Trace.Allocations
set_option autoImplicit false

/-!
# Dump: one allocation for each name

Sharing gives every stream name the first allocation of its text in the list (`FirstOf`).  So equal
names have one allocation afterwards and different names have not, and sharing again finds nothing
to do.  In a session the allocation decides how an id is found; which one it is does not show in
any trace or log (`shareNames_invisible`).
-/

namespace FlowTrace

/-- The second call is the first one with every event exchanged for a partner of it. -/
inductive SessionCall.Exchanges (partner : NamedEvent → NamedEvent → Prop) :
    SessionCall → SessionCall → Prop where
  | trace {buffer buffer' : List NamedEvent} (w : Window) :
    List.Forall₂ partner buffer buffer' → Exchanges partner (.trace buffer w) (.trace buffer' w)
  | log {buffer buffer' : List NamedEvent} (w : Window) :
    List.Forall₂ partner buffer buffer' → Exchanges partner (.log buffer w) (.log buffer' w)
  | clear : Exchanges partner .clear .clear
  | reset : Exchanges partner .reset .reset

/-- Lists look the same through a function if they do so place by place. -/
theorem map_eq_map_iff_forall₂ {α β : Type} {f : α → β} {xs xs' : List α} :
    xs.map f = xs'.map f ↔ List.Forall₂ (fun x x' => f x = f x') xs xs' := by
  rw [← List.forall₂_eq_eq_eq, List.forall₂_map_left_iff, List.forall₂_map_right_iff]

theorem SessionCall.Exchanges.bare_eq {partner : NamedEvent → NamedEvent → Prop}
    (hpartner : ∀ e e', partner e e' → e.bare = e'.bare) {c c' : SessionCall}
    (h : c.Exchanges partner c') : c.bare = c'.bare := by
  cases h with
  | trace w hbuffer =>
    exact congrArg (SessionCall.trace · w) (map_eq_map_iff_forall₂.2 (hbuffer.imp hpartner))
  | log w hbuffer =>
    exact congrArg (SessionCall.log · w) (map_eq_map_iff_forall₂.2 (hbuffer.imp hpartner))
  | clear => rfl
  | reset => rfl

namespace Dump

variable {names : SharedNames} {seen : List StreamName}

/-! ## The first of each text -/

/-- The shared name of a text is the first one of that text among the names seen. -/
def FirstOf (names : SharedNames) (seen : List StreamName) : Prop :=
  ∀ text : String, names[text]? = seen.find? fun name => name.text = text

theorem firstOf_empty : FirstOf Std.HashMap.emptyWithCapacity [] := by
  intro text
  rw [Std.HashMap.getElem?_emptyWithCapacity, List.find?_nil]

theorem FirstOf.keepsTexts (h : FirstOf names seen) : KeepsTexts names := by
  intro text name hname
  rw [h text] at hname
  simpa using List.find?_some hname

/-- A name that is shared stays so when more names are seen. -/
theorem FirstOf.mono {more : SharedNames} {others : List StreamName} (h : FirstOf names seen)
    (hmore : FirstOf more (seen ++ others)) {text : String} {name : StreamName}
    (hname : names[text]? = some name) : more[text]? = some name := by
  rw [h text] at hname
  rw [hmore text, List.find?_append, hname, Option.some_or]

/-- A name of a text that is shared already is never the first. -/
theorem FirstOf.append_known (h : FirstOf names seen) {name shared : StreamName}
    (hshared : names[name.text]? = some shared) : FirstOf names (seen ++ [name]) := by
  intro text
  rw [List.find?_append, ← h text]
  by_cases hsame : name.text = text
  · rw [← hsame, hshared, Option.some_or]
  · simp [hsame]

/-- A name of a new text is the first. -/
theorem FirstOf.append_new (h : FirstOf names seen) {name : StreamName}
    (hnew : names[name.text]? = none) :
    FirstOf (names.insert name.text name) (seen ++ [name]) := by
  intro text
  rw [List.find?_append, ← h text, Std.HashMap.getElem?_insert]
  by_cases hsame : name.text = text
  · rw [← hsame, hnew]
    simp
  · simp [hsame]

theorem firstOf_share (h : FirstOf names seen) (e : NamedEvent) :
    FirstOf (share names e).2 (seen ++ e.stream.toList) := by
  obtain ⟨hnone, heq⟩ | ⟨name, shared, hname, hshared, heq⟩ | ⟨name, hname, hnew, heq⟩ :=
    share_cases names e
  · rwa [heq, hnone, Option.toList_none, List.append_nil]
  · rw [heq, hname]
    exact h.append_known hshared
  · rw [heq, hname]
    exact h.append_new hnew

/-- The name that an event has after sharing is the shared name of its text. -/
theorem getElem?_share (h : KeepsTexts names) {e : NamedEvent} {name : StreamName}
    (hname : (share names e).1.stream = some name) :
    (share names e).2[name.text]? = some name := by
  obtain ⟨hnone, heq⟩ | ⟨own, shared, -, hshared, heq⟩ | ⟨own, hown, -, heq⟩ := share_cases names e
  · rw [heq, hnone] at hname
    cases hname
  · rw [heq] at hname ⊢
    cases hname
    rwa [h _ _ hshared]
  · rw [heq, hown] at hname
    cases hname
    rw [heq, Std.HashMap.getElem?_insert_self]

/-- An event that was shared has nothing left to share. -/
theorem share_share (h : KeepsTexts names) (e : NamedEvent) :
    share names (share names e).1 = share names e := by
  obtain ⟨-, heq⟩ | ⟨name, shared, -, hshared, heq⟩ | ⟨name, -, -, heq⟩ := share_cases names e
  · rw [heq, heq]
  · rw [heq]
    simp only [share, h _ _ hshared, hshared]
  · rw [heq, heq]

/-! ## Whole lists -/

theorem firstOf_mapThrough (h : FirstOf names seen) (events : List NamedEvent) :
    FirstOf (mapThrough share names events).2 (seen ++ events.filterMap Event.stream) := by
  induction events generalizing names seen with
  | nil => rwa [List.filterMap_nil, List.append_nil]
  | cons e events ih =>
    have hstep := ih (firstOf_share h e)
    rw [List.append_assoc] at hstep
    rw [mapThrough_cons]
    cases hstream : e.stream with
    | none => simpa [hstream] using hstep
    | some name => simpa [hstream] using hstep

/-- In the end every event has the shared name of its text. -/
theorem getElem?_mapThrough (h : FirstOf names seen) {events : List NamedEvent} {e : NamedEvent}
    (he : e ∈ (mapThrough share names events).1) {name : StreamName}
    (hname : e.stream = some name) :
    (mapThrough share names events).2[name.text]? = some name := by
  induction events generalizing names seen with
  | nil => cases he
  | cons first events ih =>
    rw [mapThrough_cons] at he ⊢
    rcases List.mem_cons.1 he with rfl | he
    -- the name of the first event is shared at once, and the names of later events leave it so
    · have hstep := firstOf_share h first
      exact hstep.mono (firstOf_mapThrough hstep events) (getElem?_share h.keepsTexts hname)
    · exact ih (firstOf_share h first) he

theorem mapThrough_share_share (h : KeepsTexts names) (events : List NamedEvent) :
    mapThrough share names (mapThrough share names events).1 = mapThrough share names events := by
  induction events generalizing names with
  | nil => rfl
  | cons e events ih =>
    rw [mapThrough_cons, mapThrough_cons, share_share h, ih (keepsTexts_share h e)]

variable (events : List NamedEvent)

theorem shareNames_shareNames : shareNames (shareNames events).1 = shareNames events :=
  mapThrough_share_share keepsTexts_empty events

theorem firstOf_shareNames : FirstOf (shareNames events).2 (events.filterMap Event.stream) :=
  firstOf_mapThrough firstOf_empty events

theorem getElem?_shareNames {e : NamedEvent} (he : e ∈ (shareNames events).1) {name : StreamName}
    (hname : e.stream = some name) : (shareNames events).2[name.text]? = some name :=
  getElem?_mapThrough firstOf_empty he hname

/-- Names that are equal have one allocation after sharing. -/
theorem stream_eq_iff_of_shareNames {e e' : NamedEvent} (he : e ∈ (shareNames events).1)
    (he' : e' ∈ (shareNames events).1) :
    e.stream = e'.stream ↔ e.stream.map StreamName.text = e'.stream.map StreamName.text := by
  refine ⟨fun h => by rw [h], fun h => ?_⟩
  cases hname : e.stream with
  | none =>
    rw [hname, Option.map_none] at h
    exact (Option.map_eq_none_iff.1 h.symm).symm
  | some name =>
    rw [hname, Option.map_some] at h
    obtain ⟨name', hname', htext⟩ := Option.map_eq_some_iff.1 h.symm
    have hshared := getElem?_shareNames events he hname
    rw [← htext, getElem?_shareNames events he' hname'] at hshared
    rw [hname', hshared]

/-- An event and what sharing made of it are the same up to allocations. -/
theorem bare_eq_of_mem_zip {e e' : NamedEvent} (h : (e, e') ∈ events.zip (shareNames events).1) :
    e.bare = e'.bare := by
  have hbare : events.map Event.bare = (shareNames events).1.map Event.bare :=
    Event.map_bare_eq_of_texts (text_shareNames events).symm
  exact List.forall₂_zip (map_eq_map_iff_forall₂.1 hbare) h

/-- Sharing stream names keeps the events but for the allocations of the names.  Afterwards two
events have one allocation if their names are equal, and only then; it is the first one of that text
in the list.  Sharing again changes nothing.  And in a session that came about by any calls, more
calls with the events from before sharing and the same calls with the events from after it return
the same. -/
theorem shareNames_invisible :
    (shareNames events).1.map (Event.mapStream StreamName.text) =
        events.map (Event.mapStream StreamName.text) ∧
      (∀ e ∈ (shareNames events).1, ∀ e' ∈ (shareNames events).1,
        (e.stream = e'.stream ↔ e.stream.map StreamName.text = e'.stream.map StreamName.text)) ∧
      (∀ e ∈ (shareNames events).1, ∀ name, e.stream = some name →
        (events.filterMap Event.stream).find? (fun other => other.text = name.text) = some name) ∧
      shareNames (shareNames events).1 = shareNames events ∧
      ∀ (s : Session) (calls calls' : List SessionCall), s.Reachable →
        List.Forall₂ (SessionCall.Exchanges fun e e' => (e, e') ∈ events.zip (shareNames events).1)
          calls calls' →
        (s.run calls).1 = (s.run calls').1 := by
  refine ⟨text_shareNames events, ?_, ?_, shareNames_shareNames events, ?_⟩
  · exact fun e he e' he' => stream_eq_iff_of_shareNames events he he'
  · intro e he name hname
    rw [← firstOf_shareNames events name.text, getElem?_shareNames events he hname]
  · intro s calls calls' hs hcalls
    refine Session.run_eq_of_bare hs.faithful (map_eq_map_iff_forall₂.2 (hcalls.imp ?_))
    exact fun c c' hexchanges => hexchanges.bare_eq fun e e' => bare_eq_of_mem_zip events

/-- The handover with one allocation for both ends of its packet, the one that comes first. -/
theorem shareNames_handover : (shareNames handover).1 = handover.map Event.bare := by
  simp [shareNames, handover, mapThrough_cons, share, Event.bare, Event.mapStream]

/-- In the handover the second and the fourth event have one allocation after sharing, and a trace
and a log of it return the same as before. -/
theorem shareNames_invisible_handover :
    ∃ e e' : NamedEvent,
      (shareNames handover).1[1]? = some e ∧ (shareNames handover).1[3]? = some e' ∧
      handover[1]?.map Event.stream ≠ handover[3]?.map Event.stream ∧ e.stream = e'.stream ∧
      (handover.filterMap Event.stream).find? (fun other => other.text = "frames") =
        some ⟨"frames", 0⟩ ∧
      Session.traced.Reachable ∧
      (Session.traced.run [.trace handover .firstMinute, .log handover .firstMinute]).1 =
        (Session.traced.run [.trace (shareNames handover).1 .firstMinute,
          .log (shareNames handover).1 .firstMinute]).1 := by
  obtain ⟨-, hsame, hfirst, -, hruns⟩ := shareNames_invisible handover
  have he : (shareNames handover).1[1]? = some (Event.bare handover[1]) := by
    rw [shareNames_handover]
    rfl
  have he' : (shareNames handover).1[3]? = some (Event.bare handover[3]) := by
    rw [shareNames_handover]
    rfl
  have hmem := List.mem_of_getElem? he
  have hmem' := List.mem_of_getElem? he'
  have hbuffer : List.Forall₂ (fun e e' => (e, e') ∈ handover.zip (shareNames handover).1)
      handover (shareNames handover).1 :=
    List.forall₂_iff_zip.2 ⟨(length_mapThrough share _ handover).symm, fun h => h⟩
  refine ⟨_, _, he, he', by decide, (hsame _ hmem _ hmem').2 rfl, hfirst _ hmem _ rfl,
    Session.reachable_traced, hruns _ _ _ Session.reachable_traced ?_⟩
  exact .cons (.trace .firstMinute hbuffer) (.cons (.log .firstMinute hbuffer) .nil)

end Dump

end FlowTrace
