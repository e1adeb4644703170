import FlowTrace.Dump.Reader
set_option autoImplicit false

/-!
# Dump: sharing keeps texts

Allocations do not show in texts: giving every event a stream name of its own and sharing equal ones
again leaves the events as they are, as long as every shared name is filed under its own text.
-/

namespace FlowTrace.Dump

/-- Every shared name is filed under its own text. -/
def KeepsTexts (names : SharedNames) : Prop :=
  ∀ (text : String) (name : StreamName), names[text]? = some name → name.text = text

variable {names : SharedNames}

/-- What sharing can do to an event: it has no stream name, or a name of its text is shared already, or
its own name is the one to share. -/
theorem share_cases (names : SharedNames) (e : Event StreamName) :
    (e.stream = none ∧ share names e = (e, names)) ∨
    (∃ name shared, e.stream = some name ∧ names[name.text]? = some shared ∧
      share names e = ({ e with stream := some shared }, names)) ∨
    ∃ name, e.stream = some name ∧ names[name.text]? = none ∧
      share names e = (e, names.insert name.text name) := by
  cases hstream : e.stream with
  | none => exact .inl ⟨rfl, by simp [share, hstream]⟩
  | some name =>
    cases hname : names[name.text]? with
    | some shared => exact .inr (.inl ⟨name, shared, rfl, hname, by simp [share, hstream, hname]⟩)
    | none => exact .inr (.inr ⟨name, rfl, hname, by simp [share, hstream, hname]⟩)

theorem text_share (h : KeepsTexts names) (e : Event StreamName) :
    (share names e).1.mapStream StreamName.text = e.mapStream StreamName.text := by
  obtain ⟨-, heq⟩ | ⟨name, shared, hname, hshared, heq⟩ | ⟨name, -, -, heq⟩ := share_cases names e
  · rw [heq]
  · rw [heq]
    simp only [Event.mapStream, hname, Option.map_some, h _ _ hshared]
  · rw [heq]

theorem keepsTexts_share (h : KeepsTexts names) (e : Event StreamName) :
    KeepsTexts (share names e).2 := by
  obtain ⟨-, heq⟩ | ⟨name, shared, -, -, heq⟩ | ⟨name, -, -, heq⟩ := share_cases names e
  · rwa [heq]
  · rwa [heq]
  · rw [heq]
    intro text other hother
    rw [Std.HashMap.getElem?_insert] at hother
    split at hother
    · rename_i hsame
      cases hother
      exact beq_iff_eq.1 hsame
    · exact h text other hother

theorem map_text_mapThrough (h : KeepsTexts names) (events : List (Event StreamName)) :
    (mapThrough share names events).1.map (Event.mapStream StreamName.text) =
      events.map (Event.mapStream StreamName.text) := by
  induction events generalizing names with
  | nil => rfl
  | cons e events ih =>
    rw [mapThrough_cons, List.map_cons, List.map_cons, text_share h, ih (keepsTexts_share h e)]

theorem keepsTexts_empty : KeepsTexts Std.HashMap.emptyWithCapacity := by
  intro text name hname
  rw [Std.HashMap.getElem?_emptyWithCapacity] at hname
  cases hname

/-- Sharing keeps the events up to allocations. -/
theorem text_shareNames (events : List (Event StreamName)) :
    (shareNames events).1.map (Event.mapStream StreamName.text) =
      events.map (Event.mapStream StreamName.text) :=
  map_text_mapThrough keepsTexts_empty events

theorem text_allocate (e : Event String) (allocation : Nat) :
    (allocate e allocation).mapStream StreamName.text = e := by
  cases e with
  | mk time node inputStamp packetStamp kind stream payload thread isFinish =>
    cases stream <;> rfl

/-- Numbering elements changes nothing for a function that takes no notice of the numbers. -/
theorem map_zipIdx_of_eq {α β : Type} {f : α × Nat → β} {g : α → β} {l : List α}
    (h : ∀ a ∈ l, ∀ i, f (a, i) = g a) (start : Nat) : (l.zipIdx start).map f = l.map g := by
  calc (l.zipIdx start).map f
      = (l.zipIdx start).map fun x => g x.1 :=
        List.map_congr_left fun x hx => h x.1 (List.fst_mem_of_mem_zipIdx hx) x.2
    _ = ((l.zipIdx start).map Prod.fst).map g := by rw [List.map_map]; rfl
    _ = l.map g := by rw [List.zipIdx_map_fst]

theorem map_text_allocateAll (events : List (Event String)) :
    (allocateAll events).map (Event.mapStream StreamName.text) = events := by
  calc (allocateAll events).map (Event.mapStream StreamName.text)
      = events.zipIdx.map fun x => (allocate x.1 x.2).mapStream StreamName.text := List.map_map
    _ = events.map id := map_zipIdx_of_eq (fun e _ i => text_allocate e i) 0
    _ = events := List.map_id events

/-- Allocating stream names and sharing them keeps the events. -/
theorem map_text_shareNames (events : List (Event String)) :
    (shareNames (allocateAll events)).1.map (Event.mapStream StreamName.text) = events := by
  rw [text_shareNames, map_text_allocateAll]

end FlowTrace.Dump
