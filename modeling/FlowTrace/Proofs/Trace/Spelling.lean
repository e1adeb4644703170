import FlowTrace.Proofs.Trace.Growth
import FlowTrace.Proofs.Trace.Reading
set_option autoImplicit false

/-!
# Trace: answers with the ids spelled out

An id says nothing by itself: a stream id stands for a name in the list that comes with the trace,
and a payload id stands for the handle it was given to.  Spelled out, the records of an answer say
what the events of the window and the origin say (`Answer.spelled?_eq`), and no id is left over that
stands for nothing.
-/

namespace FlowTrace

open Entries

/-- A packet with a name and a handle in place of ids. -/
structure SpelledPacket where
  startTime : Option Int64
  finishTime : Option Int64
  packetStamp : Int64
  stream : String
  payload : Option UInt64
  deriving DecidableEq, Repr

/-- A record with its packets spelled out. -/
structure SpelledRecord where
  /-- the record, its packets taken out -/
  task : TaskRecord
  inputs : List SpelledPacket
  outputs : List SpelledPacket
  deriving DecidableEq, Repr

/-- A trace that was returned, and the payload handles in the order of their ids. -/
structure Answer where
  trace : Trace
  handles : List UInt64

namespace Answer

/-- There are no more names and no more handles than ids. -/
def Fits (a : Answer) : Prop := a.trace.NamesFit ∧ a.handles.length ≤ 2147483648

/-- The handle that a payload id was given to. -/
def handleOf? (a : Answer) (id : Int32) : Option UInt64 :=
  match id.toInt with
  | .ofNat place => a.handles[place]?
  | .negSucc _ => none

/-- The packet spelled out; none if one of its ids stands for nothing. -/
def spellPacket? (a : Answer) (p : StreamRecord) : Option SpelledPacket := do
  let stream ← a.trace.nameOf? p
  let payload ← p.payloadId.mapM a.handleOf?
  return { startTime := p.startTime, finishTime := p.finishTime, packetStamp := p.packetStamp,
           stream, payload }

def spellRecord? (a : Answer) (r : TaskRecord) : Option SpelledRecord := do
  let inputs ← r.inputs.mapM a.spellPacket?
  let outputs ← r.outputs.mapM a.spellPacket?
  return { task := { r with inputs := [], outputs := [] }, inputs, outputs }

/-- All records spelled out. -/
def spelled? (a : Answer) : Option (List SpelledRecord) := a.trace.records.mapM a.spellRecord?

end Answer

/-! ## What events say -/

/-- The packet with the name and the handle of the event it is about. -/
def StreamRecord.spelled (p : StreamRecord) (e : NamedEvent) : SpelledPacket where
  startTime := p.startTime
  finishTime := p.finishTime
  packetStamp := p.packetStamp
  stream := StreamName.textOf e.stream
  payload := p.payloadId.map fun _ => e.handle

namespace Frame

/-- The record of the events of one task, spelled out. -/
def spelledTask (f : Frame) (events : List NamedEvent) : SpelledRecord where
  task := { f.taskRecord events with inputs := [], outputs := [] }
  inputs := (events.filter Event.takesIn).map fun e => (f.inputPacket e).spelled e
  outputs := (events.filter Event.putsOut).map fun e => (f.outputPacket e).spelled e

/-- The record of one event for itself, spelled out. -/
def spelledEvent (f : Frame) (e : NamedEvent) : SpelledRecord where
  task := { f.eventRecord e with inputs := [], outputs := [] }
  inputs := ([e].filter Event.takesIn).map fun e => (f.loggedPacket e).spelled e
  outputs := ([e].filter Event.putsOut).map fun e => (f.loggedPacket e).spelled e

/-- The record that an entry opens, spelled out. -/
def spelledOpened (f : Frame) (xs : List Entry) (x : Entry) : SpelledRecord :=
  match x.1.task? with
  | some task => f.spelledTask ((ofTask xs task).map Prod.fst)
  | none => f.spelledEvent x.1

end Frame

/-- The records of a call, spelled out. -/
def SessionCall.spelled (c : SessionCall) (f : Frame) : List SpelledRecord :=
  match c with
  | .trace buffer w => (leads (w.entries buffer)).map (f.spelledOpened (w.entries buffer))
  | .log buffer w => (w.events buffer).map f.spelledEvent
  | .clear => []
  | .reset => []

section

variable (u u' : IdTables) (o : Origin) (events : List NamedEvent)

theorem Frame.spelledTask_eq (members : List NamedEvent) :
    (Frame.mk u o events).spelledTask members = (Frame.mk u' o events).spelledTask members := by
  cases members <;> rfl

/-- Spelled out, a call says the same under any ids. -/
theorem SessionCall.spelled_eq (c : SessionCall) :
    c.spelled ⟨u, o, events⟩ = c.spelled ⟨u', o, events⟩ := by
  cases c with
  | trace buffer w =>
    refine List.map_congr_left fun x _ => ?_
    unfold Frame.spelledOpened
    split
    · exact Frame.spelledTask_eq u u' o events _
    · rfl
  | log buffer w => rfl
  | clear => rfl
  | reset => rfl

end

/-! ## Spelling out what a frame gives -/

theorem mapM_map_eq_some {α β γ : Type} {g : α → β} {h : β → Option γ} {k : α → γ} {as : List α}
    (hk : ∀ a ∈ as, h (g a) = some (k a)) : (as.map g).mapM h = some (as.map k) := by
  induction as with
  | nil => rfl
  | cons a as ih =>
    simp only [List.forall_mem_cons] at hk
    simp [hk.1, ih hk.2]

/-- The answer shows the ids of the frame, and there are enough of them. -/
structure Answer.Reads (a : Answer) (f : Frame) : Prop where
  names : a.trace.streamNames = f.ids.streams.names
  handles : a.handles = f.ids.handles
  fits : a.Fits

namespace Answer.Reads

variable {a : Answer} {f : Frame} (h : a.Reads f)

include h

theorem handleOf?_eq {handle : Option UInt64} (hlisted : handle.getD 0 ∈ f.ids.handles) :
    a.handleOf? (f.ids.payloadId handle) = some (handle.getD 0) := by
  have hfit := h.fits.2
  rw [h.handles] at hfit
  obtain ⟨place, hshown, hplace⟩ := IdTable.exists_place_of_mem hfit hlisted
  have hid : (f.ids.payloadId handle).toInt = place := hshown
  rw [handleOf?, hid, h.handles]
  exact hplace

theorem spellPacket?_eq {e : NamedEvent} {p : StreamRecord}
    (hname : StreamName.textOf e.stream ∈ f.ids.streams.names)
    (hstream : p.streamId = f.ids.streamId e.stream)
    (hpayload : p.payloadId = none ∨
      (e.handle ∈ f.ids.handles ∧ p.payloadId = some (f.ids.payloadId e.payload))) :
    a.spellPacket? p = some (p.spelled e) := by
  have hread : a.trace.nameOf? p = some (StreamName.textOf e.stream) :=
    Trace.nameOf?_eq h.names h.fits.1 hname hstream
  rcases hpayload with hnone | ⟨hlisted, hsome⟩
  · simp [spellPacket?, StreamRecord.spelled, hread, hnone]
  · have hhandle : a.handleOf? (f.ids.payloadId e.payload) = some e.handle := h.handleOf?_eq hlisted
    simp [spellPacket?, StreamRecord.spelled, hread, hsome, hhandle]

/-- The record of some events is spelled out if the names of its packets are listed and the handles
of those taken in. -/
theorem spellRecord?_taskRecord {events : List NamedEvent}
    (hnames : ∀ e ∈ events, StreamName.textOf e.stream ∈ f.ids.streams.names)
    (hhandles : ∀ e ∈ events, e.takesIn = true → e.handle ∈ f.ids.handles) :
    a.spellRecord? (f.taskRecord events) = some (f.spelledTask events) := by
  have hinputs : ((events.filter Event.takesIn).map f.inputPacket).mapM a.spellPacket? =
      some (f.spelledTask events).inputs := by
    refine mapM_map_eq_some fun e he => ?_
    obtain ⟨hin, htaken⟩ := List.mem_filter.1 he
    exact h.spellPacket?_eq (hnames e hin) rfl (.inr ⟨hhandles e hin htaken, rfl⟩)
  have houtputs : ((events.filter Event.putsOut).map f.outputPacket).mapM a.spellPacket? =
      some (f.spelledTask events).outputs := by
    refine mapM_map_eq_some fun e he => ?_
    exact h.spellPacket?_eq (hnames e (List.mem_filter.1 he).1) rfl (.inl rfl)
  rw [spellRecord?, f.taskRecord_inputs, f.taskRecord_outputs, hinputs, houtputs]
  rfl

theorem spellRecord?_eventRecord {e : NamedEvent}
    (hname : e.describesHop = true → StreamName.textOf e.stream ∈ f.ids.streams.names)
    (hhandle : e.describesHop = true → e.handle ∈ f.ids.handles) :
    a.spellRecord? (f.eventRecord e) = some (f.spelledEvent e) := by
  have hpacket : e.describesHop = true →
      a.spellPacket? (f.loggedPacket e) = some ((f.loggedPacket e).spelled e) := by
    intro hhop
    exact h.spellPacket?_eq (hname hhop) rfl (.inr ⟨hhandle hhop, rfl⟩)
  cases hhop : e.describesHop <;> cases hfinish : e.isFinish <;>
    simp [spellRecord?, Frame.eventRecord, Frame.spelledEvent, Event.takesIn, Event.putsOut, hhop,
      hfinish, hpacket]

/-- The records of a call are spelled out if what the call asks for is listed. -/
theorem mapM_records {c : SessionCall} (hnames : c.texts ⊆ f.ids.streams.names)
    (hhandles : c.handles ⊆ f.ids.handles) :
    (c.records f).mapM a.spellRecord? = some (c.spelled f) := by
  cases c with
  | trace buffer w =>
    refine mapM_map_eq_some fun x _ => ?_
    cases htask : x.1.task? with
    | some task =>
      have hmember : ∀ e ∈ (ofTask (w.entries buffer) task).map Prod.fst,
          e ∈ w.events buffer ∧ e.task? = some task := by
        intro e he
        rw [map_fst_ofTask, w.map_fst_entries, List.mem_filter] at he
        exact ⟨he.1, of_decide_eq_true he.2⟩
      simp only [Frame.openedRecord, Frame.spelledOpened, htask]
      refine h.spellRecord?_taskRecord (fun e he => hnames ?_) (fun e he htaken => hhandles ?_)
      · exact SessionCall.mem_texts_trace (hmember e he).1 (Event.isTask_of_task? (hmember e he).2)
      · exact SessionCall.mem_handles_trace (hmember e he).1 htaken
    | none =>
      have hplain : ¬ x.1.describesHop = true := by
        simp [Event.describesHop, Event.isHop_of_task?_eq_none htask]
      simp only [Frame.openedRecord, Frame.spelledOpened, htask]
      exact h.spellRecord?_eventRecord (fun hhop => absurd hhop hplain)
        (fun hhop => absurd hhop hplain)
  | log buffer w =>
    refine mapM_map_eq_some fun e he => ?_
    refine h.spellRecord?_eventRecord (fun hhop => hnames ?_) (fun hhop => hhandles ?_)
    · exact List.mem_flatMap.2 ⟨e, he, by simp [Event.loggedTexts, hhop]⟩
    · exact List.mem_flatMap.2 ⟨e, he, by simp [Event.loggedHandles, hhop]⟩
  | clear => rfl
  | reset => rfl

end Answer.Reads

/-! ## Answers of a session -/

namespace Session

/-- What a call returns, with the handles as they are after it. -/
def answer? (s : Session) (c : SessionCall) : Option Answer :=
  (s.call c).1.map fun t => ⟨t, (s.call c).2.ids.handles⟩

variable {s : Session} {c : SessionCall} {events : List NamedEvent} {t : Trace}

theorem Answers.answer?_eq (h : s.Answers c events t) :
    s.answer? c = some ⟨t, (s.call c).2.ids.handles⟩ := by
  rw [answer?, h.returned, Option.map_some]

/-- There are ids for everything if there are some for what was there and what the call asks for. -/
theorem fits_of_answer? (hs : s.ids.Faithful) (hc : c ≠ .reset) {a : Answer}
    (ha : s.answer? c = some a)
    (hnames : s.streamNames.length + c.texts.length ≤ 2147483648)
    (hhandles : s.ids.handles.length + c.handles.length ≤ 2147483648) : a.Fits := by
  obtain ⟨t, ht, rfl⟩ := Option.map_eq_some_iff.1 ha
  have hlisted : t.streamNames = (s.call c).2.streamNames := by
    cases c <;> cases ht <;> rfl
  constructor
  · rw [Trace.NamesFit, hlisted, names_call hs hc]
    exact Nat.le_trans (length_eraseDups_le _) (by rwa [List.length_append])
  · rw [handles_call hs hc]
    exact Nat.le_trans (length_eraseDups_le _) (by rwa [List.length_append])

/-- An answer says what the events of its window say from the origin on. -/
theorem Answers.spelled?_eq (hs : s.ids.Faithful) (h : s.Answers c events t)
    (hc : c.events? = some events) (hfits : Answer.Fits ⟨t, (s.call c).2.ids.handles⟩)
    (u : IdTables) :
    Answer.spelled? ⟨t, (s.call c).2.ids.handles⟩ =
      some (c.spelled ⟨u, (s.originAfter events).getD .zero, events⟩) := by
  have hnames : c.texts ⊆ (s.call c).2.ids.streams.names := by
    intro text htext
    show text ∈ (s.call c).2.streamNames
    rw [names_call hs (SessionCall.ne_reset_of_events? hc)]
    exact List.mem_eraseDups.2 (List.mem_append_right _ htext)
  have hhandles : c.handles ⊆ (s.call c).2.ids.handles := by
    intro handle hhandle
    rw [handles_call hs (SessionCall.ne_reset_of_events? hc)]
    exact List.mem_eraseDups.2 (List.mem_append_right _ hhandle)
  have hreads : Answer.Reads ⟨t, (s.call c).2.ids.handles⟩
      ⟨(s.call c).2.ids, (s.originAfter events).getD .zero, events⟩ := ⟨h.names, rfl, hfits⟩
  rw [Answer.spelled?, h.records_eq (IdTables.Within.refl _), hreads.mapM_records hnames hhandles,
    c.spelled_eq u]

end Session

end FlowTrace
