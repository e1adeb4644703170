import FlowTrace.Proofs.Trace.Independence
set_option autoImplicit false

/-!
# Trace: allocations leave no mark

A stream name comes as one of many allocations of its text.  Which one it is decides how fast its id
is found and nothing else: with the allocations taken off (`Event.bare`), every call returns the same
trace.  So the answers to two runs of calls are the same if their events agree up to allocations
(`Session.run_eq_of_bare`).
-/

namespace FlowTrace

open Entries

namespace Event

/-- The event with one and the same allocation for all names of a text. -/
def bare (e : NamedEvent) : NamedEvent := e.mapStream fun name => ⟨name.text, 0⟩

/-- Events with the same texts are the same without their allocations. -/
theorem map_bare_eq_of_texts {events events' : List NamedEvent}
    (h : events.map (mapStream StreamName.text) = events'.map (mapStream StreamName.text)) :
    events.map bare = events'.map bare := by
  have hbare : ∀ es : List NamedEvent, es.map bare =
      (es.map (mapStream StreamName.text)).map (mapStream fun text => ⟨text, 0⟩) := by
    intro es
    rw [List.map_map]
    refine List.map_congr_left fun e _ => ?_
    simp [bare, mapStream, Function.comp_def]
  rw [hbare, hbare, h]

@[simp] theorem textOf_bare (e : NamedEvent) :
    StreamName.textOf e.bare.stream = StreamName.textOf e.stream := by
  cases e with
  | mk time node inputStamp packetStamp kind stream payload thread isFinish => cases stream <;> rfl

@[simp] theorem describesHop_bare (e : NamedEvent) : e.bare.describesHop = e.describesHop := by
  simp [describesHop, bare, mapStream]

@[simp] theorem takesIn_bare (e : NamedEvent) : e.bare.takesIn = e.takesIn := by
  rw [takesIn, describesHop_bare]
  rfl

@[simp] theorem putsOut_bare (e : NamedEvent) : e.bare.putsOut = e.putsOut := by
  rw [putsOut, describesHop_bare]
  rfl

theorem produces_bare (p e : NamedEvent) : p.bare.Produces e.bare ↔ p.Produces e := by
  rw [Produces, textOf_bare, textOf_bare]
  rfl

end Event

open Event

/-- A filter that takes no notice of allocations. -/
theorem filter_map_bare {p : NamedEvent → Bool} (hp : ∀ e, p e.bare = p e)
    (events : List NamedEvent) : (events.map bare).filter p = (events.filter p).map bare := by
  rw [List.filter_map]
  exact congrArg _ (List.filter_congr fun e _ => hp e)

/-- What is collected from events without notice of allocations. -/
theorem flatMap_map_bare {β : Type} {f : NamedEvent → List β} (hf : ∀ e, f e.bare = f e)
    (events : List NamedEvent) : (events.map bare).flatMap f = events.flatMap f := by
  rw [List.flatMap_map]
  exact List.flatMap_congr fun e _ => hf e

theorem map_map_bare {β : Type} {f g : NamedEvent → β} (hf : ∀ e, f e.bare = g e)
    (events : List NamedEvent) : (events.map bare).map f = events.map g := by
  rw [List.map_map]
  exact List.map_congr_left fun e _ => hf e

theorem Window.events_map_bare (w : Window) (buffer : List NamedEvent) :
    w.events (buffer.map bare) = (w.events buffer).map bare :=
  filter_map_bare (fun _ => rfl) buffer

/-! ## Entries -/

/-- The entry with its event bare. -/
def Entries.bareEntry (x : Entry) : Entry := (x.1.bare, x.2)

theorem Window.entries_map_bare (w : Window) (buffer : List NamedEvent) :
    w.entries (buffer.map bare) = (w.entries buffer).map bareEntry := by
  rw [entries, List.zipIdx_map, List.filter_map]
  rfl

theorem Entries.ofTask_map_bareEntry (xs : List Entry) (task : TaskId) :
    ofTask (xs.map bareEntry) task = (ofTask xs task).map bareEntry := by
  rw [ofTask, List.filter_map]
  rfl

theorem Entries.opens_map_bareEntry {xs : List Entry} {x : Entry} :
    Opens (xs.map bareEntry) (bareEntry x) ↔ Opens xs x := by
  rw [Opens, List.forall_mem_map]
  rfl

theorem Entries.leads_map_bareEntry (xs : List Entry) :
    leads (xs.map bareEntry) = (leads xs).map bareEntry := by
  rw [leads, List.filter_map]
  exact congrArg _ (List.filter_congr fun x _ => decide_eq_decide.2 opens_map_bareEntry)

/-! ## Records -/

namespace Frame

variable (ids : IdTables) (o : Origin) (events : List NamedEvent)

/-- The producer of a packet is found by texts. -/
theorem producer?_bare (e : NamedEvent) :
    (Frame.mk ids o (events.map bare)).producer? e.bare =
      ((Frame.mk ids o events).producer? e).map bare := by
  have hfilter : ((events.map bare).filter fun p => p.Produces e.bare) =
      (events.filter fun p => p.Produces e).map bare := by
    rw [List.filter_map]
    exact congrArg _ (List.filter_congr fun p _ => decide_eq_decide.2 (produces_bare p e))
  rw [producer?, hfilter, List.getLast?_map]
  rfl

theorem inputPacket_bare (e : NamedEvent) :
    (Frame.mk ids o (events.map bare)).inputPacket e.bare =
      (Frame.mk ids o events).inputPacket e := by
  rw [inputPacket, producer?_bare, Option.map_map, IdTables.streamId, textOf_bare]
  rfl

theorem outputPacket_bare (e : NamedEvent) :
    (Frame.mk ids o (events.map bare)).outputPacket e.bare =
      (Frame.mk ids o events).outputPacket e := by
  rw [outputPacket, IdTables.streamId, textOf_bare]
  rfl

theorem loggedPacket_bare (e : NamedEvent) :
    (Frame.mk ids o (events.map bare)).loggedPacket e.bare =
      (Frame.mk ids o events).loggedPacket e := by
  rw [loggedPacket, IdTables.streamId, textOf_bare]
  rfl

theorem earliest?_map_bare (side : NamedEvent → Bool) (hside : ∀ e, side e.bare = side e)
    (members : List NamedEvent) :
    o.earliest? ((members.map bare).filter side) = o.earliest? (members.filter side) := by
  rw [filter_map_bare hside, Origin.earliest?, map_map_bare (g := Event.time) fun _ => rfl]
  rfl

theorem taskRecord_bare (members : List NamedEvent) :
    (Frame.mk ids o (events.map bare)).taskRecord (members.map bare) =
      (Frame.mk ids o events).taskRecord members := by
  cases members with
  | nil => rfl
  | cons first rest =>
    have hstart := earliest?_map_bare o (fun e => !e.isFinish) (fun _ => rfl) (first :: rest)
    have hfinish := earliest?_map_bare o (fun e => e.isFinish) (fun _ => rfl) (first :: rest)
    have hinputs : (((first :: rest).map bare).filter takesIn).map
        (Frame.mk ids o (events.map bare)).inputPacket =
          ((first :: rest).filter takesIn).map (Frame.mk ids o events).inputPacket := by
      rw [filter_map_bare takesIn_bare]
      exact map_map_bare (inputPacket_bare ids o events) _
    have houtputs : (((first :: rest).map bare).filter putsOut).map
        (Frame.mk ids o (events.map bare)).outputPacket =
          ((first :: rest).filter putsOut).map (Frame.mk ids o events).outputPacket := by
      rw [filter_map_bare putsOut_bare]
      exact map_map_bare (outputPacket_bare ids o events) _
    rw [List.map_cons] at hstart hfinish hinputs houtputs ⊢
    rw [taskRecord, taskRecord, hstart, hfinish, hinputs, houtputs]
    rfl

theorem eventRecord_bare (e : NamedEvent) :
    (Frame.mk ids o (events.map bare)).eventRecord e.bare =
      (Frame.mk ids o events).eventRecord e := by
  rw [eventRecord, takesIn_bare, putsOut_bare, loggedPacket_bare]
  rfl

theorem openedRecord_bare (xs : List Entry) (x : Entry) :
    (Frame.mk ids o (events.map bare)).openedRecord (xs.map bareEntry) (bareEntry x) =
      (Frame.mk ids o events).openedRecord xs x := by
  have htask : (bareEntry x).1.task? = x.1.task? := rfl
  rw [openedRecord, openedRecord, htask]
  cases x.1.task? with
  | none => exact eventRecord_bare ids o events x.1
  | some task =>
    have hmembers : (ofTask (xs.map bareEntry) task).map Prod.fst =
        ((ofTask xs task).map Prod.fst).map bare := by
      rw [ofTask_map_bareEntry, List.map_map, List.map_map]
      rfl
    show Frame.taskRecord _ ((ofTask (xs.map bareEntry) task).map Prod.fst) = _
    rw [hmembers]
    exact taskRecord_bare ids o events _

end Frame

/-! ## Calls -/

namespace SessionCall

/-- The call with the allocations of its events taken off. -/
def bare : SessionCall → SessionCall
  | .trace buffer w => .trace (buffer.map Event.bare) w
  | .log buffer w => .log (buffer.map Event.bare) w
  | .clear => .clear
  | .reset => .reset

theorem texts_bare (c : SessionCall) : c.bare.texts = c.texts := by
  cases c with
  | trace buffer w =>
    rw [bare, texts, w.events_map_bare]
    exact flatMap_map_bare (fun e => by rw [filedTexts, textOf_bare]; rfl) _
  | log buffer w =>
    rw [bare, texts, w.events_map_bare]
    exact flatMap_map_bare (fun e => by rw [loggedTexts, describesHop_bare, textOf_bare]; rfl) _
  | clear => rfl
  | reset => rfl

theorem loggedHandles_bare (e : NamedEvent) : e.bare.loggedHandles = e.loggedHandles := by
  rw [loggedHandles, describesHop_bare]
  rfl

/-- The subject of an entry asks for the same handles. -/
theorem handles_subject_bare (events : List NamedEvent) (e : NamedEvent) :
    (Subject.of e.bare).handles (events.map Event.bare) = (Subject.of e).handles events := by
  have htask : e.bare.task? = e.task? := rfl
  unfold Subject.of
  rw [htask]
  cases e.task? with
  | none => exact loggedHandles_bare e
  | some task =>
    show List.flatMap _ (List.filter _ (List.filter _ (events.map Event.bare))) = _
    rw [filter_map_bare (fun _ => rfl), filter_map_bare describesHop_bare]
    exact flatMap_map_bare (fun _ => rfl) _

theorem handles_bare (c : SessionCall) : c.bare.handles = c.handles := by
  cases c with
  | trace buffer w =>
    have hsubjects : ∀ xs : List NamedEvent, Subject.ofEvents (w.events xs) =
        (leads (w.entries xs)).map fun x => Subject.of x.1 := by
      intro xs
      rw [← w.map_fst_entries, Subject.ofEvents_eq (w.ascending_entries xs)]
    rw [bare, handles, handles, hsubjects, hsubjects, w.entries_map_bare, leads_map_bareEntry,
      List.map_map, List.flatMap_map, List.flatMap_map, w.events_map_bare]
    exact List.flatMap_congr fun x _ => handles_subject_bare _ x.1
  | log buffer w =>
    rw [bare, handles, w.events_map_bare]
    exact flatMap_map_bare loggedHandles_bare _
  | clear => rfl
  | reset => rfl

theorem records_bare {c : SessionCall} (ids : IdTables) (o : Origin) (events : List NamedEvent) :
    c.bare.records ⟨ids, o, events.map Event.bare⟩ = c.records ⟨ids, o, events⟩ := by
  cases c with
  | trace buffer w =>
    rw [bare, records, w.entries_map_bare, leads_map_bareEntry, List.map_map]
    exact List.map_congr_left fun x _ => Frame.openedRecord_bare ids o events _ x
  | log buffer w =>
    rw [bare, records, w.events_map_bare]
    exact map_map_bare (Frame.eventRecord_bare ids o events) _
  | clear => rfl
  | reset => rfl

theorem saysAs_bare {c : SessionCall} {events : List NamedEvent} (h : c.events? = some events) :
    c.SaysAs c.bare events (events.map Event.bare) where
  windows := by
    refine ⟨h, ?_⟩
    cases c with
    | trace buffer w =>
      cases h
      exact congrArg some (w.events_map_bare buffer)
    | log buffer w =>
      cases h
      exact congrArg some (w.events_map_bare buffer)
    | clear => cases h
    | reset => cases h
  origin := by
    rw [Origin.ofEvents?, Origin.ofEvents?, map_map_bare (g := Event.micros) fun _ => rfl,
      flatMap_map_bare fun _ => rfl]
  records ids o := (records_bare ids o events).symm
  texts := c.texts_bare.symm
  handles := c.handles_bare.symm

end SessionCall

namespace Session

theorem agree_bare (c : SessionCall) : Agree c c.bare := by
  intro s s' h
  cases c with
  | trace buffer w => exact h.answer (SessionCall.saysAs_bare rfl)
  | log buffer w => exact h.answer (SessionCall.saysAs_bare rfl)
  | clear => exact ⟨rfl, h.clear⟩
  | reset => exact ⟨rfl, h.reset⟩

/-- Two runs whose events differ in allocations only return the same. -/
theorem run_eq_of_bare {s : Session} (hs : s.ids.Faithful) {calls calls' : List SessionCall}
    (h : calls.map SessionCall.bare = calls'.map SessionCall.bare) :
    (s.run calls).1 = (s.run calls').1 := by
  have hbare : ∀ cs : List SessionCall,
      (s.run cs).1 = (s.run (cs.map SessionCall.bare)).1 := by
    intro cs
    refine ((Alike.refl hs).run ?_).1
    rw [List.forall₂_map_right_iff, List.forall₂_same]
    exact fun c _ => agree_bare c
  rw [hbare, h, ← hbare]

end Session

end FlowTrace
