import FlowTrace.Proofs.Trace.Sources
set_option autoImplicit false

/-!
# Trace: one space of ids in a run

As long as a session is not reset, its answers share one numbering.  Every stream id stands for a
name in the list that comes with the trace, lists of names only grow at their end, and a payload id
means the same handle in all answers.  The final tables of the run are what all answers are held
against: each answer shows their ids, and its own list of names is a prefix of theirs.
-/

namespace FlowTrace

open IdTables

/-- The packets of an answer, each with the event that it was built from. -/
def SessionCall.packets (c : SessionCall) (t : Trace) : List (NamedEvent × StreamRecord) :=
  (c.sources.zip t.records).flatMap fun p => p.1.boundary.zip p.2.boundary

namespace Session

/-- The answers in a run, each with its call. -/
def answers (s : Session) (calls : List SessionCall) : List (SessionCall × Trace) :=
  (calls.zip (s.run calls).1).filterMap fun p => p.2.map fun t => (p.1, t)

/-- The answers have ids from one numbering. -/
structure OneIdSpace (answers : List (SessionCall × Trace)) : Prop where
  /-- every packet of an answer has its event, and shows the stamp of it -/
  packets : ∀ c t, (c, t) ∈ answers →
    (c.packets t).map Prod.snd = t.records.flatMap TaskRecord.boundary ∧
      ∀ e p, (e, p) ∈ c.packets t → p.packetStamp = t.origin.stamp e.packetStamp
  /-- a stream id is the place of the name that its event has -/
  streams : ∀ c t, (c, t) ∈ answers → ∀ e p, (e, p) ∈ c.packets t →
    ∃ (name : StreamName) (place : Nat), e.stream = some name ∧ p.streamId.toInt = place ∧
      place < t.streamNames.length ∧ t.streamNames[place]? = some name.text
  /-- no name is listed twice, and the first one is empty -/
  names : ∀ c t, (c, t) ∈ answers → t.streamNames.Nodup ∧ t.streamNames.head? = some ""
  /-- later lists of names go on where earlier ones end -/
  grown : answers.Pairwise fun a b => a.2.streamNames <+: b.2.streamNames
  /-- payload ids are equal exactly if the handles are, where a missing one counts as null -/
  payloads : ∀ c t, (c, t) ∈ answers → ∀ c' t', (c', t') ∈ answers →
    ∀ e p, (e, p) ∈ c.packets t → ∀ e' p', (e', p') ∈ c'.packets t' →
      ∀ id id', p.payloadId = some id → p'.payloadId = some id' →
        (id = id' ↔ e.payload.getD 0 = e'.payload.getD 0)

/-! ## Answers of a run -/

variable {s : Session} {calls : List SessionCall} {c : SessionCall} {t : Trace}

theorem answers_cons (s : Session) (c : SessionCall) (calls : List SessionCall) :
    s.answers (c :: calls) =
      ((s.call c).1.map fun t => (c, t)).toList ++ (s.call c).2.answers calls := by
  unfold answers run
  rw [mapThrough_cons, List.zip_cons_cons, List.filterMap_cons]
  cases (s.call c).1 <;> rfl

theorem run_append (s : Session) (before : List SessionCall) (c : SessionCall)
    (after : List SessionCall) :
    (s.run (before ++ c :: after)).2 = (((s.run before).2.call c).2.run after).2 := by
  unfold run
  rw [mapThrough_append, mapThrough_cons]

/-- An answer in a run is that of its call after the calls before it. -/
theorem exists_answers_of_mem (hs : s.ids.Faithful) (h : (c, t) ∈ s.answers calls) :
    ∃ before after events, calls = before ++ c :: after ∧ c.events? = some events ∧
      (s.run before).2.Answers c events t := by
  induction calls generalizing s with
  | nil => cases h
  | cons d calls ih =>
    rw [answers_cons, List.mem_append, Option.mem_toList, Option.map_eq_some_iff] at h
    rcases h with ⟨t', hreturned, heq⟩ | h
    · obtain ⟨rfl, rfl⟩ := Prod.mk.inj heq
      obtain ⟨events, hevents, hanswers⟩ := exists_answers_of_returned hs hreturned
      exact ⟨[], calls, events, rfl, hevents, hanswers⟩
    · obtain ⟨before, after, events, rfl, hevents, hanswers⟩ := ih (faithful_call hs d) h
      refine ⟨d :: before, after, events, rfl, hevents, ?_⟩
      unfold run
      rw [mapThrough_cons]
      exact hanswers

/-! ## What a run lists -/

section

variable (hs : s.ids.Faithful) (hcalls : ∀ c ∈ calls, c ≠ .reset)

include hs hcalls

theorem names_run :
    (s.run calls).2.streamNames =
      (s.streamNames ++ calls.flatMap SessionCall.texts).eraseDups :=
  list_mapThrough streamNames (p := fun s : Session => s.ids.Faithful)
    (fun _ c hc ht => ⟨faithful_call ht c, names_call ht (hcalls c hc)⟩) hs s.nodup_names

theorem handles_run :
    (s.run calls).2.ids.handles =
      (s.ids.handles ++ calls.flatMap SessionCall.handles).eraseDups :=
  list_mapThrough (fun s : Session => s.ids.handles) (p := fun s : Session => s.ids.Faithful)
    (fun _ c hc ht => ⟨faithful_call ht c, handles_call ht (hcalls c hc)⟩) hs s.ids.nodup_handles

/-- An answer lists the names that were there before the run, and its tables grow to the final
ones. -/
theorem within_of_mem_answers (h : (c, t) ∈ s.answers calls) :
    s.streamNames <+: t.streamNames ∧
      ∃ (s' : Session) (events : List NamedEvent), c.events? = some events ∧
        s'.Answers c events t ∧ s'.ids.Faithful ∧ (s'.call c).2.ids.Within (s.run calls).2.ids := by
  obtain ⟨before, after, events, rfl, hevents, hanswers⟩ := exists_answers_of_mem hs h
  have hbefore : ∀ d ∈ before, d ≠ .reset := by
    intro d hd
    exact hcalls d (List.mem_append_left _ hd)
  have hafter : ∀ d ∈ after, d ≠ .reset := by
    intro d hd
    exact hcalls d (List.mem_append_right _ (List.mem_cons_of_mem c hd))
  have hkept : (s.run before).2.ids.Faithful := faithful_run hs before
  refine ⟨?_, (s.run before).2, events, hevents, hanswers, hkept, ?_⟩
  · rw [hanswers.names]
    exact ((within_run hs hbefore).trans hanswers.makes.within).names
  · rw [run_append]
    exact within_run hanswers.makes.faithful hafter

end

theorem pairwise_answers (hs : s.ids.Faithful) (hcalls : ∀ c ∈ calls, c ≠ .reset) :
    (s.answers calls).Pairwise fun a b => a.2.streamNames <+: b.2.streamNames := by
  induction calls generalizing s with
  | nil => exact List.Pairwise.nil
  | cons c calls ih =>
    have hlater : ∀ d ∈ calls, d ≠ .reset := by
      intro d hd
      exact hcalls d (List.mem_cons_of_mem c hd)
    have hkept : (s.call c).2.ids.Faithful := faithful_call hs c
    rw [answers_cons]
    cases hreturned : (s.call c).1 with
    | none => exact ih hkept hlater
    | some t =>
      obtain ⟨events, -, hanswers⟩ := exists_answers_of_returned hs hreturned
      refine List.pairwise_cons.2 ⟨?_, ih hkept hlater⟩
      rintro ⟨d, t'⟩ hmem
      rw [hanswers.names]
      exact (within_of_mem_answers hkept hlater hmem).1

/-- Keys that are listed after a reserved one are at most one more. -/
theorem length_eraseDups_le_succ {α : Type} [DecidableEq α] (a : α) (keys : List α) :
    ([a] ++ keys).eraseDups.length ≤ keys.eraseDups.length + 1 := by
  have hsub : ([a] ++ keys).eraseDups ⊆ a :: keys.eraseDups := by
    intro b hb
    simpa using hb
  exact (List.subperm_of_subset (nodup_eraseDups _) hsub).length_le

/-! ## Packets of an answer -/

theorem map_snd_packets {f : Frame}
    (h : List.Forall₂ (TaskRecord.MadeFrom c f) c.sources t.records) :
    (c.packets t).map Prod.snd = t.records.flatMap TaskRecord.boundary := by
  unfold SessionCall.packets
  generalize c.sources = sources at h
  generalize t.records = records at h
  induction h with
  | nil => rfl
  | cons hmade _ ih =>
    have hlength := hmade.boundary.length_eq
    rw [List.zip_cons_cons, List.flatMap_cons, List.map_append, List.flatMap_cons, ih,
      List.map_snd_zip (Nat.le_of_eq hlength.symm)]

/-- A packet of an answer is that of the event it is listed with. -/
theorem madeFrom_of_mem_packets {f : Frame}
    (h : List.Forall₂ (TaskRecord.MadeFrom c f) c.sources t.records) {e : NamedEvent}
    {p : StreamRecord} (hp : (e, p) ∈ c.packets t) : p.MadeFrom c f e := by
  obtain ⟨⟨source, r⟩, hr, hp⟩ := List.mem_flatMap.1 hp
  have hmade : r.MadeFrom c f source := List.forall₂_zip h hr
  exact List.forall₂_zip hmade.boundary hp

/-- The names that an answer lists are those of its tables, so what the call asked for is listed. -/
theorem Answers.listed {s : Session} {c : SessionCall} {events : List NamedEvent} {t : Trace}
    (hs : s.ids.Faithful) (h : s.Answers c events t) (hc : c.events? = some events) :
    c.texts ⊆ t.streamNames ∧ c.handles ⊆ (s.call c).2.ids.handles := by
  have hreset : c ≠ .reset := SessionCall.ne_reset_of_events? hc
  rw [h.names, names_call hs hreset, handles_call hs hreset]
  constructor
  · intro text htext
    exact List.mem_eraseDups.2 (List.mem_append_right _ htext)
  · intro handle hhandle
    exact List.mem_eraseDups.2 (List.mem_append_right _ hhandle)

end Session

/-- Payloads that are numbered have one id exactly if they have one handle. -/
theorem IdTables.payloadId_eq_iff {t : IdTables} (hfit : t.handles.length ≤ 2147483648)
    {a b : Option UInt64} (ha : a.getD 0 ∈ t.handles) (hb : b.getD 0 ∈ t.handles) :
    t.payloadId a = t.payloadId b ↔ a.getD 0 = b.getD 0 := by
  obtain ⟨place, hshown, hplace⟩ := IdTable.exists_place_of_mem hfit ha
  obtain ⟨place', hshown', hplace'⟩ := IdTable.exists_place_of_mem hfit hb
  constructor
  · intro heq
    have hint : (t.payloadId a).toInt = (t.payloadId b).toInt := congrArg Int32.toInt heq
    have hsame : place = place' := by
      have hcast : (place : Int) = place' := hshown.symm.trans (hint.trans hshown')
      omega
    rw [← hsame] at hplace'
    exact Option.some.inj (hplace.symm.trans hplace')
  · intro heq
    rw [payloadId, payloadId, heq]

namespace Session

/-! ## The numbering of a run -/

/-- A run without resets that asks for fewer keys than there are ids keeps to one numbering. -/
theorem run_oneIdSpace {calls : List SessionCall} (hcalls : ∀ c ∈ calls, c ≠ .reset)
    (hnames : (calls.flatMap SessionCall.texts).eraseDups.length < 2147483647)
    (hhandles : (calls.flatMap SessionCall.handles).eraseDups.length < 2147483647) :
    OneIdSpace (empty.answers calls) := by
  have hempty : empty.ids.Faithful := IdTables.faithful_empty
  have hnamesFit : (empty.run calls).2.streamNames.length ≤ 2147483648 := by
    rw [names_run hempty hcalls]
    exact Nat.le_trans (length_eraseDups_le_succ "" _) (by omega)
  have hhandlesFit : (empty.run calls).2.ids.handles.length ≤ 2147483648 := by
    rw [handles_run hempty hcalls]
    exact Nat.le_trans (length_eraseDups_le_succ 0 _) (by omega)
  constructor
  case packets =>
    intro c t h
    obtain ⟨-, s', events, hc, hanswers, -, hwithin⟩ := within_of_mem_answers hempty hcalls h
    have hmade := hanswers.madeFrom hc hwithin
    exact ⟨map_snd_packets hmade, fun e p hp => (madeFrom_of_mem_packets hmade hp).packetStamp⟩
  case streams =>
    -- an answer is held against its own tables, whose names are the list that comes with it
    intro c t h e p hp
    obtain ⟨-, s', events, hc, hanswers, hs', hwithin⟩ := within_of_mem_answers hempty hcalls h
    have hpacket := madeFrom_of_mem_packets (hanswers.madeFrom hc (Within.refl _)) hp
    obtain ⟨name, hname⟩ : ∃ name, e.stream = some name :=
      Option.isSome_iff_exists.1 (Bool.and_eq_true_iff.1 hpacket.describes).2
    have hlisted : name.text ∈ t.streamNames := by
      have htext := hpacket.asked
      rw [hname] at htext
      exact (hanswers.listed hs' hc).1 htext
    have hfit : t.streamNames.length ≤ 2147483648 := by
      rw [hanswers.names]
      exact Nat.le_trans hwithin.names.length_le hnamesFit
    rw [hanswers.names] at hlisted hfit ⊢
    obtain ⟨place, hshown, hplace⟩ := IdTable.exists_place_of_mem hfit hlisted
    refine ⟨name, place, hname, ?_, (List.getElem?_eq_some_iff.1 hplace).1, hplace⟩
    rw [hpacket.streamId, hname]
    exact hshown
  case names =>
    intro c t h
    obtain ⟨hgrown, s', events, -, hanswers, -, -⟩ := within_of_mem_answers hempty hcalls h
    refine ⟨?_, ?_⟩
    · rw [hanswers.names]
      exact nodup_names _
    · obtain ⟨rest, hrest⟩ := hgrown
      rw [← hrest]
      rfl
  case grown => exact pairwise_answers hempty hcalls
  case payloads =>
    -- two answers are held against the final tables, in which both have their ids
    intro c t h c' t' h' e p hp e' p' hp' id id' hid hid'
    have hshown : ∀ {c : SessionCall} {t : Trace}, (c, t) ∈ empty.answers calls →
        ∀ {e : NamedEvent} {p : StreamRecord}, (e, p) ∈ c.packets t →
          ∀ {id : Int32}, p.payloadId = some id →
            id = (empty.run calls).2.ids.payloadId e.payload ∧
              e.handle ∈ (empty.run calls).2.ids.handles := by
      intro c t h e p hp id hid
      obtain ⟨-, s', events, hc, hanswers, hs', hwithin⟩ := within_of_mem_answers hempty hcalls h
      have hpacket := madeFrom_of_mem_packets (hanswers.madeFrom hc hwithin) hp
      obtain ⟨hgiven, hasked⟩ := hpacket.payloadId id hid
      exact ⟨hgiven, hwithin.payloads.subset ((hanswers.listed hs' hc).2 hasked)⟩
    obtain ⟨rfl, hlisted⟩ := hshown h hp hid
    obtain ⟨rfl, hlisted'⟩ := hshown h' hp' hid'
    exact payloadId_eq_iff hhandlesFit hlisted hlisted'

/-- The packet that is taken in is the only one whose payload a trace of the handover shows. -/
theorem handles_traceHandover : (SessionCall.trace handover .firstMinute).handles = [64] := by
  have htraced : Subject.ofEvents (Window.firstMinute.events handover) =
      (Entries.leads (Window.firstMinute.entries handover)).map fun x => Subject.of x.1 := by
    rw [← Window.map_fst_entries]
    exact Subject.ofEvents_eq (Window.firstMinute.ascending_entries handover)
  rw [SessionCall.handles, htraced]
  decide

/-- The handover is traced and then logged. -/
theorem run_oneIdSpace_handover :
    (∀ c ∈ [SessionCall.trace handover .firstMinute, .log handover .firstMinute], c ≠ .reset) ∧
      ([SessionCall.trace handover .firstMinute, .log handover .firstMinute].flatMap
        SessionCall.texts).eraseDups.length < 2147483647 ∧
      ([SessionCall.trace handover .firstMinute, .log handover .firstMinute].flatMap
        SessionCall.handles).eraseDups.length < 2147483647 ∧
      OneIdSpace (empty.answers
        [.trace handover .firstMinute, .log handover .firstMinute]) := by
  have hcalls : ∀ c ∈ [SessionCall.trace handover .firstMinute, .log handover .firstMinute],
      c ≠ .reset := by simp
  have hnames : ([SessionCall.trace handover .firstMinute, .log handover .firstMinute].flatMap
      SessionCall.texts).eraseDups.length < 2147483647 :=
    Nat.lt_of_le_of_lt (length_eraseDups_le _) (by decide)
  have hhandles : ([SessionCall.trace handover .firstMinute, .log handover .firstMinute].flatMap
      SessionCall.handles).eraseDups.length < 2147483647 := by
    refine Nat.lt_of_le_of_lt (length_eraseDups_le _) ?_
    rw [List.flatMap_cons, handles_traceHandover]
    decide
  exact ⟨hcalls, hnames, hhandles, run_oneIdSpace hcalls hnames hhandles⟩

end Session

end FlowTrace
