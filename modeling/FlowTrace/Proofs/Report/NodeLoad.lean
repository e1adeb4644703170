import Mathlib.Algebra.Order.Ring.Int
import Std.Data.DHashMap.Internal.WF
import FlowTrace.Proofs.Report.Elapsed
import FlowTrace.Proofs.Trace.Folding
import FlowTrace.Report.Table
set_option autoImplicit false

/-!
# Report: loads and the durations they sum up

The loads of a trace are collected record by record.  At every point each group of records with one
calculator and one kind has a load as soon as it has a complete record, and the load says of the
group's durations how many there are, what they come to and which is the longest (`SumsUp`).  The
longest is looked for from 0 on, so that a group whose durations are all negative shows 0 for it.
-/

namespace FlowTrace

/-- How long the task was busy, told exactly, where both of its ends were seen. -/
def TaskRecord.busy? (r : TaskRecord) : Option Int :=
  match r.startTime, r.finishTime with
  | some start, some finish => some (finish.toInt - start.toInt)
  | _, _ => none

/-- What the records of one load have in common. -/
def TaskRecord.group (r : TaskRecord) : Int32 × EventKind := (r.node, r.kind)

theorem TaskRecord.busy?_of_duration {r : TaskRecord} {found : Option Int64}
    (h : r.duration = .ok found) : r.busy? = found.map Int64.toInt :=
  between?_of_elapsed h

theorem TaskRecord.exists_duration {r : TaskRecord} (h : ∀ d ∈ r.busy?, Word.Fits d) :
    ∃ found, r.duration = .ok found :=
  ⟨_, elapsed_of_fits h⟩

namespace NodeLoad

/-- The records that the load is about. -/
def group (load : NodeLoad) : Int32 × EventKind := (load.node, load.kind)

/-- The durations of the complete records of a group, in their order. -/
def durations (records : List TaskRecord) (group : Int32 × EventKind) : List Int :=
  (records.filter fun r => r.group = group).filterMap TaskRecord.busy?

/-- The load says how many durations there are, what they come to, and which is the longest, as long
as it is not below 0. -/
structure Sums (load : NodeLoad) (ds : List Int) : Prop where
  count : load.taskCount = ds.length
  total : load.totalMicros.toInt = ds.sum
  longest : Longest load.maxMicros.toInt (0 :: ds)

/-- A load for each group with a complete record, and none for any other. -/
structure SumsUp (loads : Loads) (records : List TaskRecord) : Prop where
  filed : ∀ group load, loads[group]? = some load →
    load.group = group ∧ durations records group ≠ [] ∧ load.Sums (durations records group)
  missing : ∀ group, loads[group]? = Option.none → durations records group = []

/-! ## One more record -/

theorem sums_none (node : Int32) (kind : EventKind) : (none node kind).Sums [] :=
  ⟨rfl, rfl, longest_singleton 0⟩

theorem toInt_max (a b : Int64) :
    (max a b).toInt = if a.toInt ≤ b.toInt then b.toInt else a.toInt := by
  have hmax : max a b = if a ≤ b then b else a := rfl
  rw [hmax, apply_ite Int64.toInt]
  simp only [Int64.le_iff_toInt_le]

theorem Sums.add {load load' : NodeLoad} {ds : List Int} {w : Int64} (h : load.Sums ds)
    (hadd : load.add w = .ok load') : load'.group = load.group ∧ load'.Sums (ds ++ [w.toInt]) := by
  unfold NodeLoad.add at hadd
  cases htotal : Word.add load.totalMicros w with
  | error cause =>
    rw [htotal] at hadd
    cases hadd
  | ok total =>
    rw [htotal] at hadd
    cases hadd
    refine ⟨rfl, ?_, ?_, ?_⟩
    · rw [List.length_append, ← h.count]
      rfl
    · rw [Word.toInt_of_exact htotal, h.total, List.sum_append, List.sum_singleton]
    · rw [toInt_max]
      exact h.longest.concat w.toInt

theorem durations_append (before records : List TaskRecord) (group : Int32 × EventKind) :
    durations (before ++ records) group = durations before group ++ durations records group := by
  simp [durations]

theorem durations_concat (records : List TaskRecord) (r : TaskRecord) (group : Int32 × EventKind) :
    durations (records ++ [r]) group =
      durations records group ++ if r.group = group then r.busy?.toList else [] := by
  rw [durations_append]
  by_cases h : r.group = group
  · cases hbusy : r.busy? <;> simp [durations, h, hbusy]
  · simp [durations, h]

/-- An incomplete record leaves the loads as they are; the duration of a complete one is added to the
load of its group. -/
theorem addRecord_cases {loads loads' : Loads} {r : TaskRecord} (h : addRecord loads r = .ok loads') :
    (r.busy? = Option.none ∧ loads' = loads) ∨
      ∃ w load, r.busy? = some w.toInt ∧
        (loads.getD r.group (none r.node r.kind)).add w = .ok load ∧
        loads' = loads.insert r.group load := by
  unfold addRecord at h
  cases hduration : r.duration with
  | error cause =>
    rw [hduration] at h
    cases h
  | ok found =>
    rw [hduration] at h
    have hbusy := TaskRecord.busy?_of_duration hduration
    cases found with
    | none =>
      cases h
      exact .inl ⟨hbusy, rfl⟩
    | some w =>
      right
      change ((loads.getD r.group (none r.node r.kind)).add w >>= fun load =>
        pure (loads.insert r.group load)) = .ok loads' at h
      cases hadd : (loads.getD r.group (none r.node r.kind)).add w with
      | error cause =>
        rw [hadd] at h
        cases h
      | ok load =>
        rw [hadd] at h
        cases h
        exact ⟨w, load, hbusy, hadd, rfl⟩

theorem SumsUp.getD {loads : Loads} {records : List TaskRecord} (h : SumsUp loads records)
    (r : TaskRecord) :
    (loads.getD r.group (none r.node r.kind)).group = r.group ∧
      (loads.getD r.group (none r.node r.kind)).Sums (durations records r.group) := by
  rw [Std.HashMap.getD_eq_getD_getElem?]
  cases hload : loads[r.group]? with
  | none =>
    rw [h.missing r.group hload]
    exact ⟨rfl, sums_none r.node r.kind⟩
  | some load =>
    obtain ⟨hgroup, -, hsums⟩ := h.filed r.group load hload
    exact ⟨hgroup, hsums⟩

theorem SumsUp.addRecord {loads loads' : Loads} {records : List TaskRecord} {r : TaskRecord}
    (h : SumsUp loads records) (hadd : addRecord loads r = .ok loads') :
    SumsUp loads' (records ++ [r]) := by
  rcases addRecord_cases hadd with ⟨hbusy, rfl⟩ | ⟨w, load, hbusy, hload, rfl⟩
  · have hsame : ∀ group, durations (records ++ [r]) group = durations records group := by
      intro group
      rw [durations_concat, hbusy, Option.toList_none, ite_self, List.append_nil]
    exact ⟨fun group load hload => hsame group ▸ h.filed group load hload,
      fun group hnone => hsame group ▸ h.missing group hnone⟩
  · obtain ⟨hgroup, hsums⟩ := h.getD r
    obtain ⟨hkept, hsums⟩ := hsums.add hload
    constructor
    · intro group other hother
      rw [Std.HashMap.getElem?_insert] at hother
      rw [durations_concat]
      by_cases hsame : r.group = group
      · subst hsame
        rw [if_pos (beq_self_eq_true r.group)] at hother
        cases hother
        rw [if_pos rfl, hbusy]
        exact ⟨hkept.trans hgroup, List.append_ne_nil_of_right_ne_nil _ (List.cons_ne_nil _ _), hsums⟩
      · rw [if_neg (by simpa using hsame)] at hother
        rw [if_neg hsame, List.append_nil]
        exact h.filed group other hother
    · intro group hnone
      rw [Std.HashMap.getElem?_insert] at hnone
      split at hnone
      · cases hnone
      · rename_i hother
        rw [durations_concat, if_neg (by simpa using hother), List.append_nil]
        exact h.missing group hnone

/-! ## All records -/

theorem SumsUp.addRecords {loads loads' : Loads} {before records : List TaskRecord}
    (h : SumsUp loads before) (hadd : records.foldlM NodeLoad.addRecord loads = .ok loads') :
    SumsUp loads' (before ++ records) := by
  induction records generalizing loads before with
  | nil =>
    cases hadd
    rwa [List.append_nil]
  | cons r records ih =>
    rw [List.foldlM_cons] at hadd
    cases hfirst : NodeLoad.addRecord loads r with
    | error cause =>
      rw [hfirst] at hadd
      cases hadd
    | ok next =>
      rw [hfirst] at hadd
      have hall := ih (h.addRecord hfirst) hadd
      rwa [List.append_assoc] at hall

theorem sumsUp_empty : SumsUp Std.HashMap.emptyWithCapacity [] where
  filed group load hload := by
    rw [Std.HashMap.getElem?_emptyWithCapacity] at hload
    cases hload
  missing _ _ := rfl

theorem values_eq_map_toList {α β : Type} [BEq α] [Hashable α] (m : Std.HashMap α β) :
    m.values = m.toList.map Prod.snd := by
  change m.inner.1.values = (Std.DHashMap.Raw.Const.toList m.inner.1).map Prod.snd
  rw [Std.DHashMap.Internal.Raw.values_eq_values_toListModel,
    Std.DHashMap.Internal.Raw.Const.toList_eq_toListModel_map, List.map_map,
    Std.Internal.List.values_eq_map]
  rfl

theorem mem_values_iff {α β : Type} [BEq α] [Hashable α] [LawfulBEq α] (m : Std.HashMap α β) (b : β) :
    b ∈ m.values ↔ ∃ a : α, m[a]? = some b := by
  rw [values_eq_map_toList, List.mem_map]
  constructor
  · rintro ⟨⟨a, b⟩, hmem, rfl⟩
    exact ⟨a, Std.HashMap.mem_toList_iff_getElem?_eq_some.1 hmem⟩
  · rintro ⟨a, ha⟩
    exact ⟨(a, b), Std.HashMap.mem_toList_iff_getElem?_eq_some.2 ha, rfl⟩

/-- The loads of a trace are those that were collected, put in order. -/
theorem exists_filed_of_ofTrace {t : Trace} {loads : List NodeLoad} (h : ofTrace t = .ok loads) :
    ∃ filed : Loads, t.records.foldlM addRecord Std.HashMap.emptyWithCapacity = .ok filed ∧
      SumsUp filed t.records ∧ loads = filed.values.mergeSort listedBefore := by
  unfold ofTrace at h
  cases hadd : t.records.foldlM addRecord Std.HashMap.emptyWithCapacity with
  | error cause =>
    rw [hadd] at h
    cases h
  | ok filed =>
    rw [hadd] at h
    cases h
    exact ⟨filed, rfl, sumsUp_empty.addRecords hadd, rfl⟩

/-- The loads of a trace are those of its groups with complete records. -/
theorem exists_sumsUp_of_ofTrace {t : Trace} {loads : List NodeLoad} (h : ofTrace t = .ok loads) :
    ∃ filed : Loads, SumsUp filed t.records ∧
      ∀ load, load ∈ loads ↔ ∃ group : Int32 × EventKind, filed[group]? = some load := by
  obtain ⟨filed, -, hsums, rfl⟩ := exists_filed_of_ofTrace h
  refine ⟨filed, hsums, fun load => ?_⟩
  rw [List.mem_mergeSort, mem_values_iff]

/-- A group with a complete record has a load. -/
theorem exists_load {t : Trace} {loads : List NodeLoad} (h : ofTrace t = .ok loads)
    {group : Int32 × EventKind} (hne : durations t.records group ≠ []) :
    ∃ load ∈ loads, load.group = group := by
  obtain ⟨filed, hsums, hmem⟩ := exists_sumsUp_of_ofTrace h
  cases hload : filed[group]? with
  | none => exact absurd (hsums.missing group hload) hne
  | some load => exact ⟨load, (hmem load).2 ⟨group, hload⟩, (hsums.filed group load hload).1⟩

/-- A load sums up the durations of its group, of which there are some. -/
theorem sums_of_mem {t : Trace} {loads : List NodeLoad} (h : ofTrace t = .ok loads) {load : NodeLoad}
    (hload : load ∈ loads) :
    durations t.records load.group ≠ [] ∧ load.Sums (durations t.records load.group) := by
  obtain ⟨filed, hsums, hmem⟩ := exists_sumsUp_of_ofTrace h
  obtain ⟨group, hgroup⟩ := (hmem load).1 hload
  obtain ⟨rfl, hne, hload⟩ := hsums.filed group load hgroup
  exact ⟨hne, hload⟩

/-! ## Traces without overflow -/

/-- Neither a duration nor a sum of durations of one group on the way leaves the words. -/
structure Fitting (records : List TaskRecord) : Prop where
  duration : ∀ r ∈ records, ∀ d ∈ r.busy?, Word.Fits d
  sum : ∀ r ∈ records, ∀ n ≤ (durations records r.group).length,
    Word.Fits ((durations records r.group).take n).sum

theorem Sums.exists_add {load : NodeLoad} {ds : List Int} (h : load.Sums ds) {w : Int64}
    (hfits : Word.Fits (ds ++ [w.toInt]).sum) : ∃ load', load.add w = .ok load' := by
  rw [List.sum_append, List.sum_singleton, ← h.total] at hfits
  have hadd : Word.add load.totalMicros w = .ok (Int64.ofInt (load.totalMicros.toInt + w.toInt)) :=
    if_pos hfits
  rw [NodeLoad.add, hadd]
  exact ⟨_, rfl⟩

theorem SumsUp.exists_addRecord {loads : Loads} {before : List TaskRecord} (h : SumsUp loads before)
    {r : TaskRecord} {found : Option Int64} (hduration : r.duration = .ok found)
    (hfits : Word.Fits (durations (before ++ [r]) r.group).sum) :
    ∃ loads', NodeLoad.addRecord loads r = .ok loads' := by
  have hbusy := TaskRecord.busy?_of_duration hduration
  unfold NodeLoad.addRecord
  rw [hduration]
  cases found with
  | none => exact ⟨loads, rfl⟩
  | some w =>
    rw [durations_concat, if_pos rfl, hbusy] at hfits
    obtain ⟨load, hload⟩ := (h.getD r).2.exists_add hfits
    change ∃ loads', ((loads.getD r.group (none r.node r.kind)).add w >>= fun load =>
      pure (loads.insert r.group load)) = .ok loads'
    rw [hload]
    exact ⟨_, rfl⟩

theorem exists_addRecords {records : List TaskRecord} {loads : Loads} {before : List TaskRecord}
    (h : SumsUp loads before) (hfitting : Fitting (before ++ records)) :
    ∃ loads', records.foldlM NodeLoad.addRecord loads = .ok loads' := by
  induction records generalizing loads before with
  | nil => exact ⟨loads, rfl⟩
  | cons r records ih =>
    have hr : r ∈ before ++ r :: records := List.mem_append_right _ List.mem_cons_self
    obtain ⟨found, hfound⟩ := TaskRecord.exists_duration (hfitting.duration r hr)
    have hfits : Word.Fits (durations (before ++ [r]) r.group).sum := by
      have hparts : durations (before ++ r :: records) r.group =
          durations (before ++ [r]) r.group ++ durations records r.group := by
        rw [← durations_append, List.append_assoc, List.singleton_append]
      have hsum := hfitting.sum r hr (durations (before ++ [r]) r.group).length
      rw [hparts, List.take_left, List.length_append] at hsum
      exact hsum (Nat.le_add_right _ _)
    obtain ⟨next, hnext⟩ := h.exists_addRecord hfound hfits
    rw [List.append_cons] at hfitting
    obtain ⟨last, hlast⟩ := ih (h.addRecord hnext) hfitting
    refine ⟨last, ?_⟩
    rw [List.foldlM_cons, hnext]
    exact hlast

/-- A trace without overflow has loads. -/
theorem exists_ofTrace {t : Trace} (h : Fitting t.records) : ∃ loads, ofTrace t = .ok loads := by
  obtain ⟨filed, hfiled⟩ := exists_addRecords sumsUp_empty h
  rw [ofTrace, hfiled]
  exact ⟨_, rfl⟩

/-! ## The longest duration -/

/-- No complete record of its group took longer than a load shows.  The load shows the duration of one
of them, unless all of these durations are negative; then it shows 0. -/
theorem maxMicros_longest {t : Trace} {loads : List NodeLoad} (h : ofTrace t = .ok loads)
    {load : NodeLoad} (hload : load ∈ loads) :
    durations t.records load.group ≠ [] ∧
      (Longest load.maxMicros.toInt (durations t.records load.group) ∨
        load.maxMicros = 0 ∧ ∀ d ∈ durations t.records load.group, d < 0) := by
  obtain ⟨hne, hsums⟩ := sums_of_mem h hload
  obtain ⟨hmem, hall⟩ := hsums.longest
  obtain ⟨hnonneg, hgroup⟩ := List.forall_mem_cons.1 hall
  refine ⟨hne, ?_⟩
  by_cases hattained : load.maxMicros.toInt ∈ durations t.records load.group
  · exact .inl ⟨hattained, hgroup⟩
  · have hzero : load.maxMicros.toInt = 0 := (List.mem_cons.1 hmem).resolve_right hattained
    refine .inr ⟨Int64.toInt_inj.1 hzero, fun d hd => ?_⟩
    have hle : d ≤ 0 := hzero ▸ hgroup d hd
    exact Int.lt_iff_le_and_ne.2 ⟨hle, fun heq => hattained (hzero ▸ heq ▸ hd)⟩

/-- An event of a task, in the first minute of the epoch. -/
def taskEvent (second : Fin 60) (node : Int32) (stamp : Timestamp) (isFinish : Bool) : NamedEvent :=
  ⟨.ofSecond second, node, stamp, .unset, .processed, .none, .none, 7, isFinish⟩

/-- Two tasks of the calculator 1 and one of the calculator 2.  Of each of them, the last task has its
finish before its start. -/
def backward : List NamedEvent :=
  [taskEvent ⟨0, by decide⟩ 1 ⟨10⟩ false, taskEvent ⟨2, by decide⟩ 1 ⟨10⟩ true,
   taskEvent ⟨4, by decide⟩ 1 ⟨20⟩ true, taskEvent ⟨9, by decide⟩ 1 ⟨20⟩ false,
   taskEvent ⟨1, by decide⟩ 2 ⟨10⟩ true, taskEvent ⟨4, by decide⟩ 2 ⟨10⟩ false]

theorem records_backward :
    (Session.empty.trace backward .firstMinute).1.records =
      [⟨1, some 0, .processed, some 0, some 2000000, [], [], 7⟩,
       ⟨1, some 10, .processed, some 9000000, some 4000000, [], [], 7⟩,
       ⟨2, some 0, .processed, some 4000000, some 1000000, [], [], 7⟩] := by
  rw [Session.trace_records backward .firstMinute IdTables.faithful_empty]
  decide

theorem fitting_backward : Fitting (Session.empty.trace backward .firstMinute).1.records := by
  rw [records_backward]
  exact ⟨by decide, by decide⟩

theorem durations_backward :
    durations (Session.empty.trace backward .firstMinute).1.records (1, .processed) =
        [2000000, -5000000] ∧
      durations (Session.empty.trace backward .firstMinute).1.records (2, .processed) =
        [-3000000] := by
  rw [records_backward]
  decide

/-- The load of the calculator 1 shows the longer one of two durations. -/
theorem maxMicros_longest_backward :
    Session.empty.Reachable ∧
      ∃ loads, ofTrace (Session.empty.trace backward .firstMinute).1 = .ok loads ∧
        ∃ load ∈ loads, load.group = (1, .processed) ∧
          Longest load.maxMicros.toInt [2000000, -5000000] := by
  obtain ⟨loads, hloads⟩ := exists_ofTrace fitting_backward
  obtain ⟨hdurations, -⟩ := durations_backward
  obtain ⟨load, hload, hgroup⟩ := exists_load hloads
    (hdurations ▸ List.cons_ne_nil _ _ :
      durations (Session.empty.trace backward .firstMinute).1.records (1, .processed) ≠ [])
  refine ⟨⟨[], rfl⟩, loads, hloads, load, hload, hgroup, ?_⟩
  obtain ⟨-, hlongest | ⟨-, hnegative⟩⟩ := maxMicros_longest hloads hload
  · rwa [hgroup, hdurations] at hlongest
  · rw [hgroup, hdurations] at hnegative
    exact absurd hnegative (by decide)

/-- The load of the calculator 2 shows 0, although its only task has another duration. -/
theorem maxMicros_backward :
    Session.empty.Reachable ∧
      ∃ loads, ofTrace (Session.empty.trace backward .firstMinute).1 = .ok loads ∧
        ∃ load ∈ loads, load.group = (2, .processed) ∧ load.maxMicros = 0 ∧
          durations (Session.empty.trace backward .firstMinute).1.records load.group =
            [-3000000] := by
  obtain ⟨loads, hloads⟩ := exists_ofTrace fitting_backward
  obtain ⟨-, hdurations⟩ := durations_backward
  obtain ⟨load, hload, hgroup⟩ := exists_load hloads
    (hdurations ▸ List.cons_ne_nil _ _ :
      durations (Session.empty.trace backward .firstMinute).1.records (2, .processed) ≠ [])
  refine ⟨⟨[], rfl⟩, loads, hloads, load, hload, hgroup, ?_, hgroup ▸ hdurations⟩
  obtain ⟨-, hsums⟩ := sums_of_mem hloads hload
  obtain ⟨hmem, hall⟩ := hsums.longest
  rw [hgroup, hdurations] at hmem hall
  have hzero : load.maxMicros.toInt = 0 := by
    have hnonneg := hall 0 List.mem_cons_self
    simp only [List.mem_cons, List.not_mem_nil, or_false] at hmem
    omega
  exact Int64.toInt_inj.1 hzero

end NodeLoad

end FlowTrace
