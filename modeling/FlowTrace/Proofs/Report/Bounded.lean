import FlowTrace.Proofs.Report.HopLatency
import FlowTrace.Proofs.Report.Listing
import FlowTrace.Report.Table
set_option autoImplicit false

/-!
# Report: traces whose summaries cannot overflow

Durations and latencies may be negative, so that a total says little about the sums on the way to it.
But each of them is no farther from 0 than the times of the trace, and a sum on the way is of no more
of them than there are.  So all summaries have a result if a word holds as many times the bound of
the times (`Trace.exists_summaries`).
-/

namespace FlowTrace

/-- The time lies between 0 and the bound, if it is known. -/
def UpTo (top : Nat) (time : Option Int64) : Prop := ∀ w ∈ time, 0 ≤ w.toInt ∧ w.toInt ≤ top

instance (top : Nat) : (time : Option Int64) → Decidable (UpTo top time)
  | none => isTrue nofun
  | some w => decidable_of_iff (0 ≤ w.toInt ∧ w.toInt ≤ top) (by simp [UpTo])

/-- The times of all records and of all packets taken in lie between 0 and the bound. -/
structure Trace.TimesUpTo (t : Trace) (top : Nat) : Prop where
  records : ∀ r ∈ t.records, UpTo top r.startTime ∧ UpTo top r.finishTime
  packets : ∀ p ∈ HopLatency.packets t, UpTo top p.startTime ∧ UpTo top p.finishTime

/-- The time between two ends is no farther from 0 than they are. -/
theorem between?_within {top : Nat} {start finish : Option Int64} (hstart : UpTo top start)
    (hfinish : UpTo top finish) :
    ∀ d ∈ between? start finish, (-(top : Int) ≤ d ∧ d ≤ top) ∧ Word.Fits d := by
  intro d hd
  cases start with
  | none => cases hd
  | some s =>
    cases finish with
    | none => cases hd
    | some f =>
      cases hd
      have hs := hstart s rfl
      have hf := hfinish f rfl
      have hfits := Word.fits_toInt s
      have hfits' := Word.fits_toInt f
      rw [Word.fits_iff] at hfits hfits' ⊢
      omega

namespace NodeLoad

/-- The durations of different groups are durations of different records. -/
theorem length_flatMap_durations_le {groups : List (Int32 × EventKind)} (h : groups.Nodup)
    (records : List TaskRecord) : (groups.flatMap (durations records)).length ≤
      (records.filterMap TaskRecord.busy?).length := by
  induction groups generalizing records with
  | nil => exact Nat.zero_le _
  | cons group groups ih =>
    obtain ⟨hgroup, hgroups⟩ := List.nodup_cons.1 h
    -- the other groups lose nothing with the records of this one
    have hothers : ∀ other ∈ groups, durations records other =
        durations (records.filter fun r => !decide (r.group = group)) other := by
      intro other hother
      have hne : other ≠ group := fun heq => hgroup (heq ▸ hother)
      rw [durations, durations, List.filter_filter]
      congr 1
      apply List.filter_congr
      intro r _
      by_cases hr : r.group = other
      · simp [hr, hne]
      · simp [hr]
    have hsplit := ((List.filter_append_perm (fun r : TaskRecord => r.group = group) records).filterMap
      TaskRecord.busy?).length_eq
    have hrest := ih hgroups (records.filter fun r => !decide (r.group = group))
    rw [List.filterMap_append, List.length_append] at hsplit
    rw [List.flatMap_cons, List.length_append, List.flatMap_congr hothers, durations]
    omega

/-- The complete records of a group are complete records. -/
theorem length_durations_le_busy (records : List TaskRecord) (group : Int32 × EventKind) :
    (durations records group).length ≤ (records.filterMap TaskRecord.busy?).length := by
  have h := length_flatMap_durations_le (List.nodup_singleton group) records
  rwa [List.flatMap_singleton] at h

section

variable {t : Trace} {top : Nat} (htimes : t.TimesUpTo top)

include htimes

theorem durations_within (group : Int32 × EventKind) :
    ∀ d ∈ durations t.records group, -(top : Int) ≤ d ∧ d ≤ top := by
  intro d hd
  obtain ⟨r, hr, hbusy⟩ := List.mem_filterMap.1 hd
  obtain ⟨hstart, hfinish⟩ := htimes.records r (List.mem_filter.1 hr).1
  exact (between?_within hstart hfinish d hbusy).1

variable (hcomplete : (t.records.filterMap TaskRecord.busy?).length * (top : Int) ≤ Word.greatest)

include hcomplete

theorem fitting_of_timesUpTo : Fitting t.records where
  duration r hr d hd := by
    obtain ⟨hstart, hfinish⟩ := htimes.records r hr
    exact (between?_within hstart hfinish d hd).2
  sum r _ n _ := by
    have hsums := Word.sumsFit_of_within (durations_within htimes r.group)
      (length_durations_le_busy t.records r.group) hcomplete
    exact hsums _ (List.take_prefix n _)

/-- Totals have sums that fit: the first of them add up the durations of as many records at most as
are complete. -/
theorem sumsFit_totals {loads : List NodeLoad} (h : Lists loads t.records) :
    Word.SumsFit ((loads.map NodeLoad.totalMicros).map Int64.toInt) := by
  intro before hbefore
  rw [List.map_map] at hbefore
  obtain ⟨first, hfirst, rfl⟩ := List.prefix_map_iff.1 hbefore
  have htotal : first.map (Int64.toInt ∘ NodeLoad.totalMicros) =
      ((first.map group).map (durations t.records)).map List.sum := by
    rw [List.map_map, List.map_map]
    exact List.map_congr_left fun load hload => (h.sums load (hfirst.subset hload)).2
  have hdistinct : (first.map group).Nodup := h.distinct.sublist (hfirst.sublist.map group)
  rw [htotal, ← List.sum_flatten, ← List.flatMap_def]
  apply (Word.sumsFit_of_within _ (length_flatMap_durations_le hdistinct t.records) hcomplete).fits
  intro d hd
  obtain ⟨load, -, hload⟩ := List.mem_flatMap.1 hd
  exact durations_within htimes load d hload

end

end NodeLoad

namespace HopLatency

theorem exists_ofTrace {t : Trace} {top : Nat} (htimes : t.TimesUpTo top)
    (hresolved : (known (packets t)).length * (top : Int) ≤ Word.greatest) :
    ∃ l, ofTrace t = .ok l := by
  have hlatency : ∀ p ∈ packets t, ∀ d ∈ p.latency?,
      (-(top : Int) ≤ d ∧ d ≤ top) ∧ Word.Fits d := fun p hp =>
    between?_within (htimes.packets p hp).1 (htimes.packets p hp).2
  have hknown : ∀ d ∈ known (packets t), (-(top : Int) ≤ d ∧ d ≤ top) ∧ Word.Fits d := by
    intro d hd
    obtain ⟨p, hp, hd⟩ := List.mem_filterMap.1 hd
    exact hlatency p hp d hd
  have hperm := ascending_perm fun d hd => (hknown d hd).2
  have hsums : Word.SumsFit ((ascending (known (packets t))).map Int64.toInt) := by
    apply Word.sumsFit_of_within (fun d hd => (hknown d (hperm.mem_iff.1 hd)).1) _ hresolved
    rw [hperm.length_eq]
  rw [ofTrace_of_fits fun p hp d hd => (hlatency p hp d hd).2]
  obtain ⟨l, hl, -⟩ := exists_measures (fun d hd => (hknown d hd).2) hsums
  exact ⟨l, hl⟩

end HopLatency

namespace Report

/-- Loads that have means and whose totals can be added up have a table. -/
theorem exists_table {loads : List NodeLoad}
    (htotals : Word.SumsFit ((loads.map NodeLoad.totalMicros).map Int64.toInt))
    (hmeans : ∀ load ∈ loads, ∃ mean, load.meanMicros = .ok mean) (shown : Nat) :
    ∃ text, table loads shown = .ok text := by
  have hrows : ∀ load ∈ loads.take shown, ∃ text,
      row (max (Int64.ofInt ((loads.map NodeLoad.totalMicros).map Int64.toInt).sum) 1) load =
        .ok text := by
    intro load hload
    obtain ⟨mean, hmean⟩ := hmeans load (List.mem_of_mem_take hload)
    rw [row, hmean]
    exact ⟨_, rfl⟩
  choose! rowText hrowText using hrows
  rw [table, Word.sum_of_sumsFit htotals]
  show ∃ text, ((loads.take shown).mapM (row _) >>= _) = .ok text
  rw [mapM_eq_ok_map hrowText]
  exact ⟨_, rfl⟩

end Report

/-- A trace whose times lie between 0 and a bound has loads, each with a mean, statistics of its
packets, and tables of any length, if as many times the bound as there are complete records fits into
a word, and so does as many times the bound as there are packets with both times.  The records
themselves are no more than a word can count, as those of any list in memory; without this a count
could come out as 0, and a mean would divide by it. -/
theorem Trace.exists_summaries {t : Trace} {top : Nat} (htimes : t.TimesUpTo top)
    (hcomplete : (t.records.countP fun r => r.startTime.isSome && r.finishTime.isSome) * (top : Int) ≤
      Word.greatest)
    (hresolved : ((HopLatency.packets t).countP fun p => p.startTime.isSome && p.finishTime.isSome) *
      (top : Int) ≤ Word.greatest)
    (hcount : Word.Fits t.records.length) :
    ∃ loads latency, NodeLoad.ofTrace t = .ok loads ∧ HopLatency.ofTrace t = .ok latency ∧
      (∀ load ∈ loads, ∃ mean, load.meanMicros = .ok mean) ∧
      ∀ shown, ∃ text, Report.table loads shown = .ok text := by
  have hbusy : (t.records.filterMap TaskRecord.busy?).length =
      t.records.countP fun r => r.startTime.isSome && r.finishTime.isSome := by
    rw [List.length_filterMap_eq_countP]
    exact List.countP_congr fun r _ => by
      show (between? r.startTime r.finishTime).isSome = true ↔ _
      rw [isSome_between?]
  rw [← hbusy] at hcomplete
  rw [← HopLatency.length_known] at hresolved
  obtain ⟨loads, hloads⟩ := NodeLoad.exists_ofTrace
    (NodeLoad.fitting_of_timesUpTo htimes hcomplete)
  obtain ⟨latency, hlatency⟩ := HopLatency.exists_ofTrace htimes hresolved
  have hmeans : ∀ load ∈ loads, ∃ mean, load.meanMicros = .ok mean := by
    intro load hload
    obtain ⟨hne, hsums⟩ := NodeLoad.sums_of_mem hloads hload
    have hlength := NodeLoad.length_durations_le t.records load.group
    have hbound := hcount.2
    obtain ⟨mean, hmean, -⟩ := hsums.exists_meanMicros hne (by omega)
    exact ⟨mean, hmean⟩
  refine ⟨loads, latency, hloads, hlatency, hmeans, ?_⟩
  apply Report.exists_table _ hmeans
  exact NodeLoad.sumsFit_totals htimes hcomplete (NodeLoad.lists_ofTrace hloads)

/-- Two tasks with four packets, one of which was taken in before its producer was done with it: no
time is above 20, two records are complete, and three packets have both times. -/
theorem Trace.exists_summaries_twoTasks :
    (HopLatency.twoTasks HopLatency.early HopLatency.unseen).TimesUpTo 20 ∧
      2 * (20 : Int) ≤ Word.greatest ∧ 3 * (20 : Int) ≤ Word.greatest ∧
      Word.Fits (HopLatency.twoTasks HopLatency.early HopLatency.unseen).records.length ∧
      ∃ loads latency,
        NodeLoad.ofTrace (HopLatency.twoTasks HopLatency.early HopLatency.unseen) = .ok loads ∧
        HopLatency.ofTrace (HopLatency.twoTasks HopLatency.early HopLatency.unseen) = .ok latency ∧
        (∀ load ∈ loads, ∃ mean, load.meanMicros = .ok mean) ∧
        ∀ shown, ∃ text, Report.table loads shown = .ok text := by
  have htimes : (HopLatency.twoTasks HopLatency.early HopLatency.unseen).TimesUpTo 20 :=
    ⟨by decide, by decide⟩
  have hgreatest : Word.greatest = 9223372036854775807 := rfl
  have htwo : 2 * (20 : Int) ≤ Word.greatest := by omega
  have hthree : 3 * (20 : Int) ≤ Word.greatest := by omega
  have hcount : Word.Fits
      (HopLatency.twoTasks HopLatency.early HopLatency.unseen).records.length := by decide
  exact ⟨htimes, htwo, hthree, hcount, Trace.exists_summaries htimes htwo hthree hcount⟩

end FlowTrace
