import FlowTrace.Proofs.Arithmetic
import FlowTrace.Proofs.Report.NodeLoad
set_option autoImplicit false

/-!
# Report: the list of loads

The loads come out of a hash map in no particular order, and sorting leaves no choice: two loads
never share calculator and kind, so the order of the list is strict on them, and only one list has
these loads in that order.  What a load sums up does not depend on the order of the records either
(`NodeLoad.ofTrace_listsLoads`).
-/

namespace FlowTrace

theorem EventKind.ordinal_injective {a b : EventKind} (h : a.ordinal = b.ordinal) : a = b := by
  have hback := ofOrdinal_ordinal a
  rw [h, ofOrdinal_ordinal] at hback
  exact hback.symm

namespace NodeLoad

/-- The load has its place before the other: its total is greater, or else its calculator is lower,
or else its kind comes first. -/
def Precedes (a b : NodeLoad) : Prop :=
  b.totalMicros < a.totalMicros ∨
    a.totalMicros = b.totalMicros ∧
      (a.node < b.node ∨ a.node = b.node ∧ a.kind.ordinal < b.kind.ordinal)

/-- What a list of loads says about some records. -/
structure Lists (loads : List NodeLoad) (records : List TaskRecord) : Prop where
  /-- no calculator and kind has two loads -/
  distinct : (loads.map group).Nodup
  /-- a calculator and kind has a load just when a record of them has both ends -/
  listed : ∀ group : Int32 × EventKind, group ∈ loads.map NodeLoad.group ↔
    ∃ r ∈ records, r.group = group ∧ r.startTime.isSome ∧ r.finishTime.isSome
  /-- a load counts these records and adds up how long each of them took -/
  sums : ∀ load ∈ loads, load.taskCount = (durations records load.group).length ∧
    load.totalMicros.toInt = (durations records load.group).sum
  ordered : loads.Pairwise Precedes

/-! ## The order of the list -/

section

variable {a b : NodeLoad}

theorem precedes_iff : a.Precedes b ↔
    b.totalMicros.toInt < a.totalMicros.toInt ∨
      a.totalMicros.toInt = b.totalMicros.toInt ∧
        (a.node.toInt < b.node.toInt ∨
          a.node.toInt = b.node.toInt ∧ a.kind.ordinal < b.kind.ordinal) := by
  rw [Precedes, Int64.lt_iff_toInt_lt, ← Int64.toInt_inj, Int32.lt_iff_toInt_lt, ← Int32.toInt_inj]

theorem listedBefore_iff : listedBefore a b = true ↔
    b.totalMicros.toInt < a.totalMicros.toInt ∨
      a.totalMicros.toInt = b.totalMicros.toInt ∧
        (a.node.toInt < b.node.toInt ∨
          a.node.toInt = b.node.toInt ∧ a.kind.ordinal ≤ b.kind.ordinal) := by
  unfold listedBefore
  by_cases htotal : a.totalMicros = b.totalMicros
  · have hsame := congrArg Int64.toInt htotal
    rw [if_pos htotal]
    by_cases hnode : a.node = b.node
    · have hsameNode := congrArg Int32.toInt hnode
      rw [if_pos hnode, decide_eq_true_eq]
      omega
    · have hdiffer := mt Int32.toInt_inj.1 hnode
      rw [if_neg hnode, decide_eq_true_eq, Int32.le_iff_toInt_le]
      omega
  · have hdiffer := mt Int64.toInt_inj.1 htotal
    rw [if_neg htotal, decide_eq_true_eq, Int64.le_iff_toInt_le]
    omega

theorem listedBefore_trans (a b c : NodeLoad) (hab : listedBefore a b = true)
    (hbc : listedBefore b c = true) : listedBefore a c = true := by
  rw [listedBefore_iff] at hab hbc ⊢
  omega

theorem listedBefore_total (a b : NodeLoad) : (listedBefore a b || listedBefore b a) = true := by
  rw [Bool.or_eq_true, listedBefore_iff, listedBefore_iff]
  omega

theorem Precedes.asymm (hab : a.Precedes b) : ¬ b.Precedes a := by
  rw [precedes_iff] at hab ⊢
  omega

/-- Between loads of different groups there are no ties. -/
theorem precedes_of_listedBefore (h : listedBefore a b = true) (hne : a.group ≠ b.group) :
    a.Precedes b := by
  rw [listedBefore_iff] at h
  rw [precedes_iff]
  rcases h with htotal | ⟨htotal, hnode | ⟨hnode, hkind⟩⟩
  · exact .inl htotal
  · exact .inr ⟨htotal, .inl hnode⟩
  · have hdiffer : a.kind.ordinal ≠ b.kind.ordinal := fun hsame =>
      hne (Prod.ext (Int32.toInt_inj.1 hnode) (EventKind.ordinal_injective hsame))
    exact .inr ⟨htotal, .inr ⟨hnode, Nat.lt_of_le_of_ne hkind hdiffer⟩⟩

end

/-- Loads of different groups are sorted strictly. -/
theorem pairwise_precedes_mergeSort {loads : List NodeLoad} (h : (loads.map group).Nodup) :
    (loads.mergeSort listedBefore).Pairwise Precedes := by
  have hsorted : (loads.mergeSort listedBefore).Pairwise fun a b => listedBefore a b = true :=
    List.pairwise_mergeSort listedBefore_trans listedBefore_total loads
  have hdistinct : (loads.mergeSort listedBefore).Pairwise fun a b => a.group ≠ b.group := by
    apply List.pairwise_map.1
    exact ((loads.mergeSort_perm listedBefore).map group).nodup_iff.2 h
  exact (hsorted.and hdistinct).imp fun hboth => precedes_of_listedBefore hboth.1 hboth.2

/-- There is only one strictly ordered list of some loads. -/
theorem eq_of_pairwise_precedes {l m : List NodeLoad} (hl : l.Pairwise Precedes)
    (hm : m.Pairwise Precedes) (hsame : ∀ load, load ∈ l ↔ load ∈ m) : l = m := by
  have hnodup : ∀ {loads : List NodeLoad}, loads.Pairwise Precedes → loads.Nodup := by
    intro loads hloads
    refine hloads.imp fun {a b} hab heq => ?_
    subst heq
    exact hab.asymm hab
  refine List.Perm.eq_of_pairwise (fun a b _ _ hab hba => absurd hba hab.asymm) hl hm ?_
  exact (List.perm_ext_iff_of_nodup (hnodup hl) (hnodup hm)).2 hsame

/-- However the same loads come out of a map, sorting puts them into the same list. -/
theorem mergeSort_eq_of_perm {l m : List NodeLoad} (hm : (m.map group).Nodup) (h : l.Perm m) :
    l.mergeSort listedBefore = m.mergeSort listedBefore := by
  have hl : (l.map group).Nodup := (h.map group).nodup_iff.2 hm
  refine eq_of_pairwise_precedes (pairwise_precedes_mergeSort hl) (pairwise_precedes_mergeSort hm)
    fun load => ?_
  rw [List.mem_mergeSort, List.mem_mergeSort]
  exact h.mem_iff

/-! ## What is listed -/

/-- Every load is filed under its own group. -/
theorem SumsUp.map_group_values {filed : Loads} {records : List TaskRecord}
    (h : SumsUp filed records) : filed.values.map group = filed.keys := by
  rw [values_eq_map_toList, ← Std.HashMap.map_fst_toList_eq_keys, List.map_map]
  refine List.map_congr_left fun x hx => ?_
  exact (h.filed x.1 x.2 (Std.HashMap.mem_toList_iff_getElem?_eq_some.1 hx)).1

theorem SumsUp.nodup_groups {filed : Loads} {records : List TaskRecord} (h : SumsUp filed records) :
    (filed.values.map group).Nodup := by
  rw [h.map_group_values]
  exact Std.HashMap.nodup_keys

/-- A group has durations just when one of its records has both ends. -/
theorem durations_ne_nil_iff {records : List TaskRecord} {group : Int32 × EventKind} :
    durations records group ≠ [] ↔
      ∃ r ∈ records, r.group = group ∧ r.startTime.isSome ∧ r.finishTime.isSome := by
  have hends : ∀ r : TaskRecord, r.busy?.isSome = (r.startTime.isSome && r.finishTime.isSome) :=
    fun r => isSome_between?
  constructor
  · intro hne
    obtain ⟨d, hd⟩ := List.exists_mem_of_ne_nil _ hne
    obtain ⟨r, hr, hbusy⟩ := List.mem_filterMap.1 hd
    obtain ⟨hrecord, hgroup⟩ := List.mem_filter.1 hr
    have hboth := hends r
    rw [hbusy, Option.isSome_some, eq_comm, Bool.and_eq_true] at hboth
    exact ⟨r, hrecord, of_decide_eq_true hgroup, hboth⟩
  · rintro ⟨r, hrecord, hgroup, hboth⟩
    rw [← Bool.and_eq_true, ← hends r] at hboth
    obtain ⟨d, hd⟩ := Option.isSome_iff_exists.1 hboth
    apply List.ne_nil_of_mem (a := d)
    exact List.mem_filterMap.2 ⟨r, List.mem_filter.2 ⟨hrecord, decide_eq_true hgroup⟩, hd⟩

theorem lists_ofTrace {t : Trace} {loads : List NodeLoad} (h : ofTrace t = .ok loads) :
    Lists loads t.records := by
  obtain ⟨filed, -, hsums, rfl⟩ := exists_filed_of_ofTrace h
  refine ⟨?_, fun group => ?_, fun load hload => ?_, pairwise_precedes_mergeSort hsums.nodup_groups⟩
  · exact ((filed.values.mergeSort_perm listedBefore).map NodeLoad.group).nodup_iff.2
      hsums.nodup_groups
  · rw [← durations_ne_nil_iff, List.mem_map]
    constructor
    · rintro ⟨load, hload, rfl⟩
      exact (sums_of_mem h hload).1
    · exact exists_load h
  · obtain ⟨-, hload⟩ := sums_of_mem h hload
    exact ⟨hload.count, hload.total⟩

/-! ## Records in another order -/

/-- What a load sums up does not depend on the order of the durations. -/
theorem Sums.eq_of_perm {a b : NodeLoad} {ds es : List Int} (ha : a.Sums ds) (hb : b.Sums es)
    (hgroup : a.group = b.group) (h : ds.Perm es) : a = b := by
  obtain ⟨hnode, hkind⟩ := Prod.mk.inj hgroup
  have hcount : a.taskCount = b.taskCount := by rw [ha.count, hb.count, h.length_eq]
  have htotal : a.totalMicros.toInt = b.totalMicros.toInt := by rw [ha.total, hb.total, h.sum_eq]
  have hlongest : a.maxMicros.toInt = b.maxMicros.toInt :=
    ha.longest.unique hb.longest fun _ => (h.cons 0).mem_iff
  cases a
  cases b
  simp_all [Int64.toInt_inj]

theorem durations_perm {records others : List TaskRecord} (h : records.Perm others)
    (group : Int32 × EventKind) : (durations records group).Perm (durations others group) :=
  (h.filter _).filterMap _

/-- Every load of a trace is one of the loads of the same records in another order. -/
theorem mem_of_perm {t u : Trace} (h : t.records.Perm u.records) {loads others : List NodeLoad}
    (ht : ofTrace t = .ok loads) (hu : ofTrace u = .ok others) {load : NodeLoad}
    (hload : load ∈ loads) : load ∈ others := by
  obtain ⟨hne, hsums⟩ := sums_of_mem ht hload
  have hdurations := durations_perm h load.group
  obtain ⟨other, hother, hgroup⟩ : ∃ other ∈ others, other.group = load.group :=
    exists_load hu fun hnil => hne (List.perm_nil.1 (hnil ▸ hdurations))
  obtain ⟨-, hsums'⟩ := sums_of_mem hu hother
  rw [hgroup] at hsums'
  exact hsums.eq_of_perm hsums' hgroup.symm hdurations ▸ hother

/-- Records in another order have the same loads, in the same list. -/
theorem ofTrace_eq_of_perm {t u : Trace} (h : t.records.Perm u.records) {loads others : List NodeLoad}
    (ht : ofTrace t = .ok loads) (hu : ofTrace u = .ok others) : loads = others :=
  eq_of_pairwise_precedes (lists_ofTrace ht).ordered (lists_ofTrace hu).ordered fun _ =>
    ⟨mem_of_perm h ht hu, mem_of_perm h.symm hu ht⟩

/-! ## Means -/

/-- The mean of as many durations as a word can count is a word, and no greater than the longest. -/
theorem Sums.exists_meanMicros {load : NodeLoad} {ds : List Int} (h : load.Sums ds) (hne : ds ≠ [])
    (hlength : (ds.length : Int) ≤ Word.greatest) :
    ∃ mean, load.meanMicros = .ok mean ∧ mean ≤ load.maxMicros := by
  have hpos : 0 < ds.length := List.length_pos_of_ne_nil hne
  have hdivisor : (Int64.ofNat (max load.taskCount 1)).toInt = ds.length := by
    rw [h.count, Nat.max_eq_left hpos]
    apply Int64.toInt_ofNat_of_lt
    simp only [Word.greatest] at hlength
    omega
  have hmean := Word.div_of_pos (a := load.totalMicros)
    (b := Int64.ofNat (max load.taskCount 1)) (by omega)
  refine ⟨_, hmean, ?_⟩
  obtain ⟨hzero, hall⟩ := List.forall_mem_cons.1 h.longest.2
  have htotal : load.totalMicros.toInt ≤ load.maxMicros.toInt * ds.length := by
    rw [h.total, mul_comm, ← nsmul_eq_mul]
    exact List.sum_le_card_nsmul ds _ hall
  have hquotient : Word.Fits (load.totalMicros.toInt.tdiv ds.length) :=
    Word.fits_tdiv (Word.fits_toInt load.totalMicros) (by omega)
  rw [Int64.le_iff_toInt_le, hdivisor, Word.toInt_ofInt_of_fits hquotient]
  exact Word.tdiv_le_of_le_mul (by omega) hzero htotal

theorem length_durations_le (records : List TaskRecord) (group : Int32 × EventKind) :
    (durations records group).length ≤ records.length :=
  Nat.le_trans (List.length_filterMap_le _ _) (List.length_filter_le _ _)

/-! ## The list of a trace -/

/-- A trace without overflow has a list of loads: one for each calculator and kind with a complete
record, strictly ordered.  It is the same in whatever order the loads come out of the map, and for the
same records in any other order that has no overflow either.  If a word can count the records, as it
can those of any list in memory, then each load has a mean, which is no greater than its longest
duration shown. -/
theorem ofTrace_listsLoads {t : Trace} (h : Fitting t.records) :
    ∃ loads, ofTrace t = .ok loads ∧ Lists loads t.records ∧
      (∃ filed : Loads, t.records.foldlM addRecord Std.HashMap.emptyWithCapacity = .ok filed ∧
        ∀ drained : List NodeLoad, drained.Perm filed.values →
          drained.mergeSort listedBefore = loads) ∧
      (∀ u : Trace, u.records.Perm t.records → Fitting u.records → ofTrace u = .ok loads) ∧
      (Word.Fits t.records.length → ∀ load ∈ loads,
        ∃ mean, load.meanMicros = .ok mean ∧ mean ≤ load.maxMicros) := by
  obtain ⟨loads, hloads⟩ := exists_ofTrace h
  refine ⟨loads, hloads, lists_ofTrace hloads, ?_, fun u hperm hu => ?_, fun hcount load hload => ?_⟩
  · obtain ⟨filed, hfiled, hsums, rfl⟩ := exists_filed_of_ofTrace hloads
    exact ⟨filed, hfiled, fun drained hdrained => mergeSort_eq_of_perm hsums.nodup_groups hdrained⟩
  · obtain ⟨others, hothers⟩ := exists_ofTrace hu
    rw [hothers, ofTrace_eq_of_perm hperm hothers hloads]
  · obtain ⟨hne, hsums⟩ := sums_of_mem hloads hload
    apply hsums.exists_meanMicros hne
    have hlength := length_durations_le t.records load.group
    have hbound := hcount.2
    omega

/-- A complete record of a task, without packets. -/
def taskRecord (node : Int32) (kind : EventKind) (start finish : Int64) : TaskRecord :=
  ⟨node, .none, kind, some start, some finish, [], [], 0⟩

/-- Two calculators with the same total in one kind, and one of them with less in another kind, where
a task ended before it began.  One record is incomplete. -/
def tied : Trace where
  baseTime := 0
  baseStamp := 0
  records :=
    [taskRecord 2 .processed 0 30, taskRecord 1 .processed 40 60, taskRecord 1 .closed 9 4,
     ⟨3, .none, .opened, some 7, .none, [], [], 0⟩, taskRecord 1 .processed 0 10]
  streamNames := [""]

/-- The same records from the last to the first. -/
def tiedReversed : Trace := { tied with records := tied.records.reverse }

/-- The loads are the same in both orders of the records. -/
theorem ofTrace_listsLoads_tied :
    Fitting tied.records ∧ Fitting tiedReversed.records ∧ Word.Fits tied.records.length ∧
      durations tied.records (1, .processed) = [20, 10] ∧
      ∃ loads, ofTrace tied = .ok loads ∧ ofTrace tiedReversed = .ok loads ∧
        Lists loads tied.records ∧
        ∀ load ∈ loads, ∃ mean, load.meanMicros = .ok mean ∧ mean ≤ load.maxMicros := by
  have hfitting : Fitting tied.records := ⟨by decide, by decide⟩
  have hreversed : Fitting tiedReversed.records := ⟨by decide, by decide⟩
  have hcount : Word.Fits tied.records.length := by decide
  obtain ⟨loads, hloads, hlists, -, hperm, hmeans⟩ := ofTrace_listsLoads hfitting
  exact ⟨hfitting, hreversed, hcount, rfl, loads, hloads,
    hperm tiedReversed (List.reverse_perm _) hreversed, hlists, hmeans hcount⟩

end NodeLoad

end FlowTrace
