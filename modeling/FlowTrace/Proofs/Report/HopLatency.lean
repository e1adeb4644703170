import Mathlib.Data.List.Pairwise
import FlowTrace.Proofs.Arithmetic
import FlowTrace.Proofs.Report.Elapsed
import FlowTrace.Proofs.Trace.OpenStamps
import FlowTrace.Report.HopLatency
set_option autoImplicit false

/-!
# Report: latencies in ascending order

Latencies are sorted before they are added up.  Ascending, the sums on the way first fall and then
rise, so two of them decide whether there is a result: that of all negative latencies, and the last.
Neither depends on the order in which the packets were taken in, and no more does anything else that
is said of the latencies (`HopLatency.ofTrace_measures`).
-/

namespace FlowTrace

/-! ## Ascending sums -/

namespace Word

theorem sum_negatives_le (is : List Int) : (is.filter (· < 0)).sum ≤ is.sum := by
  induction is with
  | nil => exact Int.le_refl 0
  | cons i is ih =>
    rw [List.sum_cons]
    rw [List.filter_cons]
    split
    · rw [List.sum_cons]
      omega
    · rename_i hi
      rw [decide_eq_true_eq] at hi
      omega

/-- A sum of integers, none of them above 0, is not above 0. -/
theorem sum_nonpos {is : List Int} (h : ∀ i ∈ is, i ≤ 0) : is.sum ≤ 0 := by
  have hle := List.sum_le_card_nsmul is 0 h
  rwa [nsmul_zero] at hle

/-- In ascending order the negative integers come first, so that the sums on the way first fall and
then rise. -/
theorem sumsFit_iff_of_ascending {is : List Int} (h : is.Pairwise (· ≤ ·)) :
    SumsFit is ↔ least ≤ (is.filter (· < 0)).sum ∧ is.sum ≤ greatest := by
  constructor
  · intro hfit
    have hfirst : is.takeWhile (· < 0) = is.filter (· < 0) := by
      refine takeWhile_eq_filter_of_pairwise (h.imp fun hle hneg => ?_)
      rw [decide_eq_true_eq] at hneg ⊢
      omega
    have hlowest := hfit _ (List.takeWhile_prefix (· < 0))
    rw [hfirst] at hlowest
    exact ⟨hlowest.1, hfit.fits.2⟩
  · rintro ⟨hlow, hhigh⟩ before ⟨rest, rfl⟩
    obtain ⟨-, -, hbefore⟩ := List.pairwise_append.1 h
    rw [List.filter_append, List.sum_append] at hlow
    rw [List.sum_append] at hhigh
    have hfalls := sum_negatives_le before
    have hnegative : (rest.filter (· < 0)).sum ≤ 0 :=
      sum_nonpos fun i hi => Int.le_of_lt (of_decide_eq_true (List.mem_filter.1 hi).2)
    refine ⟨by omega, ?_⟩
    by_cases hrest : ∀ i ∈ rest, 0 ≤ i
    · have hrises := List.sum_nonneg hrest
      omega
    · -- something negative is still to come, so nothing so far was above 0
      push Not at hrest
      obtain ⟨i, hi, hneg⟩ := hrest
      have hsum := sum_nonpos fun a ha => Int.le_of_lt (Int.lt_of_le_of_lt (hbefore a ha i hi) hneg)
      simp only [greatest]
      omega

end Word

/-- How long the packet took, told exactly, where its producer and its consumer were seen. -/
def StreamRecord.latency? (p : StreamRecord) : Option Int := between? p.startTime p.finishTime

theorem mapM_eq_ok_map {α β ε : Type} {f : α → Except ε β} {g : α → β} {as : List α}
    (h : ∀ a ∈ as, f a = .ok (g a)) : as.mapM f = .ok (as.map g) := by
  induction as with
  | nil => rfl
  | cons a as ih =>
    obtain ⟨hfirst, hrest⟩ := List.forall_mem_cons.1 h
    rw [List.mapM_cons, hfirst, ih hrest]
    rfl

namespace HopLatency

/-- The packets taken in, in the order of the records. -/
def packets (t : Trace) : List StreamRecord := t.records.flatMap TaskRecord.inputs

/-- The latencies of the packets that have one. -/
def known (packets : List StreamRecord) : List Int := packets.filterMap StreamRecord.latency?

/-- What the statistics say about some packets. -/
structure Measures (l : HopLatency) (packets : List StreamRecord) : Prop where
  counted : l.resolved + l.unresolved = packets.length
  resolved : l.resolved = packets.countP fun p => p.startTime.isSome && p.finishTime.isSome
  /-- the median is in the middle of the latencies in ascending order, or behind the middle of an
  even number of them -/
  median : known packets ≠ [] → ∀ sorted : List Int, sorted.Perm (known packets) →
    sorted.Pairwise (· ≤ ·) → sorted[sorted.length / 2]? = some l.medianMicros.toInt
  longest : known packets ≠ [] → Longest l.maxMicros.toInt (known packets)

/-! ## Latencies as sorted words -/

/-- Latencies as words, in ascending order. -/
def ascending (ds : List Int) : List Int64 := (ds.map Int64.ofInt).mergeSort fun a b => a ≤ b

theorem length_ascending (ds : List Int) : (ascending ds).length = ds.length := by
  rw [ascending, List.length_mergeSort, List.length_map]

/-- Where every latency fits, the statistics are those of the sorted words. -/
theorem ofTrace_of_fits {t : Trace} (h : ∀ p ∈ packets t, ∀ d ∈ p.latency?, Word.Fits d) :
    ofTrace t =
      ofSorted (ascending (known (packets t))) ((packets t).length - (known (packets t)).length) := by
  have hall : latencies t = .ok ((packets t).map fun p => p.latency?.map Int64.ofInt) :=
    mapM_eq_ok_map fun p hp => elapsed_of_fits (h p hp)
  have hresolved : ((packets t).map fun p => p.latency?.map Int64.ofInt).filterMap id =
      (known (packets t)).map Int64.ofInt := by
    rw [List.filterMap_map, known, List.map_filterMap]
    rfl
  rw [ofTrace, hall]
  show ofSorted _ (List.length _ - List.length _) = _
  rw [hresolved, List.length_map, List.length_map]
  rfl

/-- Only one list has these latencies in ascending order. -/
theorem eq_of_pairwise_le {ds es : List Int} (hds : ds.Pairwise (· ≤ ·)) (hes : es.Pairwise (· ≤ ·))
    (h : ds.Perm es) : ds = es :=
  List.Perm.eq_of_pairwise (fun _ _ _ _ => Int.le_antisymm) hds hes h

section

variable {ds : List Int}

theorem pairwise_ascending : ((ascending ds).map Int64.toInt).Pairwise (· ≤ ·) := by
  have hsorted : (ascending ds).Pairwise fun a b => decide (a ≤ b) = true := by
    apply List.pairwise_mergeSort
    · intro a b c hab hbc
      exact decide_eq_true (Int64.le_trans (of_decide_eq_true hab) (of_decide_eq_true hbc))
    · intro a b
      simpa using Int64.le_total a b
  apply List.pairwise_map.2
  exact hsorted.imp fun hle => Int64.le_iff_toInt_le.1 (of_decide_eq_true hle)

theorem ascending_perm (h : ∀ d ∈ ds, Word.Fits d) : ((ascending ds).map Int64.toInt).Perm ds := by
  have hback : (ds.map Int64.ofInt).map Int64.toInt = ds := by
    rw [List.map_map]
    refine (List.map_congr_left fun d hd => ?_).trans (List.map_id ds)
    exact Word.toInt_ofInt_of_fits (h d hd)
  refine ((List.mergeSort_perm _ _).map Int64.toInt).trans ?_
  rw [hback]

/-- Latencies in another order are the same in ascending order. -/
theorem ascending_eq_of_perm {es : List Int} (h : ds.Perm es) : ascending ds = ascending es := by
  have hwords : (ascending ds).Perm (ascending es) :=
    (List.mergeSort_perm _ _).trans ((h.map Int64.ofInt).trans (List.mergeSort_perm _ _).symm)
  have htold := eq_of_pairwise_le pairwise_ascending pairwise_ascending (hwords.map Int64.toInt)
  exact List.map_injective_iff.2 (fun _ _ => Int64.toInt_inj.1) htold

theorem sumsFit_ascending (h : ∀ d ∈ ds, Word.Fits d) :
    Word.SumsFit ((ascending ds).map Int64.toInt) ↔
      Word.least ≤ (ds.filter (· < 0)).sum ∧ ds.sum ≤ Word.greatest := by
  have hperm := ascending_perm h
  rw [Word.sumsFit_iff_of_ascending pairwise_ascending, hperm.sum_eq,
    (hperm.filter (· < 0)).sum_eq]

end

/-! ## The statistics -/

theorem ofSorted_of_ne_nil {sorted : List Int64} (h : sorted ≠ []) (unresolved : Nat) :
    ofSorted sorted unresolved = (Word.sum sorted).map fun total =>
      { resolved := sorted.length
        unresolved
        meanMicros := total.toFloat / sorted.length.toUInt64.toFloat
        medianMicros := sorted.getD (sorted.length / 2) 0
        maxMicros := sorted.getLast h } := by
  rw [ofSorted, List.getLast?_eq_some_getLast h]
  cases Word.sum sorted <;> rfl

/-- Latencies whose sums on the way do not fit have no statistics. -/
theorem ofSorted_of_not_sumsFit {sorted : List Int64} (h : ¬ Word.SumsFit (sorted.map Int64.toInt))
    (unresolved : Nat) : ofSorted sorted unresolved = .error .add := by
  have hne : sorted ≠ [] := by
    rintro rfl
    exact h ((Word.sumsFit_iff_of_ascending List.Pairwise.nil).2 ⟨by decide, by decide⟩)
  rw [ofSorted_of_ne_nil hne, Word.sum_of_not_sumsFit h]
  rfl

section

variable {packets : List StreamRecord}

theorem length_known : (known packets).length =
    packets.countP fun p => p.startTime.isSome && p.finishTime.isSome := by
  rw [known, List.length_filterMap_eq_countP]
  exact List.countP_congr fun p _ => by rw [StreamRecord.latency?, isSome_between?]

theorem length_known_le : (known packets).length ≤ packets.length := List.length_filterMap_le _ _

/-- Latencies whose sums on the way fit have statistics. -/
theorem exists_measures (hfits : ∀ d ∈ known packets, Word.Fits d)
    (hsums : Word.SumsFit ((ascending (known packets)).map Int64.toInt)) :
    ∃ l, ofSorted (ascending (known packets)) (packets.length - (known packets).length) = .ok l ∧
      l.Measures packets := by
  by_cases hnone : known packets = []
  · refine ⟨⟨0, packets.length, 0, 0, 0⟩, ?_, Nat.zero_add _, ?_, fun hne => absurd hnone hne,
      fun hne => absurd hnone hne⟩
    · rw [hnone, List.eq_nil_of_length_eq_zero (length_ascending [])]
      rfl
    · rw [← length_known, hnone]
      rfl
  · have hlength := length_ascending (known packets)
    have hperm := ascending_perm hfits
    have hsome : ascending (known packets) ≠ [] := by
      rw [← List.length_pos_iff, hlength, List.length_pos_iff]
      exact hnone
    rw [ofSorted_of_ne_nil hsome, Word.sum_of_sumsFit hsums]
    refine ⟨_, rfl, ?_, hlength.trans length_known, fun _ sorted hsorted hordered => ?_, fun _ => ?_⟩
    · rw [hlength]
      exact Nat.add_sub_cancel' length_known_le
    · have hmiddle : (ascending (known packets)).length / 2 < (ascending (known packets)).length :=
        Nat.div_lt_self (List.length_pos_iff.2 hsome) Nat.one_lt_two
      rw [eq_of_pairwise_le hordered pairwise_ascending (hsorted.trans hperm.symm), List.length_map,
        List.getElem?_map, List.getD_eq_getElem?_getD, List.getElem?_eq_getElem hmiddle]
      rfl
    · refine ⟨?_, fun d hd => ?_⟩
      · apply hperm.mem_iff.1
        exact List.mem_map_of_mem (List.getLast_mem hsome)
      · have hlast := pairwise_ascending.rel_getLast (hperm.mem_iff.2 hd)
        rwa [List.getLast_map] at hlast

end

/-- The packets of the same records in another order are the same packets in another order. -/
theorem packets_perm {t u : Trace} (h : u.records.Perm t.records) : (packets u).Perm (packets t) :=
  h.flatMap_right _

/-- Where no latency of a packet overflows, the statistics measure all packets taken in, unless the
sum of the negative latencies or the sum of all latencies leaves the words; then an addition
overflows.  The outcome is the same for the same packets in any other order, be it that records
or packets are exchanged. -/
theorem ofTrace_measures {t : Trace} (h : ∀ p ∈ packets t, ∀ d ∈ p.latency?, Word.Fits d) :
    (ofTrace t = .error .add ∨ ∃ l, ofTrace t = .ok l ∧ l.Measures (packets t)) ∧
      (ofTrace t = .error .add ↔
        ((known (packets t)).filter (· < 0)).sum < Word.least ∨
          Word.greatest < (known (packets t)).sum) ∧
      (∀ u : Trace, u.records.Perm t.records → ofTrace u = ofTrace t) ∧
      ∀ u : Trace, (packets u).Perm (packets t) → ofTrace u = ofTrace t := by
  have hfits : ∀ d ∈ known (packets t), Word.Fits d := fun d hd => by
    obtain ⟨p, hp, hlatency⟩ := List.mem_filterMap.1 hd
    exact h p hp d hlatency
  have hsame : ∀ u : Trace, (packets u).Perm (packets t) → ofTrace u = ofTrace t := by
    intro u hperm
    have hknown : (known (packets u)).Perm (known (packets t)) := hperm.filterMap _
    rw [ofTrace_of_fits h, ofTrace_of_fits fun p hp => h p (hperm.mem_iff.1 hp),
      ascending_eq_of_perm hknown, hperm.length_eq, hknown.length_eq]
  rw [ofTrace_of_fits h]
  rw [ofTrace_of_fits h] at hsame
  by_cases hsums : Word.SumsFit ((ascending (known (packets t))).map Int64.toInt)
  · obtain ⟨l, hl, hmeasures⟩ := exists_measures hfits hsums
    rw [sumsFit_ascending hfits] at hsums
    refine ⟨.inr ⟨l, hl, hmeasures⟩, ?_, fun u hu => hsame u (packets_perm hu), hsame⟩
    rw [hl]
    refine ⟨nofun, fun hout => ?_⟩
    omega
  · have herror := ofSorted_of_not_sumsFit hsums
      ((packets t).length - (known (packets t)).length)
    rw [sumsFit_ascending hfits] at hsums
    refine ⟨.inl herror, ⟨fun _ => ?_, fun _ => herror⟩, fun u hu => hsame u (packets_perm hu), hsame⟩
    omega

/-- A packet whose producer was seen. -/
def taken (start finish : Int64) : StreamRecord := ⟨some start, some finish, 0, 1, .none⟩

/-- Two tasks, each with the packets it took in. -/
def twoTasks (first second : List StreamRecord) : Trace where
  baseTime := 0
  baseStamp := 0
  records :=
    [⟨1, .none, .processed, some 0, some 9, first, [], 0⟩,
     ⟨2, .none, .processed, some 9, some 20, second, [], 0⟩]
  streamNames := [""]

/-- Two packets, one of which was taken in before its producer was done with it. -/
def early : List StreamRecord := [taken 0 7, taken 6 4]

/-- Two packets, one of which has a producer that was not seen. -/
def unseen : List StreamRecord := [⟨.none, some 9, 0, 1, .none⟩, taken 9 13]

/-- The latencies are 7, -2 and 4: the median is 4, and exchanging the packets changes nothing. -/
theorem ofTrace_measures_exchanged :
    (∀ p ∈ packets (twoTasks early unseen), ∀ d ∈ p.latency?, Word.Fits d) ∧
      ∃ l, ofTrace (twoTasks early unseen) = .ok l ∧ ofTrace (twoTasks unseen early) = .ok l ∧
        l.resolved + l.unresolved = 4 ∧ l.medianMicros.toInt = 4 ∧
        Longest l.maxMicros.toInt [7, -2, 4] := by
  have hfits : ∀ p ∈ packets (twoTasks early unseen), ∀ d ∈ p.latency?, Word.Fits d := by decide
  have hknown : known (packets (twoTasks early unseen)) = [7, -2, 4] := by decide
  obtain ⟨hcases, hiff, -, hperm⟩ := ofTrace_measures hfits
  rw [hknown] at hiff
  have hok : ofTrace (twoTasks early unseen) ≠ .error .add := fun herror => by
    have hout := hiff.1 herror
    revert hout
    decide
  obtain ⟨l, hl, hmeasures⟩ := hcases.resolve_left hok
  have hexchanged := hperm (twoTasks unseen early) List.perm_append_comm
  have hsome : known (packets (twoTasks early unseen)) ≠ [] := hknown ▸ List.cons_ne_nil _ _
  have hmiddle := hmeasures.median hsome [-2, 4, 7] (by rw [hknown]; decide) (by decide)
  have hlongest := hmeasures.longest hsome
  rw [hknown] at hlongest
  exact ⟨hfits, l, hl, hexchanged.trans hl, hmeasures.counted, (Option.some.inj hmiddle).symm,
    hlongest⟩

end HopLatency

end FlowTrace
