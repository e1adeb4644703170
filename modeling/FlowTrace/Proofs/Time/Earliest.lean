import FlowTrace.Trace.Record
set_option autoImplicit false

/-!
# Time: least elements and relative times

Outside leap seconds a later instant has no smaller count of microseconds, and a clamped difference
keeps that order.  So the relative time of the earliest event is the least of the relative times,
however the events are grouped first.
-/

namespace FlowTrace

/-! ## Least elements of lists -/

section

variable {α β : Type} [Min α] [LE α] [Std.IsLinearOrder α] [Std.LawfulOrderMin α]
variable [Min β] [LE β] [Std.IsLinearOrder β] [Std.LawfulOrderMin β]

/-- Leaving out elements that are not the least changes nothing. -/
theorem min?_eq_of_subset {l m : List α} (hsub : ∀ a ∈ m, a ∈ l)
    (hleast : ∀ a ∈ l, ∃ b ∈ m, b ≤ a) : m.min? = l.min? := by
  cases hm : m.min? with
  | none =>
    rw [List.min?_eq_none_iff] at hm
    have hl : l = [] := by
      rw [List.eq_nil_iff_forall_not_mem]
      intro a ha
      obtain ⟨b, hb, _⟩ := hleast a ha
      rw [hm] at hb
      cases hb
    rw [hl, List.min?_nil]
  | some b =>
    obtain ⟨hb, hbound⟩ := List.min?_eq_some_iff.1 hm
    refine (List.min?_eq_some_iff.2 ⟨hsub b hb, fun a ha => ?_⟩).symm
    obtain ⟨c, hc, hca⟩ := hleast a ha
    exact Std.IsPreorder.le_trans b c a (hbound c hc) hca

theorem min?_eq_of_perm {l m : List α} (h : l.Perm m) : l.min? = m.min? :=
  min?_eq_of_subset (fun _ ha => h.mem_iff.1 ha)
    fun a ha => ⟨a, h.mem_iff.2 ha, Std.IsPreorder.le_refl a⟩

/-- The least of the least elements is the least of all. -/
theorem min?_filterMap_min? (ls : List (List α)) :
    (ls.filterMap List.min?).min? = ls.flatten.min? := by
  refine min?_eq_of_subset (fun a ha => ?_) fun a ha => ?_
  · obtain ⟨l, hl, hmin⟩ := List.mem_filterMap.1 ha
    exact List.mem_flatten.2 ⟨l, hl, (List.min?_eq_some_iff.1 hmin).1⟩
  · obtain ⟨l, hl, ha⟩ := List.mem_flatten.1 ha
    cases hmin : l.min? with
    | none =>
      rw [List.min?_eq_none_iff.1 hmin] at ha
      cases ha
    | some b =>
      exact ⟨b, List.mem_filterMap.2 ⟨l, hl, hmin⟩, (List.min?_eq_some_iff.1 hmin).2 a ha⟩

/-- A function that keeps the order takes the least element to the least of the values. -/
theorem map_min? {f : α → β} {l : List α} (h : ∀ a ∈ l, ∀ b ∈ l, a ≤ b → f a ≤ f b) :
    l.min?.map f = (l.map f).min? := by
  cases hmin : l.min? with
  | none =>
    rw [List.min?_eq_none_iff.1 hmin]
    rfl
  | some a =>
    obtain ⟨ha, hbound⟩ := List.min?_eq_some_iff.1 hmin
    refine (List.min?_eq_some_iff.2 ⟨List.mem_map_of_mem ha, fun c hc => ?_⟩).symm
    obtain ⟨b, hb, rfl⟩ := List.mem_map.1 hc
    exact h a ha b hb (hbound b hb)

end

/-! ## Relative times -/

theorem Instant.micros_le_micros {a b : Instant} (ha : a.isLeap = false) (h : a ≤ b) :
    a.micros ≤ b.micros := by
  rw [Int64.le_iff_toInt_le, toInt_micros, toInt_micros]
  have hnano : a.nano < 1000000000 := Nat.lt_of_not_le (of_decide_eq_false ha)
  rw [le_iff] at h
  simp only [microsInt]
  omega

theorem Word.toInt_ofIntClamp (i : Int) :
    (Int64.ofIntClamp i).toInt = max least (min greatest i) := by
  have hmin : Int64.minValue.toInt = least := rfl
  have hmax : Int64.maxValue.toInt = greatest := rfl
  have hbounds : least ≤ greatest := by decide
  by_cases hl : least ≤ i
  · by_cases hr : i ≤ greatest
    · rw [Int64.toInt_ofIntClamp (hmin ▸ hl) (hmax ▸ hr)]
      omega
    · rw [Int64.ofIntClamp, dif_pos (hmin ▸ hl), dif_neg (hmax ▸ hr), hmax]
      omega
  · rw [Int64.ofIntClamp, dif_neg (hmin ▸ hl), hmin]
    omega

theorem Word.clampedSub_le_clampedSub {a b : Int64} (h : a ≤ b) (c : Int64) :
    clampedSub a c ≤ clampedSub b c := by
  rw [Int64.le_iff_toInt_le] at h ⊢
  rw [clampedSub, clampedSub, toInt_ofIntClamp, toInt_ofIntClamp]
  omega

/-- Outside leap seconds, relative times keep the order of instants. -/
theorem Origin.time_le_time (o : Origin) {a b : Instant} (ha : a.isLeap = false) (h : a ≤ b) :
    o.time a ≤ o.time b :=
  Word.clampedSub_le_clampedSub (Instant.micros_le_micros ha h) o.baseTime

end FlowTrace
