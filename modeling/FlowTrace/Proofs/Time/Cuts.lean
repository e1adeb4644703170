import Mathlib.Data.List.Chain
import FlowTrace.Time.Window
set_option autoImplicit false

/-!
# Time: consecutive windows and cuts

Cuts that do not go back in time divide a range into consecutive windows.  Every instant of the
range lies in exactly one of them, so that any list of things with times is shared out among the
windows, up to the order.
-/

namespace FlowTrace

namespace Window

/-- The windows from an instant to the first cut, from there to the next one, and so on. -/
def consecutive : Instant → List Instant → List Window
  | _, [] => []
  | start, cut :: cuts => ⟨start, cut⟩ :: consecutive cut cuts

/-- The range from an instant to the last of the cuts. -/
def spanning (start : Instant) (cuts : List Instant) : Window := ⟨start, cuts.getLastD start⟩

theorem spanning_cons (start cut : Instant) (cuts : List Instant) :
    spanning start (cut :: cuts) = ⟨start, (spanning cut cuts).stop⟩ := by
  rw [spanning, List.getLastD_cons, spanning]

/-- Cuts in order do not end before they start. -/
theorem start_le_stop_spanning {start : Instant} {cuts : List Instant}
    (h : (start :: cuts).IsChain (· ≤ ·)) : start ≤ (spanning start cuts).stop := by
  induction cuts generalizing start with
  | nil => exact Std.IsPreorder.le_refl start
  | cons cut cuts ih =>
    obtain ⟨hcut, hcuts⟩ := List.isChain_cons_cons.1 h
    rw [spanning_cons]
    exact Std.IsPreorder.le_trans _ _ _ hcut (ih hcuts)

theorem contains_eq_true {w : Window} {t : Instant} :
    w.contains t = true ↔ w.start ≤ t ∧ t < w.stop := by
  simp [contains]

/-- The part of a range before a cut. -/
theorem contains_before_cut {start cut stop : Instant} (h : cut ≤ stop) (t : Instant) :
    (contains ⟨start, cut⟩ t && contains ⟨start, stop⟩ t) = contains ⟨start, cut⟩ t := by
  rw [Bool.eq_iff_iff, Bool.and_eq_true, contains_eq_true, contains_eq_true]
  simp only [Instant.le_iff, Instant.lt_def] at h ⊢
  omega

/-- The part of a range from a cut on. -/
theorem contains_after_cut {start cut stop : Instant} (h : start ≤ cut) (t : Instant) :
    (!contains ⟨start, cut⟩ t && contains ⟨start, stop⟩ t) = contains ⟨cut, stop⟩ t := by
  rw [Bool.eq_iff_iff, Bool.and_eq_true, Bool.not_eq_true', Bool.eq_false_iff, ne_eq,
    contains_eq_true, contains_eq_true, contains_eq_true]
  simp only [Instant.le_iff, Instant.lt_def] at h ⊢
  omega

/-- Consecutive windows share out what has its time in the range they span. -/
theorem perm_consecutive {α : Type} (time : α → Instant) (xs : List α) {start : Instant}
    {cuts : List Instant} (h : (start :: cuts).IsChain (· ≤ ·)) :
    ((consecutive start cuts).flatMap fun w => xs.filter fun x => w.contains (time x)).Perm
      (xs.filter fun x => (spanning start cuts).contains (time x)) := by
  induction cuts generalizing start with
  | nil =>
    have hnone : ∀ x ∈ xs, ¬ (spanning start []).contains (time x) = true := by
      intro x _ hx
      obtain ⟨hstart, hstop⟩ := contains_eq_true.1 hx
      exact hstart hstop
    rw [List.filter_eq_nil_iff.2 hnone]
    exact List.Perm.nil
  | cons cut cuts ih =>
    obtain ⟨hcut, hcuts⟩ := List.isChain_cons_cons.1 h
    -- the first window takes what lies before its cut, and what is left is the range of the others
    let range := xs.filter fun x => (spanning start (cut :: cuts)).contains (time x)
    have hbefore : (range.filter fun x => contains ⟨start, cut⟩ (time x)) =
        xs.filter fun x => contains ⟨start, cut⟩ (time x) := by
      rw [List.filter_filter, spanning_cons]
      exact List.filter_congr fun x _ => contains_before_cut (start_le_stop_spanning hcuts) _
    have hafter : (range.filter fun x => !contains ⟨start, cut⟩ (time x)) =
        xs.filter fun x => (spanning cut cuts).contains (time x) := by
      rw [List.filter_filter, spanning_cons]
      exact List.filter_congr fun x _ => contains_after_cut hcut _
    have hparted := List.filter_append_perm (fun x => contains ⟨start, cut⟩ (time x)) range
    rw [hbefore, hafter] at hparted
    rw [consecutive, List.flatMap_cons]
    exact ((ih hcuts).append_left _).trans hparted

end Window

/-!
## Windows cut by a step

Cutting a window by a step gives consecutive windows that span it (`Window.split_eq`), so that the
cuts share out what lies in the window and stand in the order of time.
-/

theorem Instant.laterUpTo_le (t : Instant) (step : Nat) (stop : Instant) :
    t.laterUpTo step stop ≤ stop := by
  unfold laterUpTo
  split
  · exact Std.min_le_right
  · exact Std.le_refl stop

namespace Window

variable {step : Nat}

theorem cut_of_not_lt (hstep : 0 < step) {start stop : Instant} (h : ¬ start < stop) :
    cut step hstep start stop = [] := by
  rw [cut, dif_neg h]

theorem cut_of_lt (hstep : 0 < step) {start stop : Instant} (h : start < stop) :
    cut step hstep start stop =
      ⟨start, start.laterUpTo step stop⟩ ::
        cut step hstep (start.laterUpTo step stop) stop := by
  rw [cut, dif_pos h]

/-- The cuts of a range that holds something are consecutive windows that span it. -/
theorem exists_consecutive_of_cut (hstep : 0 < step) {start stop : Instant} (h : start < stop) :
    ∃ cuts, (start :: cuts).IsChain (· < ·) ∧ spanning start cuts = ⟨start, stop⟩ ∧
      cut step hstep start stop = consecutive start cuts := by
  induction start using cut.induct step hstep stop with
  | case1 start hlt next ih =>
    rw [cut_of_lt hstep hlt]
    rcases Std.le_iff_lt_or_eq.1 (start.laterUpTo_le step stop) with hmore | hlast
    · obtain ⟨cuts, hchain, hspan, hcut⟩ := ih hmore
      refine ⟨next :: cuts, hchain.cons_cons (Instant.lt_laterUpTo hstep hlt), ?_, ?_⟩
      · rw [spanning_cons, hspan]
      · rw [hcut, consecutive]
    · refine ⟨[stop], (List.isChain_singleton stop).cons_cons hlt, rfl, ?_⟩
      rw [hlast, cut_of_not_lt hstep (Std.le_refl stop)]
      rfl
  | case2 start hnot => exact absurd h hnot

/-- With a positive step, a window that holds something comes apart into its cuts. -/
theorem split_of_lt {w : Window} {micros : Int64} (hpos : 0 < micros) (h : w.start < w.stop) :
    ∃ hstep, w.split (some micros) = cut micros.toInt.toNat hstep w.start w.stop := by
  have hstep : 0 < micros.toInt.toNat := by
    have hsign : 0 < micros.toInt := Int64.lt_iff_toInt_lt.1 hpos
    omega
  have hne : cut micros.toInt.toNat hstep w.start w.stop ≠ [] := by
    rw [cut_of_lt hstep h]
    exact List.cons_ne_nil _ _
  refine ⟨hstep, ?_⟩
  rw [split, dif_pos hstep]
  exact if_neg hne

/-- A window that holds nothing, or is given no positive step, stays whole. -/
theorem split_of_not {w : Window} {step : Option Int64}
    (h : ¬ (w.start < w.stop ∧ ∃ micros ∈ step, 0 < micros)) : w.split step = [w] := by
  cases step with
  | none => rfl
  | some micros =>
    by_cases hstep : 0 < micros.toInt.toNat
    · have hpos : 0 < micros := by
        rw [Int64.lt_iff_toInt_lt, Int64.toInt_zero]
        omega
      have hnot : ¬ w.start < w.stop := fun hlt => h ⟨hlt, micros, rfl, hpos⟩
      rw [split, dif_pos hstep]
      exact if_pos (cut_of_not_lt hstep hnot)
    · exact dif_neg hstep

/-- A window that is split stays whole, or comes apart into consecutive windows that span it. -/
theorem split_eq (w : Window) (step : Option Int64) :
    w.split step = [w] ∨ ∃ cuts, (w.start :: cuts).IsChain (· < ·) ∧
      spanning w.start cuts = w ∧ w.split step = consecutive w.start cuts := by
  by_cases h : w.start < w.stop ∧ ∃ micros ∈ step, 0 < micros
  · obtain ⟨hlt, micros, rfl, hpos⟩ := h
    obtain ⟨hstep, hsplit⟩ := split_of_lt hpos hlt
    obtain ⟨cuts, hchain, hspan, hcut⟩ := exists_consecutive_of_cut hstep hlt
    exact .inr ⟨cuts, hchain, hspan, hsplit.trans hcut⟩
  · exact .inl (split_of_not h)

/-- The parts of a window share out what has its time in the window. -/
theorem perm_split {α : Type} (time : α → Instant) (xs : List α) (w : Window)
    (step : Option Int64) :
    ((w.split step).flatMap fun v => xs.filter fun x => v.contains (time x)).Perm
      (xs.filter fun x => w.contains (time x)) := by
  rcases w.split_eq step with hwhole | ⟨cuts, hchain, hspan, hparts⟩
  · rw [hwhole, List.flatMap_cons, List.flatMap_nil, List.append_nil]
  · have hshared := perm_consecutive time xs (hchain.imp fun _ _ => Std.le_of_lt)
    rw [hspan] at hshared
    rw [hparts]
    exact hshared

theorem le_start_of_mem_consecutive {start : Instant} {cuts : List Instant}
    (h : (start :: cuts).IsChain (· < ·)) {w : Window} (hw : w ∈ consecutive start cuts) :
    start ≤ w.start := by
  induction cuts generalizing start with
  | nil => cases hw
  | cons cut cuts ih =>
    obtain ⟨hcut, hcuts⟩ := List.isChain_cons_cons.1 h
    rcases List.mem_cons.1 hw with rfl | hw
    · exact Std.le_refl start
    · exact Std.le_trans (Std.le_of_lt hcut) (ih hcuts hw)

theorem pairwise_consecutive {start : Instant} {cuts : List Instant}
    (h : (start :: cuts).IsChain (· < ·)) :
    (consecutive start cuts).Pairwise fun u v => u.stop ≤ v.start := by
  induction cuts generalizing start with
  | nil => exact List.Pairwise.nil
  | cons cut cuts ih =>
    have hcuts := (List.isChain_cons_cons.1 h).2
    exact List.Pairwise.cons (fun v hv => le_start_of_mem_consecutive hcuts hv) (ih hcuts)

/-- Of two parts of a window, the later one in the list begins when the earlier one has ended. -/
theorem pairwise_split (w : Window) (step : Option Int64) :
    (w.split step).Pairwise fun u v => u.stop ≤ v.start := by
  rcases w.split_eq step with hwhole | ⟨cuts, hchain, -, hparts⟩
  · rw [hwhole]
    exact List.pairwise_singleton _ w
  · rw [hparts]
    exact pairwise_consecutive hchain

end Window

end FlowTrace
