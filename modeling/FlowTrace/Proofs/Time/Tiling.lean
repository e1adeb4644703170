import FlowTrace.Proofs.Time.Cuts
set_option autoImplicit false

/-!
# Time: what cutting a window gives

A window is laid out from end to end by the windows it is split into (`Window.Tiles`).  Where it holds
something and the step is positive, all of them are one step long but the last, none is empty, and
they share out the instants of the window (`Window.CutBy`); otherwise the window stays whole.  Steps
into and out of a leap second are no exception, as a step always leads to a later instant.
-/

namespace FlowTrace.Window

/-- The windows lie end to end, from the start of the window to its stop. -/
structure Tiles (w : Window) (parts : List Window) : Prop where
  first : parts.head?.map Window.start = some w.start
  last : parts.getLast?.map Window.stop = some w.stop
  joined : parts.IsChain fun u v => u.stop = v.start

/-- The windows are one step long but the last, and share out the instants of the window. -/
structure CutBy (w : Window) (step : Nat) (parts : List Window) : Prop where
  /-- no part is empty -/
  holds : ∀ v ∈ parts, v.start < v.stop
  /-- every part but the last ends one step after its start -/
  steps : ∀ v ∈ parts.dropLast, v.start.later? step = some v.stop
  /-- no part goes beyond the window -/
  within : ∀ v ∈ parts, v.stop ≤ w.stop
  /-- an instant of the window lies in one part, and any other in none -/
  shares : ∀ t, (parts.countP fun v => v.contains t) = if w.contains t then 1 else 0

/-! ## Consecutive windows -/

variable {start : Instant} {cuts : List Instant}

theorem joined_consecutive (start : Instant) (cuts : List Instant) :
    (consecutive start cuts).IsChain fun u v => u.stop = v.start := by
  induction cuts generalizing start with
  | nil => exact List.IsChain.nil
  | cons cut cuts ih =>
    rw [consecutive]
    refine (ih cut).cons fun v hv => ?_
    cases cuts with
    | nil => cases hv
    | cons next cuts =>
      cases hv
      rfl

theorem last_consecutive (start : Instant) (hne : cuts ≠ []) :
    (consecutive start cuts).getLast?.map Window.stop = some (spanning start cuts).stop := by
  induction cuts generalizing start with
  | nil => exact absurd rfl hne
  | cons cut cuts ih =>
    rw [spanning_cons, consecutive]
    cases cuts with
    | nil => rfl
    | cons next cuts =>
      rw [← ih cut (List.cons_ne_nil next cuts), consecutive, List.getLast?_cons_cons]

/-- Consecutive windows lie end to end. -/
theorem tiles_consecutive (start : Instant) (hne : cuts ≠ []) :
    (spanning start cuts).Tiles (consecutive start cuts) where
  first := by
    cases cuts with
    | nil => exact absurd rfl hne
    | cons cut cuts => rfl
  last := last_consecutive start hne
  joined := joined_consecutive start cuts

theorem lt_of_mem_consecutive (h : (start :: cuts).IsChain (· < ·)) {v : Window}
    (hv : v ∈ consecutive start cuts) :
    v.start < v.stop ∧ v.stop ≤ (spanning start cuts).stop := by
  induction cuts generalizing start with
  | nil => cases hv
  | cons cut cuts ih =>
    obtain ⟨hcut, hcuts⟩ := List.isChain_cons_cons.1 h
    rw [spanning_cons]
    rcases List.mem_cons.1 hv with rfl | hv
    · exact ⟨hcut, start_le_stop_spanning (hcuts.imp fun _ _ => Std.le_of_lt)⟩
    · exact ih hcuts hv

/-! ## Cuts -/

/-- A cut in front of the end lies one step behind its start. -/
theorem later?_of_laterUpTo_lt {t stop : Instant} {step : Nat} (h : t.laterUpTo step stop < stop) :
    t.later? step = some (t.laterUpTo step stop) := by
  unfold Instant.laterUpTo at h ⊢
  split at h
  · rename_i next hnext
    have hmin : min next stop = next ∨ min next stop = stop := Std.min_eq_or
    rcases hmin with hmin | hmin
    · rw [hnext, hmin]
    · rw [hmin] at h
      exact absurd h (Std.le_refl stop)
  · exact absurd h (Std.le_refl stop)

theorem later?_of_mem_dropLast_cut {step : Nat} (hstep : 0 < step) (start stop : Instant) :
    ∀ v ∈ (cut step hstep start stop).dropLast, v.start.later? step = some v.stop := by
  induction start using cut.induct step hstep stop with
  | case1 start hlt next ih =>
    rw [cut_of_lt hstep hlt]
    by_cases hmore : next < stop
    · have hne : cut step hstep next stop ≠ [] := by
        rw [cut_of_lt hstep hmore]
        exact List.cons_ne_nil _ _
      rw [List.dropLast_cons_of_ne_nil hne]
      exact List.forall_mem_cons.2 ⟨later?_of_laterUpTo_lt hmore, ih⟩
    · rw [cut_of_not_lt hstep hmore]
      intro v hv
      cases hv
  | case2 start hnot =>
    rw [cut_of_not_lt hstep hnot]
    intro v hv
    cases hv

/-- As many of some windows hold an instant as copies of it fall to them. -/
theorem countP_contains (parts : List Window) (t : Instant) :
    (parts.countP fun v => v.contains t) =
      (parts.flatMap fun v => [t].filter fun u => v.contains u).length := by
  induction parts with
  | nil => rfl
  | cons v parts ih =>
    rw [List.countP_cons, ih, List.flatMap_cons, List.length_append, List.filter_singleton,
      Nat.add_comm]
    cases v.contains t <;> rfl

theorem countP_split (w : Window) (step : Option Int64) (t : Instant) :
    ((w.split step).countP fun v => v.contains t) = if w.contains t then 1 else 0 := by
  calc ((w.split step).countP fun v => v.contains t)
      = ((w.split step).flatMap fun v => [t].filter fun u => v.contains u).length :=
        countP_contains _ t
    _ = ([t].filter fun u => w.contains u).length := (perm_split id [t] w step).length_eq
    _ = if w.contains t then 1 else 0 := by
        rw [List.filter_singleton]
        cases w.contains t <;> rfl

theorem tiles_singleton (w : Window) : w.Tiles [w] := ⟨rfl, rfl, List.isChain_singleton w⟩

/-- Splitting a window lays windows end to end from its start to its stop.  With a positive step and
something to hold, they are cut by the step; otherwise the window stays whole. -/
theorem split_tiles (w : Window) (step : Option Int64) :
    w.Tiles (w.split step) ∧
      (∀ micros ∈ step, 0 < micros → w.start < w.stop →
        w.CutBy micros.toInt.toNat (w.split step)) ∧
      (¬ (w.start < w.stop ∧ ∃ micros ∈ step, 0 < micros) → w.split step = [w]) := by
  by_cases h : w.start < w.stop ∧ ∃ micros ∈ step, 0 < micros
  · obtain ⟨hlt, micros, rfl, hpos⟩ := h
    obtain ⟨hstep, hsplit⟩ := split_of_lt hpos hlt
    obtain ⟨cuts, hchain, hspan, hcut⟩ := exists_consecutive_of_cut hstep hlt
    have hne : cuts ≠ [] := by
      rintro rfl
      rw [cut_of_lt hstep hlt] at hcut
      cases hcut
    have htiles := tiles_consecutive w.start hne
    rw [hspan, ← hcut, ← hsplit] at htiles
    refine ⟨htiles, ?_, fun hnot => absurd ⟨hlt, micros, rfl, hpos⟩ hnot⟩
    intro other hother _ _
    cases hother
    have hparts : ∀ v ∈ w.split (some micros), v.start < v.stop ∧ v.stop ≤ w.stop := by
      rw [hsplit, hcut]
      intro v hv
      have hv := lt_of_mem_consecutive hchain hv
      rwa [hspan] at hv
    exact {
      holds := fun v hv => (hparts v hv).1
      steps := hsplit ▸ later?_of_mem_dropLast_cut hstep w.start w.stop
      within := fun v hv => (hparts v hv).2
      shares := w.countP_split (some micros) }
  · have hwhole := split_of_not h
    refine ⟨hwhole ▸ w.tiles_singleton, fun micros hmicros hpos hlt => ?_, fun _ => hwhole⟩
    exact absurd ⟨hlt, micros, hmicros, hpos⟩ h

/-- From the middle of a leap second on, in steps that leave it and then pass the end. -/
theorem split_tiles_leap :
    let w : Window := ⟨⟨59, 1500000000, by decide⟩, ⟨61, 0, by decide⟩⟩
    (600000 : Int64) ∈ some 600000 ∧ (0 : Int64) < 600000 ∧ w.start < w.stop ∧
      w.split (some 600000) =
        [⟨w.start, ⟨60, 100000000, by decide⟩⟩,
          ⟨⟨60, 100000000, by decide⟩, ⟨60, 700000000, by decide⟩⟩,
          ⟨⟨60, 700000000, by decide⟩, w.stop⟩] ∧
      w.Tiles (w.split (some 600000)) ∧ w.CutBy 600000 (w.split (some 600000)) ∧
      w.split none = [w] := by
  intro w
  have hpos : (0 : Int64) < 600000 := by decide
  have hlt : w.start < w.stop := by decide
  obtain ⟨htiles, hcut, -⟩ := split_tiles w (some 600000)
  refine ⟨rfl, hpos, hlt, by decide +kernel, htiles, hcut 600000 rfl hpos hlt, ?_⟩
  exact (split_tiles w none).2.2 (by simp)

end FlowTrace.Window
