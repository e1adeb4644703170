import FlowTrace.Time.Instant
set_option autoImplicit false

/-!
# Time: windows

A window holds the instants from its start on, up to but without its stop.  A window can be cut
into consecutive windows of one step each; the last one is shorter where the step does not divide
the whole.  Cutting ends because every cut moves the start forward.
-/

namespace FlowTrace

/-- A half-open range of instants. -/
structure Window where
  start : Instant
  stop : Instant
  deriving DecidableEq, Repr, Inhabited

namespace Instant

theorem lt_of_later? {t u : Instant} {step : Nat} (hstep : 0 < step)
    (h : t.later? step = some u) : t < u := by
  have ht := t.valid.2.2.1
  rw [lt_def]
  simp only [later?] at h
  split at h
  · obtain ⟨h₁, h₂⟩ := ofParts?_eq_some_iff.1 h
    omega
  · rename_i hstay
    obtain ⟨h₁, h₂⟩ := ofParts?_eq_some_iff.1 h
    simp only [secondNanos] at h₁ h₂ hstay ht
    omega

/-- The instant `step` microseconds later, but never behind `stop`. -/
def laterUpTo (t : Instant) (step : Nat) (stop : Instant) : Instant :=
  match t.later? step with
  | some next => min next stop
  | none => stop

theorem lt_laterUpTo {t stop : Instant} {step : Nat} (hstep : 0 < step) (h : t < stop) :
    t < t.laterUpTo step stop := by
  unfold laterUpTo
  split
  · rename_i next hnext
    show t < if next ≤ stop then next else stop
    split
    · exact lt_of_later? hstep hnext
    · exact h
  · exact h

end Instant

namespace Window

/-- The instant lies in the window. -/
def contains (w : Window) (t : Instant) : Bool := w.start ≤ t && t < w.stop

/-- The cuts of a window by a positive step, in order. -/
def cut (step : Nat) (hstep : 0 < step) (start stop : Instant) : List Window :=
  if _h : start < stop then
    let next := start.laterUpTo step stop
    ⟨start, next⟩ :: cut step hstep next stop
  else []
termination_by stop.rank - start.rank
decreasing_by
  have h₁ := Instant.rank_lt_rank _h
  have h₂ := Instant.rank_lt_rank (Instant.lt_laterUpTo hstep _h)
  omega

/-- The window cut into consecutive windows of `step` microseconds.  Without a positive step, and
for a window that holds nothing, it is the window itself. -/
def split (w : Window) (step : Option Int64) : List Window :=
  match step with
  | none => [w]
  | some micros =>
    if h : 0 < micros.toInt.toNat then
      let parts := cut micros.toInt.toNat h w.start w.stop
      if parts = [] then [w] else parts
    else [w]

end Window

end FlowTrace
