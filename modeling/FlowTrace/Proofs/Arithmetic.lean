import Mathlib.Algebra.Order.BigOperators.Group.List
import Mathlib.Algebra.Order.Ring.Int
import Mathlib.Data.List.Induction
import FlowTrace.Arithmetic
set_option autoImplicit false

/-!
# Arithmetic: sums and quotients that fit

A sum of words is added from the left and has a result just when no sum on the way leaves the words
(`Word.SumsFit`).  So whether there is a result depends on the order of the words, and what it is
does not.  A quotient by a positive word always has a result.
-/

namespace FlowTrace.Word

theorem exact_of_fits {cause : Overflow} {i : Int} (h : Fits i) :
    exact cause i = .ok (Int64.ofInt i) :=
  if_pos h

/-! ## Sums from the left -/

/-- No sum on the way, added from the left, leaves the words. -/
def SumsFit (is : List Int) : Prop := ∀ before, before <+: is → Fits before.sum

theorem sumsFit_concat {is : List Int} {i : Int} :
    SumsFit (is ++ [i]) ↔ SumsFit is ∧ Fits (is.sum + i) := by
  have hsum : (is ++ [i]).sum = is.sum + i := by rw [List.sum_append, List.sum_singleton]
  constructor
  · intro h
    refine ⟨fun before hbefore => h before (hbefore.trans (List.prefix_append is [i])), ?_⟩
    rw [← hsum]
    exact h _ (List.prefix_refl _)
  · rintro ⟨hbefore, hlast⟩ before hprefix
    rcases List.prefix_concat_iff.1 hprefix with rfl | hshorter
    · rwa [hsum]
    · exact hbefore before hshorter

theorem SumsFit.fits {is : List Int} (h : SumsFit is) : Fits is.sum := h is (List.prefix_refl is)

theorem sum_concat (ws : List Int64) (w : Int64) :
    sum (ws ++ [w]) = sum ws >>= fun total => add total w := by
  rw [sum, List.foldlM_append]
  refine bind_congr fun total => ?_
  exact bind_pure (add total w)

/-- The sum of words whose sums on the way fit is the exact one. -/
theorem sum_of_sumsFit {ws : List Int64} (h : SumsFit (ws.map Int64.toInt)) :
    sum ws = .ok (Int64.ofInt (ws.map Int64.toInt).sum) := by
  induction ws using List.reverseRecOn with
  | nil => rfl
  | append_singleton ws w ih =>
    rw [List.map_append, List.map_singleton, sumsFit_concat] at h
    have htotal := toInt_ofInt_of_fits h.1.fits
    rw [sum_concat, ih h.1, List.map_append, List.map_singleton, List.sum_append,
      List.sum_singleton]
    show add (Int64.ofInt (ws.map Int64.toInt).sum) w = _
    rw [add, htotal, exact_of_fits h.2]

/-- Words have no sum if one on the way leaves the words. -/
theorem sum_of_not_sumsFit {ws : List Int64} (h : ¬ SumsFit (ws.map Int64.toInt)) :
    sum ws = .error .add := by
  induction ws using List.reverseRecOn with
  | nil =>
    refine absurd (fun before hbefore => ?_) h
    rw [List.prefix_nil.1 hbefore]
    decide
  | append_singleton ws w ih =>
    rw [List.map_append, List.map_singleton, sumsFit_concat] at h
    rw [sum_concat]
    by_cases hbefore : SumsFit (ws.map Int64.toInt)
    · have hlast : ¬ Fits ((ws.map Int64.toInt).sum + w.toInt) := fun hlast => h ⟨hbefore, hlast⟩
      rw [sum_of_sumsFit hbefore]
      show add (Int64.ofInt (ws.map Int64.toInt).sum) w = _
      rw [add, toInt_ofInt_of_fits hbefore.fits, exact_eq_error_iff]
      exact hlast
    · rw [ih hbefore]
      rfl

/-! ## Bounds of sums -/

/-- A sum of integers that are no farther from 0 than a bound is no farther than as many times the
bound. -/
theorem sum_within {is : List Int} {top : Int} (h : ∀ i ∈ is, -top ≤ i ∧ i ≤ top) :
    -(is.length * top) ≤ is.sum ∧ is.sum ≤ is.length * top := by
  have hlow := List.card_nsmul_le_sum is (-top) fun i hi => (h i hi).1
  have hhigh := List.sum_le_card_nsmul is top fun i hi => (h i hi).2
  rw [nsmul_eq_mul] at hlow hhigh
  rw [mul_neg] at hlow
  exact ⟨hlow, hhigh⟩

/-- No more than `n` integers that are no farther from 0 than a bound have sums that fit, if `n` times
the bound fits. -/
theorem sumsFit_of_within {is : List Int} {top n : Nat}
    (h : ∀ i ∈ is, -(top : Int) ≤ i ∧ i ≤ top) (hlength : is.length ≤ n)
    (hbound : n * (top : Int) ≤ greatest) : SumsFit is := by
  intro before hbefore
  obtain ⟨hlow, hhigh⟩ := sum_within fun i hi => h i (hbefore.subset hi)
  have hle : before.length * (top : Int) ≤ n * (top : Int) := by
    exact_mod_cast Nat.mul_le_mul_right top (hbefore.length_le.trans hlength)
  simp only [Fits, least, greatest] at hbound ⊢
  omega

/-! ## Quotients -/

theorem tdiv_nonpos {a b : Int} (ha : a ≤ 0) (hb : 0 < b) : a.tdiv b ≤ 0 := by
  have hquotient := Int.tdiv_nonneg (Int.neg_nonneg_of_nonpos ha) (Int.le_of_lt hb)
  rw [Int.neg_tdiv] at hquotient
  omega

/-- A quotient by a positive integer lies between 0 and what is divided. -/
theorem fits_tdiv {a b : Int} (ha : Fits a) (hb : 0 < b) : Fits (a.tdiv b) := by
  have hsize := Int.natAbs_tdiv_le_natAbs a b
  have hsign : a ≤ 0 → a.tdiv b ≤ 0 := fun hle => tdiv_nonpos hle hb
  rw [fits_iff] at ha ⊢
  omega

/-- A quotient is no greater than a bound that is not negative, if what is divided is no greater than
as many times the bound. -/
theorem tdiv_le_of_le_mul {a b bound : Int} (hb : 0 < b) (hbound : 0 ≤ bound) (h : a ≤ bound * b) :
    a.tdiv b ≤ bound := by
  rcases Int.le_total 0 a with hpos | hneg
  · rw [Int.tdiv_eq_ediv_of_nonneg hpos]
    exact Int.ediv_le_of_le_mul hb h
  · exact Int.le_trans (tdiv_nonpos hneg hb) hbound

/-- The quotient by a positive word is the exact one, rounded toward zero. -/
theorem div_of_pos {a b : Int64} (hb : 0 < b.toInt) :
    div a b = .ok (Int64.ofInt (a.toInt.tdiv b.toInt)) := by
  have hne : b ≠ 0 := by
    rintro rfl
    exact absurd hb (by decide)
  rw [div, if_neg hne, exact_of_fits (fits_tdiv (fits_toInt a) hb)]

end FlowTrace.Word
