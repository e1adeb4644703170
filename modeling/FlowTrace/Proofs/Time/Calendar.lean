import Mathlib.Algebra.Order.Ring.Nat
import FlowTrace.Time.Instant
set_option autoImplicit false

/-!
# Time: dates of days

The estimate of a year is off by one at most, so the corrected year holds the day; walking the
months of that year then gives a date that exists and has exactly that many days before it
(`Date.toDays_ofDays`).
-/

namespace FlowTrace.Calendar

/-! ## Years -/

theorem daysBefore_succ (year : Int) :
    daysBefore (year + 1) = daysBefore year + (if isLeap year then 366 else 365 : Nat) := by
  unfold daysBefore isLeap
  by_cases h4 : year % 4 = 0 <;> by_cases h100 : year % 100 = 0 <;>
    by_cases h400 : year % 400 = 0 <;> simp [h4, h100, h400] <;> omega

theorem lt_of_daysBefore_lt {a b : Int} (h : daysBefore a < daysBefore b) : a < b := by
  refine Int.not_le.1 fun hle => ?_
  rcases Int.lt_or_eq_of_le hle with hlt | rfl
  · simp only [daysBefore] at h
    omega
  · exact absurd h (Int.lt_irrefl _)

/-- The year found for a day holds the day. -/
theorem yearOf_spec (days : Int) :
    daysBefore (yearOf days) ≤ days ∧ days < daysBefore (yearOf days + 1) := by
  -- the mean length of a year puts the estimate less than a year off
  have hestimate : daysBefore (days * 400 / 146097 - 1) ≤ days ∧
      days < daysBefore (days * 400 / 146097 + 2) := by
    unfold daysBefore
    omega
  simp only [yearOf]
  split
  · rename_i hlate
    exact ⟨hlate, by rw [Int.add_assoc]; exact hestimate.2⟩
  · rename_i hlate
    split
    · rename_i hearly
      exact ⟨hestimate.1, by rw [Int.sub_add_cancel]; exact hearly⟩
    · rename_i hearly
      exact ⟨Int.not_lt.1 hearly, Int.not_le.1 hlate⟩

/-- The days of instants lie in the years of instants. -/
theorem yearOf_mem_yearBounds {days : Int} (hfirst : minSecond / daySeconds + epochDay ≤ days)
    (hlast : days ≤ maxSecond / daySeconds + epochDay) :
    yearBounds.1 ≤ yearOf days ∧ yearOf days ≤ yearBounds.2 := by
  obtain ⟨hbegin, hend⟩ := yearOf_spec days
  have hleast : daysBefore yearBounds.1 = minSecond / daySeconds + epochDay := by decide
  have hgreatest : daysBefore (yearBounds.2 + 1) = maxSecond / daySeconds + epochDay + 1 := by decide
  constructor
  · exact Int.le_of_lt_add_one (lt_of_daysBefore_lt (by omega))
  · exact Int.le_of_lt_add_one (lt_of_daysBefore_lt (by omega))

/-! ## Months -/

/-- Walking along some lengths stops in the one that holds the day. -/
theorem monthDay_spec {lengths : List Nat} {days : Nat} (h : days < lengths.sum) (month : Nat) :
    ∃ k day, monthDay month lengths days = (month + k, day + 1) ∧ k < lengths.length ∧
      day < lengths.getD k 0 ∧ (lengths.take k).sum + day = days := by
  induction lengths generalizing days month with
  | nil => exact absurd h (Nat.not_lt_zero _)
  | cons length rest ih =>
    rw [monthDay]
    by_cases hin : days < length
    · exact ⟨0, days, by simp [hin], Nat.succ_pos _, hin, Nat.zero_add _⟩
    · rw [List.sum_cons] at h
      obtain ⟨k, day, hfound, hk, hday, hsum⟩ := ih (by omega : days - length < rest.sum) (month + 1)
      refine ⟨k + 1, day, ?_, Nat.succ_lt_succ hk, hday, ?_⟩
      · rw [if_neg hin, hfound]
        exact congrArg (·, day + 1) (by omega)
      · rw [List.take_succ_cons, List.sum_cons]
        omega

theorem sum_monthLengths (leap : Bool) :
    (monthLengths leap).sum = if leap then 366 else 365 := by
  cases leap <;> rfl

theorem monthLength_le (leap : Bool) (month : Nat) : monthLength leap month ≤ 31 := by
  cases month with
  | zero => exact Nat.zero_le _
  | succ m =>
    by_cases hm : m < 12
    · have hall : ∀ leap, ∀ m < 12, (monthLengths leap).getD m 0 ≤ 31 := by decide
      exact hall leap m hm
    · have hnone : (monthLengths leap)[m]? = none :=
        List.getElem?_eq_none (Nat.not_lt.1 hm)
      simp [monthLength, hnone]

/-! ## Dates -/

namespace Date

/-- The date of a day lies in the year of the day, exists, and has that many days before it. -/
theorem ofDays_spec (days : Int) :
    (ofDays days).year = yearOf days ∧ (ofDays days).month ≤ 12 ∧ (ofDays days).Exists ∧
      (ofDays days).toDays = days := by
  obtain ⟨hbegin, hend⟩ := yearOf_spec days
  rw [daysBefore_succ, ← sum_monthLengths] at hend
  have hroom : (days - daysBefore (yearOf days)).toNat <
      (monthLengths (isLeap (yearOf days))).sum := by
    omega
  obtain ⟨k, day, hfound, hk, hday, hsum⟩ := monthDay_spec hroom 1
  have hdate : ofDays days = ⟨yearOf days, k + 1, day + 1⟩ := by
    rw [ofDays, hfound, Nat.add_comm 1 k]
  have hbefore : daysBeforeMonth (isLeap (yearOf days)) (k + 1) =
      ((monthLengths (isLeap (yearOf days))).take k).sum := by
    rw [daysBeforeMonth, Nat.add_sub_cancel, List.sum_eq_foldl]
  rw [hdate]
  refine ⟨rfl, hk, ⟨Nat.succ_pos day, hday⟩, ?_⟩
  simp only [toDays, hbefore, Nat.add_sub_cancel]
  omega

end Date

end FlowTrace.Calendar
