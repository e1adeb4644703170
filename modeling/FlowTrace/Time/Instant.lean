import FlowTrace.Arithmetic
set_option autoImplicit false

/-!
# Time: instants

An instant is a second of the UTC time line and a number of nanoseconds into it.  A leap second is
written as the second before it with more than a thousand million nanoseconds, so that it lies
behind every other instant of that second; it can only follow the last second of a minute.
Instants reach from the first day of the year -262143 to the last of the year 262142.
-/

namespace FlowTrace

/-!
## The proleptic Gregorian calendar

Days are counted from 0000-01-01, before which the count is negative.  A year is found from a day
by an estimate from the mean length of a year, corrected by one where it is off; a month is found by
walking the lengths of the months of that year.
-/

namespace Calendar

/-- The year has a 29 February. -/
def isLeap (year : Int) : Bool :=
  year % 4 = 0 && (year % 100 != 0 || year % 400 = 0)

/-- The days before the first day of a year. -/
def daysBefore (year : Int) : Int :=
  365 * year + (year + 3) / 4 - (year + 99) / 100 + (year + 399) / 400

/-- The lengths of the months of a year. -/
def monthLengths (leap : Bool) : List Nat :=
  [31, if leap then 29 else 28, 31, 30, 31, 30, 31, 31, 30, 31, 30, 31]

/-- The length of a month, zero for a month that does not exist. -/
def monthLength (leap : Bool) (month : Nat) : Nat :=
  match month with
  | 0 => 0
  | m + 1 => (monthLengths leap).getD m 0

/-- The days of a year before a month. -/
def daysBeforeMonth (leap : Bool) (month : Nat) : Nat :=
  ((monthLengths leap).take (month - 1)).foldl (· + ·) 0

/-- A calendar date; it need not exist. -/
structure Date where
  year : Int
  month : Nat
  day : Nat
  deriving DecidableEq, Repr, Inhabited

namespace Date

/-- The date exists. -/
def Exists (date : Date) : Prop :=
  1 ≤ date.day ∧ date.day ≤ monthLength (isLeap date.year) date.month

instance (date : Date) : Decidable date.Exists := inferInstanceAs (Decidable (_ ∧ _))

/-- The days before an existing date. -/
def toDays (date : Date) : Int :=
  daysBefore date.year + daysBeforeMonth (isLeap date.year) date.month + (date.day - 1 : Nat)

end Date

/-- The year that holds a day. -/
def yearOf (days : Int) : Int :=
  let estimate := days * 400 / 146097
  if daysBefore (estimate + 1) ≤ days then estimate + 1
  else if days < daysBefore estimate then estimate - 1
  else estimate

/-- The month, counted from `month`, and the day of the month that lie `days` days after the start
of the listed months. -/
def monthDay (month : Nat) : List Nat → Nat → Nat × Nat
  | [], days => (month, days + 1)
  | length :: rest, days =>
    if days < length then (month, days + 1) else monthDay (month + 1) rest (days - length)

/-- The date of a day. -/
def Date.ofDays (days : Int) : Date :=
  let year := yearOf days
  let (month, day) := monthDay 1 (monthLengths (isLeap year)) (days - daysBefore year).toNat
  ⟨year, month, day⟩

end Calendar

/-! ## Instants -/

/-- The days from 0000-01-01 to 1970-01-01. -/
def epochDay : Int := 719528

/-- The seconds of a day. -/
def daySeconds : Int := 86400

/-- The nanoseconds of a second. -/
def secondNanos : Nat := 1000000000

/-- The least and greatest year of an instant. -/
def yearBounds : Int × Int := (-262143, 262142)

/-- The first second that an instant can have: -262143-01-01T00:00:00Z. -/
def minSecond : Int := -8334601228800

/-- The last second that an instant can have: +262142-12-31T23:59:59Z. -/
def maxSecond : Int := 8210266876799

/-- The parts form an instant. -/
def Instant.Valid (second : Int) (nano : Nat) : Prop :=
  minSecond ≤ second ∧ second ≤ maxSecond ∧ nano < 2 * secondNanos ∧
    (secondNanos ≤ nano → second % 60 = 59)

instance (second : Int) (nano : Nat) : Decidable (Instant.Valid second nano) :=
  inferInstanceAs (Decidable (_ ∧ _ ∧ _ ∧ (_ → _)))

/-- A point on the UTC time line. -/
structure Instant where
  /-- seconds since 1970-01-01T00:00:00Z -/
  second : Int
  /-- nanoseconds into the second, from `10^9` on inside the leap second after it -/
  nano : Nat
  valid : Instant.Valid second nano
  deriving DecidableEq

namespace Instant

/-- The instant of a second and its nanoseconds, if there is one. -/
def ofParts? (second : Int) (nano : Nat) : Option Instant :=
  if h : Valid second nano then some ⟨second, nano, h⟩ else none

theorem ofParts?_eq_some_iff {second : Int} {nano : Nat} {t : Instant} :
    ofParts? second nano = some t ↔ t.second = second ∧ t.nano = nano := by
  unfold ofParts?
  split
  · rw [Option.some.injEq]
    constructor
    · rintro rfl
      exact ⟨rfl, rfl⟩
    · rintro ⟨rfl, rfl⟩
      rfl
  · rename_i h
    constructor
    · intro h'
      cases h'
    · rintro ⟨rfl, rfl⟩
      exact absurd t.valid h

/-- 1970-01-01T00:00:00Z. -/
def epoch : Instant := ⟨0, 0, by decide⟩

instance : Inhabited Instant := ⟨epoch⟩

instance : Repr Instant := ⟨fun t _ => repr (t.second, t.nano)⟩

/-- The instant lies inside a leap second. -/
def isLeap (t : Instant) : Bool := secondNanos ≤ t.nano

/-! ## Order -/

/-- Instants are ordered by second, then by nanosecond. -/
def Before (a b : Instant) : Prop :=
  a.second < b.second ∨ (a.second = b.second ∧ a.nano < b.nano)

instance : LT Instant := ⟨Before⟩

instance : LE Instant := ⟨fun a b => ¬ b < a⟩

instance (a b : Instant) : Decidable (a < b) :=
  inferInstanceAs (Decidable (_ ∨ (_ ∧ _)))

instance (a b : Instant) : Decidable (a ≤ b) := inferInstanceAs (Decidable (¬ _))

instance : Min Instant := .leftLeaningOfLE Instant

instance : Max Instant := .leftLeaningOfLE Instant

theorem lt_def {a b : Instant} :
    a < b ↔ a.second < b.second ∨ (a.second = b.second ∧ a.nano < b.nano) := Iff.rfl

theorem le_def {a b : Instant} : a ≤ b ↔ ¬ b < a := Iff.rfl

theorem le_iff {a b : Instant} :
    a ≤ b ↔ a.second < b.second ∨ (a.second = b.second ∧ a.nano ≤ b.nano) := by
  rw [le_def, lt_def]
  omega

theorem eq_of_parts {a b : Instant} (hs : a.second = b.second) (hn : a.nano = b.nano) :
    a = b := by
  cases a
  cases b
  cases hs
  cases hn
  rfl

instance : Std.IsLinearOrder Instant where
  le_refl a := by rw [le_iff]; omega
  le_trans a b c := by simp only [le_iff]; omega
  le_antisymm a b hab hba := by
    rw [le_iff] at hab hba
    exact eq_of_parts (by omega) (by omega)
  le_total a b := by simp only [le_iff]; omega

instance : Std.LawfulOrderLT Instant where
  lt_iff a b := by rw [le_def, le_def, lt_def]; rw [lt_def]; omega

/-- The place of an instant on a time line where every second has room for its leap second. -/
def rank (t : Instant) : Nat := (t.second - minSecond).toNat * (2 * secondNanos) + t.nano

theorem rank_lt_rank {a b : Instant} (h : a < b) : a.rank < b.rank := by
  have ha := a.valid
  have hb := b.valid
  simp only [Valid, minSecond, maxSecond, secondNanos] at ha hb
  rw [lt_def] at h
  simp only [rank, minSecond, secondNanos]
  omega

/-! ## Microseconds -/

/-- Microseconds since the epoch, rounded down; inside a leap second they run on into the next
second. -/
def microsInt (t : Instant) : Int := t.second * 1000000 + (t.nano / 1000 : Nat)

theorem fits_microsInt (t : Instant) : Word.Fits t.microsInt := by
  have h := t.valid
  simp only [Valid, minSecond, maxSecond, secondNanos] at h
  rw [Word.fits_iff]
  simp only [microsInt]
  omega

/-- Microseconds since the epoch as a word. -/
def micros (t : Instant) : Int64 := Int64.ofInt t.microsInt

theorem toInt_micros (t : Instant) : t.micros.toInt = t.microsInt :=
  Word.toInt_ofInt_of_fits t.fits_microsInt

/-- The instant that lies a number of microseconds after the epoch. -/
def ofMicros? (micros : Int) : Option Instant :=
  ofParts? (micros / 1000000) ((micros % 1000000).toNat * 1000)

/-- The microsecond count is that of an instant outside leap seconds. -/
def MicrosInRange (micros : Int) : Prop :=
  minSecond * 1000000 ≤ micros ∧ micros < (maxSecond + 1) * 1000000

instance (micros : Int) : Decidable (MicrosInRange micros) :=
  inferInstanceAs (Decidable (_ ∧ _))

theorem ofMicros?_isSome_iff {micros : Int} :
    (ofMicros? micros).isSome ↔ MicrosInRange micros := by
  simp only [ofMicros?, ofParts?, MicrosInRange]
  split
  · rename_i h
    simp only [Valid, minSecond, maxSecond, secondNanos] at h ⊢
    simp only [Option.isSome_some, true_iff]
    omega
  · rename_i h
    simp only [Valid, minSecond, maxSecond, secondNanos] at h ⊢
    simp only [Option.isSome_none, Bool.false_eq_true, false_iff]
    omega

/-! ## Later instants -/

/-- The instant a positive number of microseconds later, if there is one.  Inside a leap second the
count stays there as long as the sum of the nanoseconds does; otherwise leap seconds have no
length. -/
def later? (t : Instant) (step : Nat) : Option Instant :=
  let seconds := step / 1000000
  let nanos := step % 1000000 * 1000
  if secondNanos ≤ t.nano ∧ seconds = 0 ∧ t.nano + nanos < 2 * secondNanos then
    ofParts? t.second (t.nano + nanos)
  else
    let total := t.nano % secondNanos + nanos
    ofParts? (t.second + seconds + (total / secondNanos : Nat)) (total % secondNanos)

end Instant

end FlowTrace
