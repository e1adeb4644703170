import FlowTrace.Time.Rfc3339
import FlowTrace.Proofs.Text
import FlowTrace.Proofs.Time.Calendar
set_option autoImplicit false

/-!
# Time: texts that are read back

Each part of a written instant is read by the free reader in one step, and the parts name the
instant again: years outside four digits carry their sign, a fraction has as many digits as it
needs, and a leap second is the second 60.
-/

namespace FlowTrace.Rfc3339

open Calendar (Date)

/-! ## Numbers and marks -/

theorem isBlank_of_isDigit {c : Char} (h : c.isDigit = true) : Text.isBlank c = false := by
  simp only [Char.isDigit, Bool.and_eq_true, decide_eq_true_eq, UInt32.le_iff_toNat_le] at h
  have hlow : 48 ≤ c.toNat := h.1
  have hhigh : c.toNat ≤ 57 := h.2
  simp only [Text.isBlank, Text.blankRanges, List.any_cons, List.any_nil, Bool.or_false,
    Bool.or_eq_false_iff, Bool.and_eq_false_iff, decide_eq_false_iff_not]
  omega

theorem trimStart_digits {digits : List Char} (hne : digits ≠ [])
    (h : ∀ c ∈ digits, c.isDigit = true) (rest : List Char) :
    Text.trimStart (digits ++ rest) = digits ++ rest := by
  obtain ⟨c, more, rfl⟩ := List.exists_cons_of_ne_nil hne
  exact Text.trimStart_cons (isBlank_of_isDigit (h c List.mem_cons_self)) _

/-- A run of digits is read up to its end, or up to as many digits as are taken. -/
theorem number?_append {least most : Nat} {digits rest : List Char}
    (hdigits : ∀ c ∈ digits, c.isDigit = true) (hleast : least ≤ digits.length)
    (hmost : digits.length ≤ most) (hrest : Text.EndsDigits rest ∨ digits.length = most) :
    number? least most (digits ++ rest) = some (Text.digitsValue digits, rest) := by
  have hrun : ((digits ++ rest).take most).takeWhile Char.isDigit = digits := by
    have hnone : (rest.take (most - digits.length)).takeWhile Char.isDigit = [] := by
      rcases hrest with hends | hfull
      · cases rest with
        | nil => simp
        | cons c rest =>
          cases most - digits.length with
          | zero => rfl
          | succ n => simp [hends c rfl]
      · simp [hfull]
    rw [List.take_append, List.take_of_length_le hmost,
      List.takeWhile_append_of_pos hdigits, hnone, List.append_nil]
  simp only [number?, hrun, if_pos hleast, List.drop_left]

/-- A number that fills its two digits is read. -/
theorem freeNumber?_paddedDigits {n : Nat} (h : n < 100) (rest : List Char) :
    freeNumber? (Text.paddedDigits 2 n ++ rest) = some (n, rest) := by
  have hlength : (Text.paddedDigits 2 n).length = 2 := Text.length_paddedDigits_of_lt (by decide) h
  have hdigits : ∀ c ∈ Text.paddedDigits 2 n, c.isDigit = true :=
    fun _ hc => Text.isDigit_of_mem_paddedDigits hc
  have hne : Text.paddedDigits 2 n ≠ [] := List.ne_nil_of_length_eq_add_one hlength
  rw [freeNumber?, trimStart_digits hne hdigits,
    number?_append hdigits (by omega) (by omega) (.inr hlength), Text.digitsValue_paddedDigits]

theorem freeChar?_cons {c : Char} (h : Text.isBlank c = false) (rest : List Char) :
    freeChar? c (c :: rest) = some rest := by
  rw [freeChar?, Text.trimStart_cons h, char?, if_pos rfl]

/-! ## Years -/

theorem number?_signed (n : Nat) {rest : List Char} (h : Text.EndsDigits rest) :
    number? 1 (Text.paddedDigits 4 n ++ rest).length (Text.paddedDigits 4 n ++ rest) =
      some (n, rest) := by
  have hlength := Text.length_paddedDigits 4 n
  rw [number?_append (fun _ hc => Text.isDigit_of_mem_paddedDigits hc) (by omega)
    (by rw [List.length_append]; omega) (.inl h), Text.digitsValue_paddedDigits]

/-- A year is read, signed or not. -/
theorem freeYear?_yearText (year : Int) {rest : List Char} (h : Text.EndsDigits rest) :
    freeYear? (yearText year ++ rest) = some (year, rest) := by
  unfold yearText
  split
  · rename_i hshort
    have hlength : (Text.paddedDigits 4 year.toNat).length = 4 :=
      Text.length_paddedDigits_of_lt (by decide) (by omega)
    have hdigits : ∀ c ∈ Text.paddedDigits 4 year.toNat, c.isDigit = true :=
      fun _ hc => Text.isDigit_of_mem_paddedDigits hc
    have hread : number? 1 4 (Text.paddedDigits 4 year.toNat ++ rest) = some (year.toNat, rest) := by
      rw [number?_append hdigits (by omega) (by omega) (.inl h), Text.digitsValue_paddedDigits]
    have hne : Text.paddedDigits 4 year.toNat ≠ [] := List.ne_nil_of_length_eq_add_one hlength
    have hunsigned : ∀ sign tail, sign.isDigit = false →
        Text.paddedDigits 4 year.toNat ++ rest ≠ sign :: tail := by
      intro sign tail hsign heq
      obtain ⟨c, more, hcons⟩ := List.exists_cons_of_ne_nil hne
      have hc : c.isDigit = true := hdigits c (hcons ▸ List.mem_cons_self)
      rw [hcons] at heq
      cases heq
      rw [hsign] at hc
      cases hc
    unfold freeYear?
    rw [trimStart_digits hne hdigits]
    split
    · rename_i heq
      exact absurd heq (hunsigned '-' _ (by decide))
    · rename_i heq
      exact absurd heq (hunsigned '+' _ (by decide))
    · rw [hread, Option.map_some]
      exact congrArg (fun y => some (y, rest)) (Int.toNat_of_nonneg hshort.1)
  · rename_i hlong
    have hread := number?_signed year.natAbs h
    by_cases hnegative : year < 0
    · rw [if_pos hnegative, List.cons_append, freeYear?, Text.trimStart_cons (by decide)]
      simp only [hread, Option.map_some]
      exact congrArg (fun y => some (y, rest)) (by omega)
    · rw [if_neg hnegative, List.cons_append, freeYear?, Text.trimStart_cons (by decide)]
      simp only [hread, Option.map_some]
      exact congrArg (fun y => some (y, rest)) (by omega)

/-! ## Fractions and offsets -/

theorem digitsValue_append_zeros (digits : List Char) (n : Nat) :
    Text.digitsValue (digits ++ List.replicate n '0') = 10 ^ n * Text.digitsValue digits := by
  rw [Text.digitsValue, Nat.ofDigitChars_append, Nat.ofDigitChars_replicate_zero]
  rfl

/-- A fraction of up to nine digits is read with its zeros filled in. -/
theorem fraction?_paddedDigits {width n : Nat} (hwidth : 0 < width) (hmost : width ≤ 9)
    (hn : n < 10 ^ width) {rest : List Char} (h : Text.EndsDigits rest) :
    fraction? (Text.paddedDigits width n ++ rest) = some (10 ^ (9 - width) * n, rest) := by
  have hlength : (Text.paddedDigits width n).length = width :=
    Text.length_paddedDigits_of_lt hwidth hn
  have hne : Text.paddedDigits width n ≠ [] := by
    rw [← List.length_pos_iff, hlength]
    exact hwidth
  have hspan : Text.spanDigits (Text.paddedDigits width n ++ rest) =
      (Text.paddedDigits width n, rest) :=
    Text.spanDigits_append (fun _ hc => Text.isDigit_of_mem_paddedDigits hc) h
  simp only [fraction?, hspan, if_neg hne, List.take_of_length_le (hlength ▸ hmost), hlength,
    digitsValue_append_zeros, Text.digitsValue_paddedDigits]

/-- The mark of universal time. -/
theorem zone_text_spec (zone : Zone) :
    Text.EndsDigits zone.text ∧ zone.text.head? ≠ some '.' ∧
      freeOffset? (Text.trimStart zone.text) = some (0, []) := by
  cases zone with
  | numeric => exact ⟨Text.endsDigits_cons (by decide) _, by decide, by decide⟩
  | zulu => exact ⟨Text.endsDigits_cons (by decide) _, by decide, by decide⟩

/-- A written fraction is read. -/
theorem optionalFraction?_fractionText {nano : Nat} (hnano : nano < 1000000000) (zone : Zone) :
    optionalFraction? (fractionText nano ++ zone.text) = some (nano, zone.text) := by
  obtain ⟨hends, -, -⟩ := zone_text_spec zone
  unfold fractionText
  split
  · rename_i hzero
    subst hzero
    cases zone <;> rfl
  · split
    · rename_i hmillis
      refine (fraction?_paddedDigits (by decide) (by decide) (by omega) hends).trans ?_
      exact congrArg (fun n => some (n, zone.text)) (by omega)
    · split
      · rename_i hmicros
        refine (fraction?_paddedDigits (by decide) (by decide) (by omega) hends).trans ?_
        exact congrArg (fun n => some (n, zone.text)) (by omega)
      · refine (fraction?_paddedDigits (by decide) (by decide) (by omega) hends).trans ?_
        exact congrArg (fun n => some (n, zone.text)) (by omega)

/-! ## Fields -/

/-- The fields fit the digits that they are written with, in universal time. -/
structure Fields.Short (f : Fields) : Prop where
  month : f.date.month < 100
  day : f.date.day < 100
  hour : f.hour < 24
  minute : f.minute < 60
  second : f.second ≤ 60
  nano : f.nano < 1000000000
  offset : f.offset = 0

/-- The text of fields. -/
def fieldsText (zone : Zone) (f : Fields) : List Char :=
  yearText f.date.year ++ '-' :: (Text.paddedDigits 2 f.date.month ++
    '-' :: (Text.paddedDigits 2 f.date.day ++ 'T' :: (Text.paddedDigits 2 f.hour ++
      ':' :: (Text.paddedDigits 2 f.minute ++ ':' :: (Text.paddedDigits 2 f.second ++
        (fractionText f.nano ++ zone.text))))))

/-- One step of a reader that succeeds. -/
theorem bind_of_eq_some {α β : Type} {x : Option α} {a : α} {f : α → Option β} {b : β}
    (hx : x = some a) (hf : f a = some b) : x >>= f = some b :=
  Option.bind_eq_some_iff.mpr ⟨a, hx, hf⟩

/-- Short fields are read one by one. -/
theorem freeFields?_fieldsText (zone : Zone) {f : Fields} (h : f.Short) :
    freeFields? (fieldsText zone f) = some f := by
  obtain ⟨⟨year, month, day⟩, hour, minute, second, nano, offset⟩ := f
  obtain ⟨hmonth, hday, hhour, hminute, hsecond, hnano, rfl⟩ := h
  obtain ⟨-, -, hzone⟩ := zone_text_spec zone
  have hdash : Text.isBlank '-' = false := by decide
  have hcolon : Text.isBlank ':' = false := by decide
  have hhour : hour < 100 := Nat.lt_trans hhour (by decide)
  have hminute : minute < 100 := Nat.lt_trans hminute (by decide)
  have hsecond : second < 100 := Nat.lt_of_le_of_lt hsecond (by decide)
  unfold fieldsText freeFields?
  refine bind_of_eq_some (freeYear?_yearText _ (Text.endsDigits_cons (by decide) _)) ?_
  refine bind_of_eq_some (freeChar?_cons hdash _) ?_
  refine bind_of_eq_some (freeNumber?_paddedDigits hmonth _) ?_
  refine bind_of_eq_some (freeChar?_cons hdash _) ?_
  refine bind_of_eq_some (freeNumber?_paddedDigits hday _) ?_
  refine bind_of_eq_some (show dateMark? ('T' :: _) = some _ from rfl) ?_
  refine bind_of_eq_some (freeNumber?_paddedDigits hhour _) ?_
  refine bind_of_eq_some (freeChar?_cons hcolon _) ?_
  refine bind_of_eq_some (freeNumber?_paddedDigits hminute _) ?_
  refine bind_of_eq_some (freeChar?_cons hcolon _) ?_
  refine bind_of_eq_some (freeNumber?_paddedDigits hsecond _) ?_
  refine bind_of_eq_some (optionalFraction?_fractionText hnano _) ?_
  exact bind_of_eq_some hzone (if_pos rfl)

/-! ## Instants -/

/-- The fields that are written of an instant. -/
def fieldsOf (t : Instant) : Fields where
  date := Date.ofDays (t.second / daySeconds + epochDay)
  hour := (t.second % daySeconds).toNat / 3600
  minute := (t.second % daySeconds).toNat / 60 % 60
  second := (t.second % daySeconds).toNat % 60 + t.nano / secondNanos
  nano := t.nano % secondNanos
  offset := 0

theorem write_eq (zone : Zone) (t : Instant) : write zone t = fieldsText zone (fieldsOf t) := by
  simp [write, dateText, clockText, fieldsText, fieldsOf]

theorem short_fieldsOf (t : Instant) : (fieldsOf t).Short := by
  obtain ⟨-, hmonth, ⟨-, hday⟩, -⟩ := Date.ofDays_spec (t.second / daySeconds + epochDay)
  have hlength := Calendar.monthLength_le
    (Calendar.isLeap (Date.ofDays (t.second / daySeconds + epochDay)).year)
    (Date.ofDays (t.second / daySeconds + epochDay)).month
  obtain ⟨-, -, hnano, hleap⟩ := t.valid
  refine ⟨?_, ?_, ?_, ?_, ?_, ?_, rfl⟩
  all_goals
    simp only [fieldsOf, daySeconds, secondNanos] at hmonth hday hlength hnano hleap ⊢
    omega

/-- The written fields name the instant. -/
theorem instant?_fieldsOf (t : Instant) : (fieldsOf t).instant? = some t := by
  obtain ⟨hyear, -, hexists, hdays⟩ := Date.ofDays_spec (t.second / daySeconds + epochDay)
  have hshort := short_fieldsOf t
  obtain ⟨hfirst, hlast, hroom, hleap⟩ := t.valid
  have hyears : yearBounds.1 ≤ (fieldsOf t).date.year ∧ (fieldsOf t).date.year ≤ yearBounds.2 := by
    rw [fieldsOf, hyear]
    refine Calendar.yearOf_mem_yearBounds ?_ ?_
    · simp only [minSecond, daySeconds] at hfirst ⊢
      omega
    · simp only [maxSecond, daySeconds] at hlast ⊢
      omega
  have hvalid : (fieldsOf t).date.Exists ∧ yearBounds.1 ≤ (fieldsOf t).date.year ∧
      (fieldsOf t).date.year ≤ yearBounds.2 ∧ (fieldsOf t).hour ≤ 23 ∧ (fieldsOf t).minute ≤ 59 ∧
      (fieldsOf t).second ≤ 60 ∧ -1440 < (fieldsOf t).offset ∧ (fieldsOf t).offset < 1440 :=
    ⟨hexists, hyears.1, hyears.2, Nat.le_of_lt_succ hshort.hour, Nat.le_of_lt_succ hshort.minute,
      hshort.second, hshort.offset ▸ (by decide), hshort.offset ▸ (by decide)⟩
  rw [Fields.instant?, if_pos hvalid, Instant.ofParts?_eq_some_iff]
  have htoDays : (fieldsOf t).date.toDays = t.second / daySeconds + epochDay := hdays
  rw [htoDays]
  simp only [fieldsOf, daySeconds, secondNanos] at hroom hleap ⊢
  -- the second 60 stands for the leap second after the second 59
  by_cases hin : 1000000000 ≤ t.nano
  · have hlate := hleap hin
    have hmark : (t.second % 86400).toNat % 60 + t.nano / 1000000000 = 60 := by omega
    simp only [hmark, if_true]
    omega
  · have hmark : (t.second % 86400).toNat % 60 + t.nano / 1000000000 ≠ 60 := by omega
    simp only [hmark, if_false]
    omega

/-- Reading a written instant gives the instant. -/
theorem readFree?_write (zone : Zone) (t : Instant) : readFree? (write zone t) = some t := by
  rw [readFree?, write_eq, freeFields?_fieldsText zone (short_fieldsOf t), Option.bind_some,
    instant?_fieldsOf]

end FlowTrace.Rfc3339
