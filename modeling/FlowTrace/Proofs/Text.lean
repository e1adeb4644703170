import Mathlib.Algebra.Order.Ring.Nat
import Mathlib.Data.List.TakeWhile
import FlowTrace.Text
set_option autoImplicit false

/-!
# Text: trimming, lines and numerals

Characters that are not blank stop trimming from both ends.  A text of lines that each have their
end goes on with an empty line, as far as cutting it at the line ends is concerned.  Numerals are read
back as the numbers they were written for.
-/

namespace FlowTrace.Text

/-! ## Trimming and lines -/

theorem trimStart_cons {c : Char} (h : isBlank c = false) (rest : List Char) :
    trimStart (c :: rest) = c :: rest := by
  rw [trimStart, List.dropWhile_cons_of_neg (by simp [h])]

/-- Nothing is trimmed from a text that begins and ends with characters that are not blank. -/
theorem trim_between {first last : Char} (hfirst : isBlank first = false)
    (hlast : isBlank last = false) (inner : List Char) :
    trim (first :: (inner ++ [last])) = first :: (inner ++ [last]) := by
  have hreverse : (first :: (inner ++ [last])).reverse = last :: (inner.reverse ++ [first]) := by
    simp
  rw [trim, trimStart_cons hfirst, trimEnd, hreverse,
    List.dropWhile_cons_of_neg (by simp [hlast]), ← hreverse, List.reverse_reverse]

theorem trimStart_eq_nil_iff {cs : List Char} : trimStart cs = [] ↔ ∀ c ∈ cs, isBlank c = true :=
  List.dropWhile_eq_nil_iff

theorem trimEnd_append_blank (cs : List Char) {back : List Char} (h : ∀ c ∈ back, isBlank c = true) :
    trimEnd (cs ++ back) = trimEnd cs := by
  have hreverse : ∀ c ∈ back.reverse, isBlank c = true := fun c hc => h c (List.mem_reverse.1 hc)
  rw [trimEnd, List.reverse_append, List.dropWhile_append_of_pos hreverse, trimEnd]

theorem trimEnd_eq_nil_iff {cs : List Char} : trimEnd cs = [] ↔ ∀ c ∈ cs, isBlank c = true := by
  rw [trimEnd, List.reverse_eq_nil_iff, List.dropWhile_eq_nil_iff]
  simp only [List.mem_reverse]

theorem trim_eq_nil_iff {cs : List Char} : trim cs = [] ↔ ∀ c ∈ cs, isBlank c = true := by
  rw [trim, trimEnd_eq_nil_iff, trimStart]
  refine ⟨fun h c hc => ?_, fun h c hc => h c ((List.dropWhile_sublist isBlank).mem hc)⟩
  rw [← List.takeWhile_append_dropWhile (p := isBlank) (l := cs)] at hc
  rcases List.mem_append.1 hc with hc | hc
  · exact List.all_eq_true.1 List.all_takeWhile c hc
  · exact h c hc

/-- Blanks around a text do not change what trimming leaves of it. -/
theorem trim_around {front back : List Char} (hfront : ∀ c ∈ front, isBlank c = true)
    (hback : ∀ c ∈ back, isBlank c = true) (cs : List Char) :
    trim (front ++ (cs ++ back)) = trim cs := by
  rw [trim, trimStart, List.dropWhile_append_of_pos hfront, List.dropWhile_append]
  split
  · rename_i hempty
    have hcs : trimStart cs = [] := List.isEmpty_iff.1 hempty
    have hall : trimStart back = [] := trimStart_eq_nil_iff.2 hback
    rw [trim, hcs]
    exact congrArg trimEnd hall
  · exact trimEnd_append_blank _ hback

/-- In front of more texts, every text is followed by the separator. -/
theorem intercalate_append {α : Type} (separator : α) (ls : List (List α)) {more : List (List α)}
    (hmore : more ≠ []) :
    [separator].intercalate (ls ++ more) =
      (ls.flatMap fun l => l ++ [separator]) ++ [separator].intercalate more := by
  induction ls with
  | nil => rfl
  | cons l ls ih =>
    rw [List.cons_append, List.intercalate_cons_of_ne_nil (List.append_ne_nil_of_right_ne_nil ls hmore),
      ih, List.flatMap_cons, List.append_assoc (l ++ [separator])]

/-- Texts that are put together begin with the first of them. -/
theorem exists_intercalate_cons {α : Type} (separator l : List α) (ls : List (List α)) :
    ∃ rest, separator.intercalate (l :: ls) = l ++ rest := by
  cases ls with
  | nil => exact ⟨[], by rw [List.intercalate_singleton, List.append_nil]⟩
  | cons next ls =>
    exact ⟨separator ++ separator.intercalate (next :: ls),
      by rw [List.intercalate_cons_cons, List.append_assoc]⟩

theorem mem_intercalate {α : Type} {separator a : α} {ls : List (List α)}
    (h : a ∈ [separator].intercalate ls) : a = separator ∨ ∃ l ∈ ls, a ∈ l := by
  induction ls with
  | nil => cases h
  | cons l ls ih =>
    cases ls with
    | nil =>
      rw [List.intercalate_singleton] at h
      exact .inr ⟨l, List.mem_cons_self, h⟩
    | cons next ls =>
      rw [List.intercalate_cons_cons, List.append_assoc] at h
      rcases List.mem_append.1 h with hl | h
      · exact .inr ⟨l, List.mem_cons_self, hl⟩
      rcases List.mem_append.1 h with hsep | h
      · exact .inl (List.mem_singleton.1 hsep)
      · exact (ih h).imp_right fun ⟨l', hl', ha⟩ => ⟨l', List.mem_cons_of_mem l hl', ha⟩

theorem toList_joinWith (texts : List String) :
    (joinWith "\n" texts).toList = ['\n'].intercalate (texts.map String.toList) := by
  rw [joinWith, String.toList_intercalate]
  rfl

theorem toList_lines_eq_flatMap (texts : List String) :
    (lines texts).toList = (texts.map String.toList).flatMap fun l => l ++ ['\n'] := by
  simp [lines, String.toList_join, List.flatMap_map]

/-- Lines that each have their end go on with an empty line. -/
theorem toList_lines (texts : List String) :
    (lines texts).toList = ['\n'].intercalate (texts.map String.toList ++ [[]]) := by
  rw [toList_lines_eq_flatMap, intercalate_append '\n' _ (List.cons_ne_nil [] []), List.intercalate_singleton,
    List.append_nil]

theorem lines_append (texts more : List String) : lines (texts ++ more) = lines texts ++ lines more := by
  rw [← String.toList_inj, String.toList_append]
  simp only [toList_lines_eq_flatMap, List.map_append, List.flatMap_append]

/-- Lines with their ends in front of texts that are put together. -/
theorem joinWith_append (texts : List String) {more : List String} (hmore : more ≠ []) :
    joinWith "\n" (texts ++ more) = lines texts ++ joinWith "\n" more := by
  rw [← String.toList_inj, String.toList_append, toList_lines_eq_flatMap, toList_joinWith, toList_joinWith,
    List.map_append, intercalate_append '\n' _ (mt List.map_eq_nil_iff.1 hmore)]

/-!
## Numerals that are read back

A run of digits ends where the next character is none.  Numerals have no needless zero in front, and
zeros that fill them up to a width change neither their value nor what kind of characters they are.
-/

theorem natDigits_ne_nil (n : Nat) : natDigits n ≠ [] := Nat.toDigits_ne_nil

/-- The numeral of a positive number does not begin with zero. -/
theorem head?_natDigits {n : Nat} (h : 0 < n) : (natDigits n).head? ≠ some '0' := by
  induction n using Nat.strongRecOn with
  | ind n ih =>
    by_cases hsmall : n < 10
    · rw [natDigits, Nat.toDigits_of_lt_base hsmall]
      intro hzero
      have hnone : ∀ d < 10, 0 < d → d.digitChar ≠ '0' := by decide
      exact hnone n hsmall h (Option.some.inj hzero)
    · have hshorter := ih (n / 10) (by omega) (by omega)
      rw [natDigits, Nat.toDigits_of_base_le (by decide) (by omega)]
      obtain ⟨d, rest, hdigits⟩ := List.exists_cons_of_ne_nil (natDigits_ne_nil (n / 10))
      rw [natDigits] at hdigits hshorter
      rw [hdigits] at hshorter ⊢
      exact hshorter

/-- The text does not go on with a digit. -/
def EndsDigits (rest : List Char) : Prop := ∀ c ∈ rest.head?, c.isDigit = false

theorem endsDigits_cons {c : Char} (h : c.isDigit = false) (rest : List Char) :
    EndsDigits (c :: rest) := by
  intro d hd
  cases hd
  exact h

/-- The digits in front of what does not go on with one are read as one run. -/
theorem spanDigits_append {digits rest : List Char} (hdigits : ∀ c ∈ digits, c.isDigit = true)
    (hrest : EndsDigits rest) : spanDigits (digits ++ rest) = (digits, rest) := by
  have hnone : rest.takeWhile Char.isDigit = [] ∧ rest.dropWhile Char.isDigit = rest := by
    cases rest with
    | nil => exact ⟨rfl, rfl⟩
    | cons c rest => simp [hrest c rfl]
  rw [spanDigits, List.takeWhile_append_of_pos hdigits, List.dropWhile_append_of_pos hdigits,
    hnone.1, hnone.2, List.append_nil]

/-! ## Numerals of a width -/

theorem isDigit_of_mem_paddedDigits {width n : Nat} {c : Char} (h : c ∈ paddedDigits width n) :
    c.isDigit = true := by
  rcases List.mem_append.1 h with hzero | hdigit
  · rw [List.eq_of_mem_replicate hzero]
    rfl
  · exact isDigit_of_mem_natDigits hdigit

theorem digitsValue_paddedDigits (width n : Nat) : digitsValue (paddedDigits width n) = n := by
  rw [digitsValue, paddedDigits, Nat.ofDigitChars_append, Nat.ofDigitChars_replicate_zero,
    Nat.mul_zero]
  exact digitsValue_natDigits n

theorem length_paddedDigits (width n : Nat) :
    (paddedDigits width n).length = max width (natDigits n).length := by
  rw [paddedDigits, List.length_append, List.length_replicate]
  omega

/-- A number that has no more digits than the width fills it exactly. -/
theorem length_paddedDigits_of_lt {width n : Nat} (hwidth : 0 < width) (h : n < 10 ^ width) :
    (paddedDigits width n).length = width := by
  have hshort : (natDigits n).length ≤ width := (Nat.length_toDigits_le_iff (by decide) hwidth).2 h
  rw [length_paddedDigits]
  omega

end FlowTrace.Text
