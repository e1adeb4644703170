import FlowTrace.Json.Reader
import FlowTrace.Json.Writer
import FlowTrace.Proofs.Text
set_option autoImplicit false

/-!
# Json: texts that spell a value

One value has many texts: blanks may stand before every token, but the tokens are those that the
writer puts there.  Such a text is read as its value and nothing behind it is touched
(`Spells.readValue_eq`), so a layout is read back as soon as it is shown to spell its value.
-/

namespace FlowTrace.Json

/-- Nothing but characters that may stand between tokens. -/
def IsBlank (cs : List Char) : Prop := ∀ c ∈ cs, isSpace c = true

/-- Texts with commas between them. -/
def separated : List (List Char) → List Char
  | [] => []
  | [cs] => cs
  | cs :: ds :: rest => cs ++ ',' :: separated (ds :: rest)

/-- A field on its way into a text. -/
structure FieldText where
  /-- what stands before the name -/
  blanks : List Char
  name : String
  /-- the text of the value -/
  text : List Char
  value : Json

/-- The text of a field. -/
def FieldText.chars (f : FieldText) : List Char := f.blanks ++ (quote f.name ++ ':' :: f.text)

/-- The text spells the value. -/
inductive Spells : List Char → Json → Prop where
  | null : Spells ['n', 'u', 'l', 'l'] .null
  | bool (value : Bool) : Spells (writeBool value) (.bool value)
  | integer {value : Int} (hleast : Word.least ≤ value) (hgreatest : value ≤ Word.greatestUnsigned) :
      Spells (Text.intDigits value) (.int value)
  | text (value : String) : Spells (quote value) (.text value)
  | spaced {blanks cs : List Char} {value : Json} (hblanks : IsBlank blanks)
      (hspells : Spells cs value) : Spells (blanks ++ cs) value
  | array {items : List (List Char × Json)} {closing : List Char} (hclosing : IsBlank closing)
      (hitems : ∀ p ∈ items, Spells p.1 p.2) :
      Spells ('[' :: (separated (items.map Prod.fst) ++ (closing ++ [']'])))
        (.array (items.map Prod.snd))
  | object {fields : List FieldText} {closing : List Char} (hclosing : IsBlank closing)
      (hblanks : ∀ f ∈ fields, IsBlank f.blanks) (hfields : ∀ f ∈ fields, Spells f.text f.value) :
      Spells ('\x7b' :: (separated (fields.map FieldText.chars) ++ (closing ++ ['\x7d'])))
        (.object (fields.map fun f => Json.field f.name f.value))

/-! ## Blanks -/

theorem isBlank_nil : IsBlank [] := fun _ hc => nomatch hc

theorem skipSpace_append {blanks : List Char} (h : IsBlank blanks) (cs : List Char) :
    skipSpace (blanks ++ cs) = skipSpace cs :=
  List.dropWhile_append_of_pos h

theorem skipSpace_cons {c : Char} (h : isSpace c = false) (cs : List Char) :
    skipSpace (c :: cs) = c :: cs := by
  rw [skipSpace, List.dropWhile_cons_of_neg (by simp [h])]

/-- Reading a value begins behind the blanks. -/
theorem readValue_congr {fuel : Nat} {cs ds : List Char} (h : skipSpace cs = skipSpace ds) :
    readValue fuel cs = readValue fuel ds := by
  cases fuel with
  | zero => rfl
  | succ fuel => rw [readValue, readValue, h]

/-! ## Strings -/

theorem unit?_control {n : Nat} (h : n < 32) :
    unit? '0' '0' (hexDigit (n / 16)) (hexDigit (n % 16)) = some n := by
  have hall : ∀ m < 32, unit? '0' '0' (hexDigit (m / 16)) (hexDigit (m % 16)) = some m := by decide
  exact hall n h

/-- A control character in its long form is read as one piece. -/
theorem piece?_control {c : Char} (h : c.toNat < 32) (rest : List Char) :
    piece? ('\\' :: 'u' :: '0' :: '0' :: hexDigit (c.toNat / 16) :: hexDigit (c.toNat % 16) :: rest) =
      some (.char c rest) := by
  have hhigh : isHighSurrogate c.toNat = false := by
    simp only [isHighSurrogate, Bool.and_eq_false_iff, decide_eq_false_iff_not]
    omega
  have hlow : isLowSurrogate c.toNat = false := by
    simp only [isLowSurrogate, Bool.and_eq_false_iff, decide_eq_false_iff_not]
    omega
  simp [piece?, unit?_control h, hhigh, hlow, Char.ofNat_toNat]

/-- A character that needs no escape is read as one piece. -/
theorem piece?_plain {c : Char} (hquote : c ≠ '"') (hslash : c ≠ '\\') (hcontrol : ¬ c.toNat < 32)
    (rest : List Char) : piece? (c :: rest) = some (.char c rest) := by
  unfold piece?
  split <;> simp_all

/-- An escaped character is read as one piece. -/
theorem piece?_escape (c : Char) (rest : List Char) :
    piece? (escape c ++ rest) = some (.char c rest) := by
  by_cases hshort : c ∈ ['"', '\\', '\x08', '\x0c', '\n', '\r', '\t']
  · simp only [List.mem_cons, List.not_mem_nil, or_false] at hshort
    rcases hshort with rfl | rfl | rfl | rfl | rfl | rfl | rfl <;> rfl
  · simp only [List.mem_cons, List.not_mem_nil, or_false, not_or] at hshort
    obtain ⟨hquote, hslash, hback, hform, hline, hreturn, htab⟩ := hshort
    unfold escape
    rw [if_neg hquote, if_neg hslash, if_neg hback, if_neg hform, if_neg hline, if_neg hreturn,
      if_neg htab]
    split
    · rename_i hcontrol
      exact piece?_control hcontrol rest
    · rename_i hcontrol
      exact piece?_plain hquote hslash hcontrol rest

/-- The escaped characters of a string are read up to the closing quote. -/
theorem stringBody_escape (chars before rest : List Char) {fuel : Nat} (h : chars.length < fuel) :
    stringBody fuel before true (chars.flatMap escape ++ '"' :: rest) =
      some (some (String.ofList (before.reverse ++ chars)), rest) := by
  induction chars generalizing before fuel with
  | nil =>
    obtain ⟨fuel, rfl⟩ := Nat.exists_eq_add_one_of_ne_zero (Nat.ne_of_gt h)
    simp [stringBody, piece?]
  | cons c chars ih =>
    obtain ⟨fuel, rfl⟩ := Nat.exists_eq_add_one_of_ne_zero (Nat.ne_of_gt (Nat.zero_lt_of_lt h))
    rw [List.flatMap_cons, List.append_assoc, stringBody, piece?_escape]
    refine (ih (c :: before) (Nat.lt_of_succ_lt_succ h)).trans ?_
    rw [List.reverse_cons, List.append_assoc]
    rfl

theorem length_le_flatMap_escape (chars : List Char) :
    chars.length ≤ (chars.flatMap escape).length := by
  induction chars with
  | nil => exact Nat.le_refl 0
  | cons c chars ih =>
    have hone : 0 < (escape c).length := by
      unfold escape
      repeat' split
      all_goals exact Nat.succ_pos _
    rw [List.flatMap_cons, List.length_append, List.length_cons]
    omega

/-- The text is read up to the quote as what a string holds. -/
def ReadsString (body : List Char) (text : Option String) : Prop :=
  ∀ ⦃rest : List Char⦄ ⦃fuel : Nat⦄, body.length < fuel →
    readString fuel (body ++ '"' :: rest) = some (text, rest)

theorem readsString_escape (value : String) :
    ReadsString (value.toList.flatMap escape) (some value) := by
  intro rest fuel hfuel
  have hroom : value.toList.length < fuel :=
    Nat.lt_of_le_of_lt (length_le_flatMap_escape value.toList) hfuel
  rw [readString, stringBody_escape _ _ _ hroom, List.reverse_nil, List.nil_append,
    String.ofList_toList]

/-! ## Numbers -/

/-- What follows does not go on with a number. -/
def EndsNumber (rest : List Char) : Prop :=
  ∀ c ∈ rest.head?, c.isDigit = false ∧ c ≠ '.' ∧ c ≠ 'e' ∧ c ≠ 'E'

theorem endsNumber_nil : EndsNumber [] := by
  intro c hc
  cases hc

theorem endsNumber_blank {closing rest : List Char} (hclosing : IsBlank closing)
    (hrest : EndsNumber rest) : EndsNumber (closing ++ rest) := by
  cases closing with
  | nil => exact hrest
  | cons c closing =>
    have hspace : isSpace c = true := hclosing c List.mem_cons_self
    intro d hd
    cases hd
    simp only [isSpace, Bool.or_eq_true, beq_iff_eq] at hspace
    rcases hspace with ((rfl | rfl) | rfl) | rfl <;> decide

theorem endsNumber_newline (rest : List Char) : EndsNumber ('\n' :: rest) := by
  intro c hc
  cases hc
  decide

theorem readFraction_of_ne_point {rest : List Char} (h : ∀ c ∈ rest.head?, c ≠ '.') :
    readFraction rest = some (none, rest) := by
  unfold readFraction
  split
  · exact absurd rfl (h '.' rfl)
  · rfl

theorem readExponent_of_endsNumber {rest : List Char} (h : EndsNumber rest) :
    readExponent rest = some (none, rest) := by
  unfold readExponent
  cases rest with
  | nil => rfl
  | cons c rest =>
    obtain ⟨-, -, hlower, hupper⟩ := h c rfl
    simp [hlower, hupper]

theorem isWholePart_natDigits (n : Nat) : isWholePart (Text.natDigits n) = true := by
  rcases Nat.eq_zero_or_pos n with rfl | hpos
  · rfl
  · have hhead := Text.head?_natDigits hpos
    obtain ⟨d, digits, hdigits⟩ := List.exists_cons_of_ne_nil (Text.natDigits_ne_nil n)
    rw [hdigits] at hhead ⊢
    have hd : d ≠ '0' := fun hzero => hhead (congrArg some hzero)
    unfold isWholePart
    split <;> simp_all

/-- The digits of a number are read as what their sign and value make of them. -/
theorem readNumber_natDigits (n : Nat) {rest : List Char} (h : EndsNumber rest) :
    readNumber (Text.natDigits n ++ rest) = some (numberOf false (Text.natDigits n) none none, rest) ∧
      readNumber ('-' :: (Text.natDigits n ++ rest)) =
        some (numberOf true (Text.natDigits n) none none, rest) := by
  have hspan : Text.spanDigits (Text.natDigits n ++ rest) = (Text.natDigits n, rest) :=
    Text.spanDigits_append (fun _ hc => Text.isDigit_of_mem_natDigits hc) fun c hc => (h c hc).1
  have hparts : readFraction rest = some (none, rest) ∧ readExponent rest = some (none, rest) :=
    ⟨readFraction_of_ne_point fun c hc => (h c hc).2.1, readExponent_of_endsNumber h⟩
  constructor
  · obtain ⟨d, digits, hdigits⟩ := List.exists_cons_of_ne_nil (Text.natDigits_ne_nil n)
    have hd : d ≠ '-' := by
      rintro rfl
      have hmem : '-' ∈ Text.natDigits n := hdigits ▸ List.mem_cons_self
      exact absurd (Text.isDigit_of_mem_natDigits hmem) (by decide)
    unfold readNumber
    split
    rename_i negative unsigned hsign
    split at hsign
    · rename_i heq
      rw [hdigits] at heq
      cases heq
      exact absurd rfl hd
    · obtain ⟨rfl, rfl⟩ := Prod.mk.inj hsign
      simp [hspan, isWholePart_natDigits, hparts]
  · unfold readNumber
    simp [hspan, isWholePart_natDigits, hparts]

/-- An integer in the range of words is read from its numeral. -/
theorem readNumber_intDigits {value : Int} (hleast : Word.least ≤ value)
    (hgreatest : value ≤ Word.greatestUnsigned) {rest : List Char} (h : EndsNumber rest) :
    readNumber (Text.intDigits value ++ rest) = some (.integer value, rest) := by
  cases value with
  | ofNat n =>
    have hfits : n ≤ Word.greatestUnsigned := Int.ofNat_le.1 hgreatest
    refine (readNumber_natDigits n h).1.trans ?_
    simp [numberOf, Text.digitsValue_natDigits, hfits]
  | negSucc n =>
    have hfits : Word.least ≤ -((n + 1 : Nat) : Int) := hleast
    refine (readNumber_natDigits (n + 1) h).2.trans ?_
    simp only [numberOf, Text.digitsValue_natDigits]
    rw [if_neg (by simp), if_pos ⟨trivial, trivial, trivial, Nat.succ_pos n, hfits⟩]
    rfl

/-- The numeral of an integer begins with a digit or a minus sign. -/
theorem exists_cons_intDigits (value : Int) :
    ∃ c cs, Text.intDigits value = c :: cs ∧ (c.isDigit = true ∨ c = '-') := by
  cases value with
  | ofNat n =>
    obtain ⟨d, digits, hdigits⟩ := List.exists_cons_of_ne_nil (Text.natDigits_ne_nil n)
    have hmem : d ∈ Text.natDigits n := hdigits ▸ List.mem_cons_self
    exact ⟨d, digits, hdigits, .inl (Text.isDigit_of_mem_natDigits hmem)⟩
  | negSucc n => exact ⟨'-', Text.natDigits (n + 1), rfl, .inr rfl⟩

theorem readValue_number {c : Char} (h : c.isDigit = true ∨ c = '-') (fuel : Nat) (cs : List Char) :
    readValue (fuel + 1) (c :: cs) =
      (readNumber (c :: cs)).map fun read => (.number read.1, read.2) := by
  have hspace : isSpace c = false := by
    rw [Bool.eq_false_iff]
    intro hspace
    simp only [isSpace, Bool.or_eq_true, beq_iff_eq] at hspace
    rcases hspace with ((rfl | rfl) | rfl) | rfl <;> simp at h
  unfold readValue
  rw [skipSpace_cons hspace]
  split <;> simp_all

/-- What closes an array begins no item. -/
theorem readItems_of_closing {cs rest : List Char} (h : skipSpace cs = ']' :: rest) (fuel : Nat)
    (before : List Json) : readItems fuel before cs = none := by
  cases fuel with
  | zero => rfl
  | succ fuel =>
    have hnone : readValue fuel cs = none := by
      cases fuel with
      | zero => rfl
      | succ fuel =>
        unfold readValue
        rw [h]
        rfl
    rw [readItems, hnone]

/-- What closes an object begins no field. -/
theorem readFields_of_closing {cs rest : List Char} (h : skipSpace cs = '\x7d' :: rest) (fuel : Nat)
    (before : List (Option String × Json)) : readFields fuel before cs = none := by
  cases fuel with
  | zero => rfl
  | succ fuel =>
    unfold readFields
    rw [h]
    rfl

/-! ## Items and fields -/

/-- The text is read as the value, whatever follows, with two steps for each character. -/
def Reads (cs : List Char) (value : Json) : Prop :=
  ∀ ⦃rest : List Char⦄ ⦃fuel : Nat⦄, EndsNumber rest → 2 * (cs ++ rest).length < fuel →
    readValue fuel (cs ++ rest) = some (value, rest)

/-- How an object goes on behind its last field so far. -/
def fieldsBehind (fuel : Nat) (before : List (Option String × Json)) (cs : List Char) :
    Option (Json × List Char) :=
  match skipSpace cs with
  | ',' :: rest => readFields fuel before rest
  | '\x7d' :: rest => some (.object before.reverse, rest)
  | _ => none

/-- The text is read as one field, and what follows decides how the object goes on. -/
def ReadsField (cs : List Char) (name : Option String) (value : Json) : Prop :=
  ∀ (before : List (Option String × Json)) ⦃rest : List Char⦄ ⦃fuel : Nat⦄, EndsNumber rest →
    2 * (cs ++ rest).length < fuel →
      readFields (fuel + 1) before (cs ++ rest) = fieldsBehind fuel ((name, value) :: before) rest

/-- The text is read up to the bracket as items that come after those before. -/
def ReadsItems (inner : List Char) (before : List Json) (value : Json) : Prop :=
  ∀ ⦃rest : List Char⦄ ⦃fuel : Nat⦄, 2 * (inner ++ ']' :: rest).length + 1 < fuel →
    readItems fuel before (inner ++ ']' :: rest) = some (value, rest)

/-- The text is read up to the brace as fields that come after those before. -/
def ReadsFields (inner : List Char) (before : List (Option String × Json)) (value : Json) : Prop :=
  ∀ ⦃rest : List Char⦄ ⦃fuel : Nat⦄, 2 * (inner ++ '\x7d' :: rest).length + 1 < fuel →
    readFields fuel before (inner ++ '\x7d' :: rest) = some (value, rest)

theorem endsNumber_cons {c : Char} {rest : List Char}
    (h : c = ',' ∨ c = ']' ∨ c = '\x7d') : EndsNumber (c :: rest) := by
  intro d hd
  cases hd
  rcases h with rfl | rfl | rfl <;> decide

/-- A count that is above anything is a successor. -/
theorem exists_fuel {n fuel : Nat} (h : n < fuel) : ∃ less, fuel = less + 1 :=
  Nat.exists_eq_add_one_of_ne_zero (Nat.ne_of_gt (Nat.zero_lt_of_lt h))

theorem Reads.spaced {blanks cs : List Char} {value : Json} (hblanks : IsBlank blanks)
    (h : Reads cs value) : Reads (blanks ++ cs) value := by
  intro rest fuel hrest hfuel
  have hskip : skipSpace (blanks ++ cs ++ rest) = skipSpace (cs ++ rest) := by
    rw [List.append_assoc, skipSpace_append hblanks]
  rw [readValue_congr hskip]
  refine h hrest ?_
  simp only [List.length_append] at hfuel ⊢
  omega

section

variable {closing inner : List Char} (hclosing : IsBlank closing)

include hclosing

theorem skipSpace_closing {c : Char} (hc : isSpace c = false) (rest : List Char) :
    skipSpace (closing ++ c :: rest) = c :: rest := by
  rw [skipSpace_append hclosing, skipSpace_cons hc]

theorem ReadsItems.last {cs : List Char} {item : Json} (h : Reads cs item) (before : List Json) :
    ReadsItems (cs ++ closing) before (.array (item :: before).reverse) := by
  intro rest fuel hfuel
  obtain ⟨fuel, rfl⟩ := exists_fuel hfuel
  have hends : EndsNumber (closing ++ ']' :: rest) :=
    endsNumber_blank hclosing (endsNumber_cons (.inr (.inl rfl)))
  rw [List.append_assoc] at hfuel ⊢
  rw [readItems, h hends (by omega)]
  simp only [skipSpace_closing hclosing (c := ']') (by decide)]

theorem ReadsItems.cons {cs : List Char} {item : Json} (h : Reads cs item) {before : List Json}
    {value : Json} (hinner : ReadsItems inner (item :: before) value) :
    ReadsItems (cs ++ (closing ++ ',' :: inner)) before value := by
  intro rest fuel hfuel
  obtain ⟨fuel, rfl⟩ := exists_fuel hfuel
  have hends : EndsNumber (closing ++ ',' :: (inner ++ ']' :: rest)) :=
    endsNumber_blank hclosing (endsNumber_cons (.inl rfl))
  have htext : cs ++ (closing ++ ',' :: inner) ++ ']' :: rest =
      cs ++ (closing ++ ',' :: (inner ++ ']' :: rest)) := by simp
  rw [htext] at hfuel ⊢
  rw [readItems, h hends (by omega)]
  simp only [skipSpace_closing hclosing (c := ',') (by decide)]
  refine hinner ?_
  simp only [List.length_append, List.length_cons] at hfuel ⊢
  omega

theorem ReadsFields.last {cs : List Char} {name : Option String} {value : Json}
    (h : ReadsField cs name value) (before : List (Option String × Json)) :
    ReadsFields (cs ++ closing) before (.object ((name, value) :: before).reverse) := by
  intro rest fuel hfuel
  obtain ⟨fuel, rfl⟩ := exists_fuel hfuel
  have hends : EndsNumber (closing ++ '\x7d' :: rest) :=
    endsNumber_blank hclosing (endsNumber_cons (.inr (.inr rfl)))
  rw [List.append_assoc] at hfuel ⊢
  rw [h before hends (by omega), fieldsBehind]
  simp only [skipSpace_closing hclosing (c := '\x7d') (by decide)]

theorem ReadsFields.cons {cs : List Char} {name : Option String} {value object : Json}
    (h : ReadsField cs name value) {before : List (Option String × Json)}
    (hinner : ReadsFields inner ((name, value) :: before) object) :
    ReadsFields (cs ++ (closing ++ ',' :: inner)) before object := by
  intro rest fuel hfuel
  obtain ⟨fuel, rfl⟩ := exists_fuel hfuel
  have hends : EndsNumber (closing ++ ',' :: (inner ++ '\x7d' :: rest)) :=
    endsNumber_blank hclosing (endsNumber_cons (.inl rfl))
  have htext : cs ++ (closing ++ ',' :: inner) ++ '\x7d' :: rest =
      cs ++ (closing ++ ',' :: (inner ++ '\x7d' :: rest)) := by simp
  rw [htext] at hfuel ⊢
  rw [h before hends (by omega), fieldsBehind]
  simp only [skipSpace_closing hclosing (c := ',') (by decide)]
  refine hinner ?_
  simp only [List.length_append, List.length_cons] at hfuel ⊢
  omega

theorem readsItems_separated {items : List (List Char × Json)} (hne : items ≠ [])
    (hitems : ∀ p ∈ items, Reads p.1 p.2) (before : List Json) :
    ReadsItems (separated (items.map Prod.fst) ++ closing) before
      (.array (before.reverse ++ items.map Prod.snd)) := by
  induction items generalizing before with
  | nil => exact absurd rfl hne
  | cons p items ih =>
    have hp : Reads p.1 p.2 := hitems p List.mem_cons_self
    cases items with
    | nil => simpa [separated] using ReadsItems.last hclosing hp before
    | cons q items =>
      have hmore := ih (List.cons_ne_nil q items) (fun r hr => hitems r (List.mem_cons_of_mem p hr))
        (p.2 :: before)
      simpa [separated] using ReadsItems.cons isBlank_nil hp hmore

theorem readsFields_separated {fields : List FieldText} (hne : fields ≠ [])
    (hfields : ∀ f ∈ fields, ReadsField f.chars (some f.name) f.value)
    (before : List (Option String × Json)) :
    ReadsFields (separated (fields.map FieldText.chars) ++ closing) before
      (.object (before.reverse ++ fields.map fun f => Json.field f.name f.value)) := by
  induction fields generalizing before with
  | nil => exact absurd rfl hne
  | cons f fields ih =>
    have hf : ReadsField f.chars (some f.name) f.value := hfields f List.mem_cons_self
    cases fields with
    | nil => simpa [separated, Json.field] using ReadsFields.last hclosing hf before
    | cons g fields =>
      have hmore := ih (List.cons_ne_nil g fields) (fun h hh => hfields h (List.mem_cons_of_mem f hh))
        (Json.field f.name f.value :: before)
      simpa [separated] using ReadsFields.cons isBlank_nil hf hmore

end

/-- A name and a value with a colon between them are one field. -/
theorem Reads.readsField {blanks body gap cs : List Char} (hblanks : IsBlank blanks)
    {name : Option String} (hname : ReadsString body name) (hgap : IsBlank gap) {value : Json}
    (h : Reads cs value) :
    ReadsField (blanks ++ '"' :: (body ++ '"' :: (gap ++ ':' :: cs))) name value := by
  intro before rest fuel hrest hfuel
  have htext : blanks ++ '"' :: (body ++ '"' :: (gap ++ ':' :: cs)) ++ rest =
      blanks ++ '"' :: (body ++ '"' :: (gap ++ ':' :: (cs ++ rest))) := by simp
  have hbody : body.length < fuel := by
    simp only [List.length_append, List.length_cons] at hfuel
    omega
  have hvalue : 2 * (cs ++ rest).length < fuel := by
    simp only [List.length_append, List.length_cons] at hfuel ⊢
    omega
  rw [htext, readFields, skipSpace_closing hblanks (by decide)]
  simp only [hname hbody, skipSpace_closing hgap (c := ':') (by decide), h hrest hvalue]
  rfl

theorem FieldText.readsField {f : FieldText} (hblanks : IsBlank f.blanks)
    (h : Reads f.text f.value) : ReadsField f.chars (some f.name) f.value := by
  have htext : f.chars =
      f.blanks ++ '"' :: (f.name.toList.flatMap escape ++ '"' :: ([] ++ ':' :: f.text)) := by
    simp [FieldText.chars, quote]
  rw [htext]
  exact h.readsField hblanks (readsString_escape f.name) isBlank_nil

/-! ## Values -/

theorem ReadsItems.reads {inner : List Char} {value : Json} (h : ReadsItems inner [] value) :
    Reads ('[' :: (inner ++ [']'])) value := by
  intro rest fuel _ hfuel
  obtain ⟨fuel, rfl⟩ := exists_fuel hfuel
  have htext : '[' :: (inner ++ [']']) ++ rest = '[' :: (inner ++ ']' :: rest) := by simp
  rw [htext] at hfuel ⊢
  have hitems : readItems fuel [] (inner ++ ']' :: rest) = some (value, rest) := by
    refine h ?_
    simp only [List.length_cons] at hfuel
    omega
  unfold readValue
  rw [skipSpace_cons (by decide)]
  simp only
  split
  · rename_i hclosed
    rw [readItems_of_closing hclosed] at hitems
    cases hitems
  · exact hitems

theorem ReadsFields.reads {inner : List Char} {value : Json} (h : ReadsFields inner [] value) :
    Reads ('\x7b' :: (inner ++ ['\x7d'])) value := by
  intro rest fuel _ hfuel
  obtain ⟨fuel, rfl⟩ := exists_fuel hfuel
  have htext : '\x7b' :: (inner ++ ['\x7d']) ++ rest = '\x7b' :: (inner ++ '\x7d' :: rest) := by
    simp
  rw [htext] at hfuel ⊢
  have hfields : readFields fuel [] (inner ++ '\x7d' :: rest) = some (value, rest) := by
    refine h ?_
    simp only [List.length_cons] at hfuel
    omega
  unfold readValue
  rw [skipSpace_cons (by decide)]
  simp only
  split
  · rename_i hclosed
    rw [readFields_of_closing hclosed] at hfields
    cases hfields
  · exact hfields

/-- Brackets and braces with nothing but blanks between them are read as what holds nothing. -/
theorem reads_empty {closing : List Char} (h : IsBlank closing) :
    Reads ('[' :: (closing ++ [']'])) (.array []) ∧
      Reads ('\x7b' :: (closing ++ ['\x7d'])) (.object []) := by
  constructor <;> intro rest fuel _ hfuel <;> obtain ⟨fuel, rfl⟩ := exists_fuel hfuel <;>
    unfold readValue
  · have hskip : skipSpace (closing ++ [']'] ++ rest) = ']' :: rest := by
      rw [List.append_assoc]
      exact skipSpace_closing h (by decide) rest
    rw [List.cons_append, skipSpace_cons (by decide)]
    simp only [hskip]
  · have hskip : skipSpace (closing ++ ['\x7d'] ++ rest) = '\x7d' :: rest := by
      rw [List.append_assoc]
      exact skipSpace_closing h (by decide) rest
    rw [List.cons_append, skipSpace_cons (by decide)]
    simp only [hskip]

/-- A string is read from its quotes and what stands between them. -/
theorem ReadsString.reads {body : List Char} {text : Option String} (h : ReadsString body text) :
    Reads ('"' :: (body ++ ['"'])) (.string text) := by
  intro rest fuel _ hfuel
  obtain ⟨fuel, rfl⟩ := exists_fuel hfuel
  have htext : '"' :: (body ++ ['"']) ++ rest = '"' :: (body ++ '"' :: rest) := by simp
  rw [htext] at hfuel ⊢
  have hroom : body.length < fuel := by
    simp only [List.length_cons, List.length_append] at hfuel
    omega
  unfold readValue
  rw [skipSpace_cons (by decide)]
  simp only [h hroom]
  rfl

/-- A text that spells a value is read as the value, whatever follows. -/
theorem Spells.reads {cs : List Char} {value : Json} (h : Spells cs value) : Reads cs value := by
  induction h with
  | null =>
    intro rest fuel _ hfuel
    obtain ⟨fuel, rfl⟩ := exists_fuel hfuel
    rfl
  | bool value =>
    intro rest fuel _ hfuel
    obtain ⟨fuel, rfl⟩ := exists_fuel hfuel
    cases value <;> rfl
  | @integer value hleast hgreatest =>
    intro rest fuel hrest hfuel
    obtain ⟨fuel, rfl⟩ := exists_fuel hfuel
    have hread := readNumber_intDigits hleast hgreatest hrest
    obtain ⟨c, digits, hdigits, hc⟩ := exists_cons_intDigits value
    rw [hdigits, List.cons_append] at hread ⊢
    rw [readValue_number hc, hread]
    rfl
  | text value => exact (readsString_escape value).reads
  | spaced hblanks _ ih => exact ih.spaced hblanks
  | @array items closing hclosing _ ih =>
    cases items with
    | nil => exact (reads_empty hclosing).1
    | cons p items =>
      have hitems := readsItems_separated hclosing (List.cons_ne_nil p items) ih []
      simpa using hitems.reads
  | @object fields closing hclosing hblanks _ ih =>
    cases fields with
    | nil => exact (reads_empty hclosing).2
    | cons f fields =>
      have hfields := readsFields_separated hclosing (List.cons_ne_nil f fields)
        (fun g hg => FieldText.readsField (hblanks g hg) (ih g hg)) []
      simpa using hfields.reads

/-- A text that begins with a value is one value only where nothing but blanks follows. -/
theorem Reads.parse?_append {cs : List Char} {value : Json} (h : Reads cs value)
    {rest : List Char} (hrest : EndsNumber rest) :
    parse? (cs ++ rest) = if skipSpace rest = [] then some value else none := by
  rw [parse?, h hrest (Nat.lt_succ_self _)]

/-- A whole text that spells a value is read as the value. -/
theorem Reads.parse?_eq {cs : List Char} {value : Json} (h : Reads cs value) :
    parse? cs = some value := by
  have hparse := h.parse?_append endsNumber_nil
  rwa [List.append_nil] at hparse

end FlowTrace.Json
