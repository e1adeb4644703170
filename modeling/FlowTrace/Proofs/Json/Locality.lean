import FlowTrace.Proofs.Json.Spelling
set_option autoImplicit false

/-!
# Json: what a value takes

A reader is greedy and never backs up, so what it takes of a text does not depend on what follows:
the same characters in front of another text are read as the same value.  Two places look ahead.  A
number goes on as far as it can, and an escaped half of a surrogate pair looks for its other half.
The first is settled by what may follow a value, the second by the quote that closes the string.
-/

namespace FlowTrace.Json

/-! ## Strings -/

/-- The low surrogate that a text begins with in its long form, and what follows it. -/
def lowEscape? : List Char → Option (Nat × List Char)
  | '\\' :: 'u' :: e :: f :: g :: h :: rest =>
    match unit? e f g h with
    | some low => if isLowSurrogate low then some (low, rest) else none
    | none => none
  | _ => none

/-- The piece of a character in its long form: the first half of a pair takes the second with it. -/
def unitPiece (unit : Nat) (rest : List Char) : Piece :=
  if isHighSurrogate unit then
    match lowEscape? rest with
    | some (low, rest') => .char (pairChar unit low) rest'
    | none => .unpaired rest
  else if isLowSurrogate unit then .unpaired rest
  else .char (Char.ofNat unit) rest

theorem piece?_unit {a b c d : Char} {unit : Nat} (h : unit? a b c d = some unit) (rest : List Char) :
    piece? ('\\' :: 'u' :: a :: b :: c :: d :: rest) = some (unitPiece unit rest) := by
  rw [piece?, h]
  simp only [unitPiece]
  by_cases hhigh : isHighSurrogate unit = true
  · rw [if_pos hhigh, if_pos hhigh]
    split
    · rename_i e f g i rest'
      cases hunit : unit? e f g i with
      | none => simp [lowEscape?, hunit]
      | some low => by_cases hlow : isLowSurrogate low = true <;> simp [lowEscape?, hunit, hlow]
    · rename_i hother
      have hnone : lowEscape? rest = none := by
        unfold lowEscape?
        split
        · exact absurd rfl (hother _ _ _ _ _)
        · rfl
      rw [hnone]
  · rw [if_neg hhigh, if_neg hhigh]
    split <;> rfl

theorem quote_ne_of_unit? {a b c d : Char} {unit : Nat} (h : unit? a b c d = some unit) :
    ∀ digit ∈ [a, b, c, d], digit ≠ '"' := by
  have hnone : hexValue? '"' = none := by decide
  intro digit hdigit hquote
  simp only [List.mem_cons, List.not_mem_nil, or_false] at hdigit
  rcases hdigit with rfl | rfl | rfl | rfl <;> simp [unit?, hquote, hnone] at h

/-- An escape stands for itself, whatever follows, and has no quote in it. -/
theorem lowEscape?_eq_some {cs rest : List Char} {low : Nat} (h : lowEscape? cs = some (low, rest)) :
    ∃ front, '"' ∉ front ∧ cs = front ++ rest ∧
      ∀ more, lowEscape? (front ++ more) = some (low, more) := by
  unfold lowEscape? at h
  split at h
  · rename_i e f g i tail
    split at h
    · rename_i found hfound
      split at h
      · rename_i hlow
        cases h
        refine ⟨['\\', 'u', e, f, g, i], fun hquote => ?_, rfl, fun more => ?_⟩
        · have hdigits : '"' ∈ [e, f, g, i] := by simpa using hquote
          exact quote_ne_of_unit? hfound _ hdigits rfl
        · simp [lowEscape?, hfound, hlow]
      · cases h
    · cases h
  · cases h

/-- Where a string goes on without an escape up to its closing quote, it does whatever follows. -/
theorem lowEscape?_eq_none {body rest : List Char} (h : lowEscape? (body ++ '"' :: rest) = none)
    (more : List Char) : lowEscape? (body ++ '"' :: more) = none := by
  cases hmore : lowEscape? (body ++ '"' :: more) with
  | none => rfl
  | some found =>
    obtain ⟨front, hquote, hsplit, hfront⟩ := lowEscape?_eq_some hmore
    rcases List.append_eq_append_iff.1 hsplit with ⟨beyond, hbeyond, htail⟩ | ⟨inner, hbody, -⟩
    · cases beyond with
      | nil =>
        rw [List.append_nil] at hbeyond
        rw [← hbeyond, hfront] at h
        cases h
      | cons c beyond =>
        obtain ⟨rfl, -⟩ := List.cons.inj htail
        exact absurd (hbeyond ▸ List.mem_append_right _ List.mem_cons_self) hquote
    · rw [hbody, List.append_assoc, hfront] at h
      cases h

/-- A one-letter escape is read as one piece. -/
theorem piece?_short {e c : Char} (h : escaped? e = some c) (rest : List Char) :
    piece? ('\\' :: e :: rest) = some (.char c rest) := by
  rw [piece?, h]
  · rfl
  · rintro _ _ _ _ _ rfl
    cases h

theorem piece?_cases {cs : List Char} {p : Piece} (h : piece? cs = some p) :
    (∃ rest, cs = '"' :: rest ∧ p = .close rest) ∨
      (∃ a b c d unit rest, cs = '\\' :: 'u' :: a :: b :: c :: d :: rest ∧
        unit? a b c d = some unit ∧ p = unitPiece unit rest) ∨
      (∃ e c rest, cs = '\\' :: e :: rest ∧ escaped? e = some c ∧ p = .char c rest) ∨
      ∃ c rest, cs = c :: rest ∧ c ≠ '"' ∧ (c = '\\' → rest = []) ∧ ¬ c.toNat < 32 ∧
        p = .char c rest := by
  have hpiece := h
  unfold piece? at h
  split at h
  · cases h
  · cases h
    exact .inl ⟨_, rfl, rfl⟩
  · rename_i a b c d rest
    cases hunit : unit? a b c d with
    | none =>
      rw [hunit] at h
      cases h
    | some unit =>
      rw [piece?_unit hunit] at hpiece
      exact .inr (.inl ⟨a, b, c, d, unit, rest, rfl, hunit, (Option.some.inj hpiece).symm⟩)
  · obtain ⟨c, hc, rfl⟩ := Option.map_eq_some_iff.1 h
    exact .inr (.inr (.inl ⟨_, c, _, rfl, hc, rfl⟩))
  · rename_i c rest hquote hunit hescape
    split at h
    · cases h
    · rename_i hcontrol
      cases h
      refine .inr (.inr (.inr ⟨c, rest, rfl, hquote, fun hslash => ?_, hcontrol, rfl⟩))
      cases rest with
      | nil => rfl
      | cons e rest => exact absurd rfl (hescape e rest hslash)

theorem eq_of_piece?_close {cs rest : List Char} (h : piece? cs = some (.close rest)) :
    cs = '"' :: rest := by
  rcases piece?_cases h with ⟨_, rfl, hp⟩ | ⟨_, _, _, _, unit, tail, _, _, hp⟩ |
      ⟨_, _, _, _, _, hp⟩ | ⟨_, _, _, _, _, _, hp⟩
  · cases hp
    rfl
  · unfold unitPiece at hp
    split at hp <;> split at hp <;> cases hp
  · cases hp
  · cases hp

/-- A piece that yields a character is the same, whatever follows. -/
theorem piece?_eq_char {cs rest : List Char} {c : Char} (h : piece? cs = some (.char c rest))
    (hne : rest ≠ []) :
    ∃ front, front ≠ [] ∧ cs = front ++ rest ∧
      ∀ more, piece? (front ++ more) = some (.char c more) := by
  rcases piece?_cases h with ⟨_, _, hp⟩ | ⟨a, b, d, e, unit, tail, rfl, hunit, hp⟩ |
      ⟨e, _, tail, rfl, he, hp⟩ | ⟨_, tail, rfl, hquote, hslash, hcontrol, hp⟩
  · cases hp
  · unfold unitPiece at hp
    split at hp
    · rename_i hhigh
      split at hp
      · rename_i low rest' hlow
        rw [Piece.char.injEq] at hp
        obtain ⟨hc, rfl⟩ := hp
        obtain ⟨front, -, rfl, hfront⟩ := lowEscape?_eq_some hlow
        refine ⟨'\\' :: 'u' :: a :: b :: d :: e :: front, List.cons_ne_nil _ _, rfl,
          fun more => ?_⟩
        exact (piece?_unit hunit (front ++ more)).trans (by simp [unitPiece, hhigh, hfront, hc])
      · cases hp
    · rename_i hhigh
      split at hp
      · cases hp
      · rename_i hlow
        obtain ⟨rfl, rfl⟩ := Piece.char.inj hp
        refine ⟨['\\', 'u', a, b, d, e], List.cons_ne_nil _ _, rfl, fun more => ?_⟩
        exact (piece?_unit hunit more).trans (by simp [unitPiece, hhigh, hlow])
  · cases hp
    exact ⟨['\\', e], List.cons_ne_nil _ _, rfl, piece?_short he⟩
  · cases hp
    exact ⟨[c], List.cons_ne_nil _ _, rfl, piece?_plain hquote (mt hslash hne) hcontrol⟩

/-- An unpaired surrogate stays unpaired as long as the string goes on in the same way. -/
theorem piece?_eq_unpaired {cs body rest : List Char}
    (h : piece? cs = some (.unpaired (body ++ '"' :: rest))) :
    ∃ front, front ≠ [] ∧ cs = front ++ (body ++ '"' :: rest) ∧
      ∀ more, piece? (front ++ (body ++ '"' :: more)) = some (.unpaired (body ++ '"' :: more)) := by
  rcases piece?_cases h with ⟨_, _, hp⟩ | ⟨a, b, c, d, unit, tail, rfl, hunit, hp⟩ |
      ⟨_, _, _, _, _, hp⟩ | ⟨_, _, _, _, _, _, hp⟩
  · cases hp
  · -- whether the other half follows is decided in front of the closing quote
    have hpiece : ∀ more, unitPiece unit (body ++ '"' :: more) = .unpaired (body ++ '"' :: more) := by
      intro more
      unfold unitPiece at hp ⊢
      split at hp
      · rename_i hhigh
        split at hp
        · cases hp
        · rename_i hlow
          cases hp
          rw [if_pos hhigh, lowEscape?_eq_none hlow]
      · rename_i hhigh
        split at hp
        · rename_i hlow
          rw [if_neg hhigh, if_pos hlow]
        · cases hp
    have htail : tail = body ++ '"' :: rest := by
      unfold unitPiece at hp
      split at hp <;> split at hp <;> cases hp <;> rfl
    refine ⟨['\\', 'u', a, b, c, d], List.cons_ne_nil _ _, by rw [htail]; rfl, fun more => ?_⟩
    exact (piece?_unit hunit (body ++ '"' :: more)).trans (congrArg some (hpiece more))
  · cases hp
  · cases hp

/-- The text is read up to the quote as the rest of a string. -/
def ReadsBody (before : List Char) (paired : Bool) (body : List Char) (text : Option String) : Prop :=
  ∀ ⦃more : List Char⦄ ⦃fuel : Nat⦄, body.length < fuel →
    stringBody fuel before paired (body ++ '"' :: more) = some (text, more)

/-- A piece in front of a body, where one step leads from the piece to the body. -/
theorem ReadsBody.piece {before before' front body : List Char} {paired paired' : Bool}
    {text : Option String} (h : ReadsBody before' paired' body text) (hne : front ≠ [])
    (hstep : ∀ more fuel, stringBody (fuel + 1) before paired (front ++ (body ++ '"' :: more)) =
      stringBody fuel before' paired' (body ++ '"' :: more)) :
    ReadsBody before paired (front ++ body) text := by
  intro more fuel hfuel
  have hlength : 0 < front.length := List.length_pos_iff.2 hne
  rw [List.length_append] at hfuel
  obtain ⟨fuel, rfl⟩ := exists_fuel hfuel
  rw [List.append_assoc, hstep]
  exact h (by omega)

theorem stringBody_eq_some {fuel : Nat} {before cs rest : List Char} {paired : Bool}
    {text : Option String} (h : stringBody fuel before paired cs = some (text, rest)) :
    ∃ body, cs = body ++ '"' :: rest ∧ ReadsBody before paired body text := by
  induction fuel generalizing before paired cs with
  | zero => cases h
  | succ fuel ih =>
    rw [stringBody] at h
    split at h
    · cases h
    · rename_i tail hpiece
      cases h
      refine ⟨[], eq_of_piece?_close hpiece, fun more fuel hfuel => ?_⟩
      obtain ⟨fuel, rfl⟩ := exists_fuel hfuel
      rfl
    · rename_i c tail hpiece
      obtain ⟨body, rfl, hbody⟩ := ih h
      obtain ⟨front, hne, rfl, hfront⟩ := piece?_eq_char hpiece
        (List.append_ne_nil_of_right_ne_nil _ (List.cons_ne_nil _ _))
      exact ⟨front ++ body, (List.append_assoc _ _ _).symm,
        hbody.piece hne fun more fuel => by rw [stringBody, hfront]⟩
    · rename_i tail hpiece
      obtain ⟨body, rfl, hbody⟩ := ih h
      obtain ⟨front, hne, rfl, hfront⟩ := piece?_eq_unpaired hpiece
      exact ⟨front ++ body, (List.append_assoc _ _ _).symm,
        hbody.piece hne fun more fuel => by rw [stringBody, hfront]⟩

/-- A string takes what stands before its closing quote, whatever follows. -/
theorem exists_readsString {fuel : Nat} {cs rest : List Char} {text : Option String}
    (h : readString fuel cs = some (text, rest)) :
    ∃ body, cs = body ++ '"' :: rest ∧ ReadsString body text := by
  obtain ⟨body, rfl, hbody⟩ := stringBody_eq_some h
  exact ⟨body, rfl, fun more fuel hfuel => hbody hfuel⟩

/-! ## Numbers -/

theorem EndsNumber.endsDigits {rest : List Char} (h : EndsNumber rest) : Text.EndsDigits rest :=
  fun c hc => (h c hc).1

theorem spanDigits_eq {cs digits rest : List Char} (h : Text.spanDigits cs = (digits, rest)) :
    cs = digits ++ rest ∧ ∀ c ∈ digits, c.isDigit = true := by
  obtain ⟨rfl, rfl⟩ := Prod.mk.inj h
  exact ⟨List.takeWhile_append_dropWhile.symm, List.all_eq_true.1 List.all_takeWhile⟩

/-- The point with its digits is the same, whatever follows that is neither. -/
theorem readFraction_eq_some {cs rest : List Char} {fraction : Option (List Char)}
    (h : readFraction cs = some (fraction, rest)) :
    ∃ used, cs = used ++ rest ∧ (∀ c ∈ used.head?, c = '.') ∧
      ∀ {more : List Char}, (∀ c ∈ more.head?, c.isDigit = false ∧ c ≠ '.') →
        readFraction (used ++ more) = some (fraction, more) := by
  unfold readFraction at h
  split at h
  · rename_i tail
    split at h
    · cases h
    · rename_i digits rest' hne hspan
      cases h
      obtain ⟨rfl, hdigits⟩ := spanDigits_eq hspan
      refine ⟨'.' :: digits, rfl, fun c hc => (Option.some.inj hc).symm, fun hmore => ?_⟩
      have hspan' := Text.spanDigits_append hdigits fun c hc => (hmore c hc).1
      simp only [List.cons_append, readFraction, hspan']
  · cases h
    exact ⟨[], rfl, nofun, fun hmore => readFraction_of_ne_point fun c hc => (hmore c hc).2⟩

/-- The exponent is the same, whatever follows that does not go on with a number. -/
theorem readExponent_eq_some {cs rest : List Char} {exponent : Option Int}
    (h : readExponent cs = some (exponent, rest)) :
    ∃ used, cs = used ++ rest ∧ (∀ c ∈ used.head?, c = 'e' ∨ c = 'E') ∧
      ∀ {more : List Char}, EndsNumber more →
        readExponent (used ++ more) = some (exponent, more) := by
  unfold readExponent at h
  split at h
  · rename_i c tail
    split at h
    · rename_i hc
      split at h
      rename_i negative unsigned hsign
      split at h
      · cases h
      · rename_i digits rest' hne hspan
        cases h
        obtain ⟨rfl, hdigits⟩ := spanDigits_eq hspan
        have hread : ∀ {more : List Char}, EndsNumber more →
            Text.spanDigits (digits ++ more) = (digits, more) :=
          fun hmore => Text.spanDigits_append hdigits hmore.endsDigits
        split at hsign
        · cases hsign
          refine ⟨c :: '-' :: digits, rfl, fun e he => Option.some.inj he ▸ hc, fun hmore => ?_⟩
          simp [readExponent, hc, hread hmore]
        · cases hsign
          refine ⟨c :: '+' :: digits, rfl, fun e he => Option.some.inj he ▸ hc, fun hmore => ?_⟩
          simp [readExponent, hc, hread hmore]
        · cases hsign
          refine ⟨c :: digits, rfl, fun e he => Option.some.inj he ▸ hc, fun {more} hmore => ?_⟩
          -- the first digit is no sign, whatever follows the digits
          obtain ⟨d, ds, rfl⟩ := List.exists_cons_of_ne_nil hne
          have hspan' : Text.spanDigits (d :: (ds ++ more)) = (d :: ds, more) := hread hmore
          have hd : d ≠ '-' ∧ d ≠ '+' := by
            constructor <;> rintro rfl <;> exact absurd (hdigits _ List.mem_cons_self) (by decide)
          simp [readExponent, hc, hd, hspan']
    · cases h
      exact ⟨[], rfl, nofun, fun hmore => readExponent_of_endsNumber hmore⟩
  · cases h
    exact ⟨[], rfl, nofun, fun hmore => readExponent_of_endsNumber hmore⟩

theorem mem_head?_append {α : Type} {a : α} {as bs : List α} (h : a ∈ (as ++ bs).head?) :
    a ∈ as.head? ∨ a ∈ bs.head? := by
  cases as with
  | nil => exact .inr h
  | cons b as => exact .inl h

/-- A number is the same, whatever follows that does not go on with it. -/
theorem readNumber_eq_some {cs rest : List Char} {value : JsonNumber}
    (h : readNumber cs = some (value, rest)) :
    ∃ c used, cs = c :: used ++ rest ∧ (c.isDigit = true ∨ c = '-') ∧
      ∀ {more : List Char}, EndsNumber more →
        readNumber (c :: used ++ more) = some (value, more) := by
  unfold readNumber at h
  split at h
  rename_i negative unsigned hsign
  split at h
  rename_i whole afterWhole hspan
  split at h
  · rename_i hwhole
    obtain ⟨⟨fraction, afterFraction⟩, hfraction, h⟩ := Option.bind_eq_some_iff.1 h
    obtain ⟨⟨exponent, rest'⟩, hexponent, h⟩ := Option.bind_eq_some_iff.1 h
    cases h
    obtain ⟨rfl, hdigits⟩ := spanDigits_eq hspan
    obtain ⟨point, rfl, hpoint, hfraction'⟩ := readFraction_eq_some hfraction
    obtain ⟨power, rfl, hpower, hexponent'⟩ := readExponent_eq_some hexponent
    -- what follows a part ends the part in front of it
    have hafterPoint : ∀ {more : List Char}, EndsNumber more →
        ∀ c ∈ (power ++ more).head?, c.isDigit = false ∧ c ≠ '.' := by
      intro more hmore c hc
      rcases mem_head?_append hc with hc | hc
      · rcases hpower c hc with rfl | rfl <;> decide
      · exact ⟨(hmore c hc).1, (hmore c hc).2.1⟩
    have hspan' : ∀ {more : List Char}, EndsNumber more →
        Text.spanDigits (whole ++ (point ++ (power ++ more))) = (whole, point ++ (power ++ more)) := by
      intro more hmore
      refine Text.spanDigits_append hdigits fun c hc => ?_
      rcases mem_head?_append hc with hc | hc
      · rw [hpoint c hc]
        decide
      · exact (hafterPoint hmore c hc).1
    split at hsign
    · cases hsign
      refine ⟨'-', whole ++ (point ++ power), by simp, .inr rfl, fun hmore => ?_⟩
      simp [readNumber, hspan' hmore, hfraction' (hafterPoint hmore), hexponent' hmore, hwhole]
    · cases hsign
      obtain ⟨d, ds, rfl⟩ := List.exists_cons_of_ne_nil (l := whole) (by rintro rfl; cases hwhole)
      have hd : d.isDigit = true := hdigits d List.mem_cons_self
      refine ⟨d, ds ++ (point ++ power), by simp, .inl hd, fun {more} hmore => ?_⟩
      have hd' : d ≠ '-' := by rintro rfl; cases hd
      have hspan'' : Text.spanDigits (d :: (ds ++ (point ++ (power ++ more)))) =
          (d :: ds, point ++ (power ++ more)) := hspan' hmore
      simp [readNumber, hd', hspan'', hfraction' (hafterPoint hmore), hexponent' hmore, hwhole]
  · cases h

/-! ## Values -/

/-- The text of a list stands between its brackets. -/
def Framed (cs : List Char) : Json → Prop
  | .array _ => ∃ inner, cs = '[' :: (inner ++ [']'])
  | .object _ => ∃ inner, cs = '\x7b' :: (inner ++ ['\x7d'])
  | _ => True

theorem exists_of_skipSpace_eq {cs rest : List Char} (h : skipSpace cs = rest) :
    ∃ blanks, IsBlank blanks ∧ cs = blanks ++ rest :=
  ⟨cs.takeWhile isSpace, List.all_eq_true.1 List.all_takeWhile,
    h ▸ List.takeWhile_append_dropWhile.symm⟩

/-- A word that stands for a value is taken as a whole. -/
theorem eq_of_expect {word cs rest : List Char} {value found : Json}
    (h : (expect word cs).map (fun rest => (value, rest)) = some (found, rest)) :
    cs = word ++ rest ∧ value = found := by
  obtain ⟨rest', hexpect, heq⟩ := Option.map_eq_some_iff.1 h
  obtain ⟨rfl, rfl⟩ := Prod.mk.inj heq
  unfold expect at hexpect
  split at hexpect
  · rename_i hprefix
    obtain ⟨rest, rfl⟩ := List.isPrefixOf_iff_prefix.1 hprefix
    rw [List.drop_left] at hexpect
    cases hexpect
    exact ⟨rfl, rfl⟩
  · cases hexpect

theorem exists_reads_of_readNumber {cs rest : List Char} {value : JsonNumber}
    (h : readNumber cs = some (value, rest)) :
    ∃ used, cs = used ++ rest ∧ Reads used (.number value) := by
  obtain ⟨c, used, rfl, hc, hread⟩ := readNumber_eq_some h
  refine ⟨c :: used, rfl, fun more fuel hmore hfuel => ?_⟩
  obtain ⟨fuel, rfl⟩ := exists_fuel hfuel
  rw [List.cons_append, readValue_number hc, ← List.cons_append, hread hmore]
  rfl

/-- What is read as a value is read so whatever follows. -/
def TakesValue (fuel : Nat) : Prop :=
  ∀ {cs rest : List Char} {value : Json}, readValue fuel cs = some (value, rest) →
    ∃ blanks used, IsBlank blanks ∧ cs = blanks ++ (used ++ rest) ∧ Reads used value ∧
      Framed used value

/-- What is read as items is read so whatever follows. -/
def TakesItems (fuel : Nat) : Prop :=
  ∀ {before : List Json} {cs rest : List Char} {value : Json},
    readItems fuel before cs = some (value, rest) →
      ∃ inner items, cs = inner ++ ']' :: rest ∧ value = .array items ∧ ReadsItems inner before value

/-- What is read as fields is read so whatever follows. -/
def TakesFields (fuel : Nat) : Prop :=
  ∀ {before : List (Option String × Json)} {cs rest : List Char} {value : Json},
    readFields fuel before cs = some (value, rest) →
      ∃ inner fields, cs = inner ++ '\x7d' :: rest ∧ value = .object fields ∧
        ReadsFields inner before value

theorem takesValue_succ {fuel : Nat} (hitems : TakesItems fuel) (hfields : TakesFields fuel) :
    TakesValue (fuel + 1) := by
  intro cs rest value h
  obtain ⟨blanks, hblanks, htext⟩ := exists_of_skipSpace_eq (Eq.refl (skipSpace cs))
  refine ⟨blanks, ?_⟩
  rw [readValue] at h
  split at h
  · -- an object
    rename_i tail hskip
    rw [hskip] at htext
    split at h
    · rename_i hclosed
      cases h
      obtain ⟨closing, hclosing, rfl⟩ := exists_of_skipSpace_eq hclosed
      exact ⟨_, hblanks, by simp [htext], (reads_empty hclosing).2, closing, rfl⟩
    · obtain ⟨inner, fields, rfl, rfl, hinner⟩ := hfields h
      exact ⟨_, hblanks, by simp [htext], hinner.reads, inner, rfl⟩
  · -- an array
    rename_i tail hskip
    rw [hskip] at htext
    split at h
    · rename_i hclosed
      cases h
      obtain ⟨closing, hclosing, rfl⟩ := exists_of_skipSpace_eq hclosed
      exact ⟨_, hblanks, by simp [htext], (reads_empty hclosing).1, closing, rfl⟩
    · obtain ⟨inner, items, rfl, rfl, hinner⟩ := hitems h
      exact ⟨_, hblanks, by simp [htext], hinner.reads, inner, rfl⟩
  · -- a string
    rename_i tail hskip
    rw [hskip] at htext
    obtain ⟨⟨text, rest'⟩, hread, heq⟩ := Option.map_eq_some_iff.1 h
    cases heq
    obtain ⟨body, rfl, hbody⟩ := exists_readsString hread
    exact ⟨_, hblanks, by simp [htext], hbody.reads, trivial⟩
  · -- null
    rename_i tail hskip
    rw [hskip] at htext
    obtain ⟨rfl, rfl⟩ := eq_of_expect h
    exact ⟨_, hblanks, htext, Spells.null.reads, trivial⟩
  · -- true
    rename_i tail hskip
    rw [hskip] at htext
    obtain ⟨rfl, rfl⟩ := eq_of_expect h
    exact ⟨_, hblanks, htext, (Spells.bool true).reads, trivial⟩
  · -- false
    rename_i tail hskip
    rw [hskip] at htext
    obtain ⟨rfl, rfl⟩ := eq_of_expect h
    exact ⟨_, hblanks, htext, (Spells.bool false).reads, trivial⟩
  · -- a number
    obtain ⟨⟨number, rest'⟩, hread, heq⟩ := Option.map_eq_some_iff.1 h
    cases heq
    obtain ⟨used, hused, hreads⟩ := exists_reads_of_readNumber hread
    exact ⟨used, hblanks, by rw [← hused]; exact htext, hreads, trivial⟩

theorem takesItems_succ {fuel : Nat} (hvalue : TakesValue fuel) (hitems : TakesItems fuel) :
    TakesItems (fuel + 1) := by
  intro before cs rest value h
  rw [readItems] at h
  split at h
  · cases h
  · rename_i item tail hitem
    obtain ⟨blanks, used, hblanks, rfl, hused, -⟩ := hvalue hitem
    have hread : Reads (blanks ++ used) item := hused.spaced hblanks
    split at h
    · rename_i tail' hskip
      obtain ⟨closing, hclosing, rfl⟩ := exists_of_skipSpace_eq hskip
      obtain ⟨inner, items, rfl, rfl, hinner⟩ := hitems h
      exact ⟨_, items, by simp, rfl, hinner.cons hclosing hread⟩
    · rename_i tail' hskip
      cases h
      obtain ⟨closing, hclosing, rfl⟩ := exists_of_skipSpace_eq hskip
      exact ⟨_, _, by simp, rfl, ReadsItems.last hclosing hread before⟩
    · cases h

theorem takesFields_succ {fuel : Nat} (hvalue : TakesValue fuel) (hfields : TakesFields fuel) :
    TakesFields (fuel + 1) := by
  intro before cs rest object h
  rw [readFields] at h
  split at h
  · rename_i tail hskip
    obtain ⟨gap, hgap, rfl⟩ := exists_of_skipSpace_eq hskip
    split at h
    · cases h
    · rename_i name tail₁ hname
      obtain ⟨body, rfl, hbody⟩ := exists_readsString hname
      split at h
      · rename_i tail₂ hskip₁
        obtain ⟨gap₁, hgap₁, rfl⟩ := exists_of_skipSpace_eq hskip₁
        split at h
        · cases h
        · rename_i value tail₃ hitem
          obtain ⟨blanks, used, hblanks, rfl, hused, -⟩ := hvalue hitem
          have hread := (hused.spaced hblanks).readsField hgap hbody hgap₁
          split at h
          · rename_i tail₄ hskip₃
            obtain ⟨closing, hclosing, rfl⟩ := exists_of_skipSpace_eq hskip₃
            obtain ⟨inner, fields, rfl, rfl, hinner⟩ := hfields h
            exact ⟨_, fields, by simp, rfl, hinner.cons hclosing hread⟩
          · rename_i tail₄ hskip₃
            cases h
            obtain ⟨closing, hclosing, rfl⟩ := exists_of_skipSpace_eq hskip₃
            exact ⟨_, _, by simp, rfl, ReadsFields.last hclosing hread before⟩
          · cases h
      · cases h
  · cases h

/-- What is read as a value, as items or as fields is read so whatever follows. -/
theorem takes (fuel : Nat) : TakesValue fuel ∧ TakesItems fuel ∧ TakesFields fuel := by
  induction fuel with
  | zero => exact ⟨nofun, nofun, nofun⟩
  | succ fuel ih =>
    obtain ⟨ihValue, ihItems, ihFields⟩ := ih
    exact ⟨takesValue_succ ihItems ihFields, takesItems_succ ihValue ihItems,
      takesFields_succ ihValue ihFields⟩

/-- A whole text is a value where it is what that value takes, between blanks. -/
theorem parse?_eq_some_iff {cs : List Char} {value : Json} :
    parse? cs = some value ↔
      ∃ blanks used closing, cs = blanks ++ (used ++ closing) ∧ IsBlank blanks ∧ IsBlank closing ∧
        Reads used value ∧ Framed used value := by
  constructor
  · intro h
    unfold parse? at h
    split at h
    · rename_i found rest hread
      split at h
      · rename_i hrest
        cases h
        obtain ⟨blanks, used, hblanks, hcs, hused, hframed⟩ := (takes _).1 hread
        obtain ⟨closing, hclosing, rfl⟩ := exists_of_skipSpace_eq hrest
        rw [List.append_nil] at hcs
        exact ⟨blanks, used, closing, hcs, hblanks, hclosing, hused, hframed⟩
      · cases h
    · cases h
  · rintro ⟨blanks, used, closing, rfl, hblanks, hclosing, hused, -⟩
    have hends : EndsNumber closing := List.append_nil closing ▸ endsNumber_blank hclosing endsNumber_nil
    have hskip : skipSpace closing = [] := List.append_nil closing ▸ skipSpace_append hclosing []
    rw [← List.append_assoc, (hused.spaced hblanks).parse?_append hends, if_pos hskip]

end FlowTrace.Json
