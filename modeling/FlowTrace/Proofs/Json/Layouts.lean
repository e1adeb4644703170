import FlowTrace.Proofs.Json.Spelling
set_option autoImplicit false

/-!
# Json: layouts that are read back

A value that is made of texts, integers of 64 bits and named fields only is plain.  Layouts differ in
the blanks that they put between tokens, and every one of them spells a plain value; so the value is
read back from both layouts that there are, whatever the strings in it hold.
-/

namespace FlowTrace.Json

/-- Every string has a text, every number is an integer of 64 bits, and every field has a name. -/
inductive Plain : Json → Prop where
  | null : Plain .null
  | bool (value : Bool) : Plain (.bool value)
  | integer {value : Int} (hleast : Word.least ≤ value) (hgreatest : value ≤ Word.greatestUnsigned) :
      Plain (.int value)
  | text (value : String) : Plain (.text value)
  | array {items : List Json} (hitems : ∀ item ∈ items, Plain item) : Plain (.array items)
  | object {fields : List (Option String × Json)} (hnames : ∀ f ∈ fields, f.1.isSome = true)
      (hfields : ∀ f ∈ fields, Plain f.2) : Plain (.object fields)

/-! ## Blanks between tokens -/

/-- The blanks that a layout puts between tokens. -/
structure Gaps where
  /-- in front of an item or field, by its level, and of the closing bracket -/
  line : Nat → List Char
  /-- behind the colon of a field -/
  colon : List Char

namespace Gaps

variable (gaps : Gaps) (write : Nat → Json → List Char) (level : Nat)

/-- The items of an array, each behind its blanks. -/
def itemTexts (items : List Json) : List (List Char × Json) :=
  items.map fun item => (gaps.line (level + 1) ++ write (level + 1) item, item)

/-- The fields of an object, each behind its blanks. -/
def fieldTexts (fields : List (Option String × Json)) : List FieldText :=
  fields.map fun f =>
    ⟨gaps.line (level + 1), f.1.getD "", gaps.colon ++ write (level + 1) f.2, f.2⟩

/-- The blanks in front of a closing bracket; none where nothing stands before it. -/
def closing (empty : Bool) : List Char := if empty then [] else gaps.line level

/-- The layout writes a value at a level with these blanks between its tokens. -/
structure Lay : Prop where
  null : ∀ level, write level .null = ['n', 'u', 'l', 'l']
  bool : ∀ level value, write level (.bool value) = writeBool value
  number : ∀ level value, write level (.number value) = writeNumber value
  string : ∀ level text, write level (.string text) = writeString text
  array : ∀ level items, write level (.array items) =
    '[' :: (separated ((gaps.itemTexts write level items).map Prod.fst) ++
      (gaps.closing level items.isEmpty ++ [']']))
  object : ∀ level fields, write level (.object fields) =
    '\x7b' :: (separated ((gaps.fieldTexts write level fields).map FieldText.chars) ++
      (gaps.closing level fields.isEmpty ++ ['\x7d']))
  line : ∀ level, IsBlank (gaps.line level)
  colon : IsBlank gaps.colon

end Gaps

/-- A plain value is spelled by every layout. -/
theorem Plain.spells_write {gaps : Gaps} {write : Nat → Json → List Char} {value : Json}
    (h : Plain value) (hlay : gaps.Lay write) (level : Nat) : Spells (write level value) value := by
  have hclosing : ∀ level empty, IsBlank (gaps.closing level empty) := by
    intro level empty
    cases empty with
    | true => intro c hc; cases hc
    | false => exact hlay.line level
  induction h generalizing level with
  | null => exact hlay.null level ▸ .null
  | bool value => exact hlay.bool level value ▸ .bool value
  | @integer value hleast hgreatest => exact hlay.number level _ ▸ .integer hleast hgreatest
  | text value => exact hlay.string level _ ▸ .text value
  | @array items _ ih =>
    have hitems : ∀ p ∈ gaps.itemTexts write level items, Spells p.1 p.2 := by
      intro p hp
      obtain ⟨item, hitem, rfl⟩ := List.mem_map.1 hp
      exact .spaced (hlay.line _) (ih item hitem (level + 1))
    have hvalues : (gaps.itemTexts write level items).map Prod.snd = items := by
      rw [Gaps.itemTexts, List.map_map]
      exact List.map_id items
    have hspells := Spells.array (hclosing level items.isEmpty) hitems
    rw [hvalues, ← hlay.array] at hspells
    exact hspells
  | @object fields hnames _ ih =>
    have hblanks : ∀ f ∈ gaps.fieldTexts write level fields, IsBlank f.blanks := by
      intro f hf
      obtain ⟨field, -, rfl⟩ := List.mem_map.1 hf
      exact hlay.line _
    have htexts : ∀ f ∈ gaps.fieldTexts write level fields, Spells f.text f.value := by
      intro f hf
      obtain ⟨field, hfield, rfl⟩ := List.mem_map.1 hf
      exact .spaced hlay.colon (ih field hfield (level + 1))
    have hvalues : ((gaps.fieldTexts write level fields).map fun f => Json.field f.name f.value) =
        fields := by
      rw [Gaps.fieldTexts, List.map_map]
      refine (List.map_congr_left fun f hf => ?_).trans (List.map_id fields)
      obtain ⟨name, hname⟩ := Option.isSome_iff_exists.1 (hnames f hf)
      exact Prod.ext (by simp [Json.field, hname]) rfl
    have hspells := Spells.object (hclosing level fields.isEmpty) hblanks htexts
    rw [hvalues, ← hlay.object] at hspells
    exact hspells

/-! ## The pretty layout -/

/-- Every item and field stands on a line of its own, and a value one space behind its name. -/
def prettyGaps : Gaps := ⟨newline, [' ']⟩

theorem pretty_array (level : Nat) (items : List Json) :
    pretty level (.array items) =
      '[' :: (separated ((prettyGaps.itemTexts pretty level items).map Prod.fst) ++
        (prettyGaps.closing level items.isEmpty ++ [']'])) := by
  cases items with
  | nil => rfl
  | cons item rest =>
    rw [pretty]
    congr 1
    induction rest generalizing item with
    | nil => simp [prettyItems, prettyGaps, Gaps.itemTexts, Gaps.closing, separated]
    | cons next rest ih =>
      rw [prettyItems, ih next]
      simp [prettyGaps, Gaps.itemTexts, Gaps.closing, separated]

theorem pretty_object (level : Nat) (fields : List (Option String × Json)) :
    pretty level (.object fields) =
      '\x7b' :: (separated ((prettyGaps.fieldTexts pretty level fields).map FieldText.chars) ++
        (prettyGaps.closing level fields.isEmpty ++ ['\x7d'])) := by
  cases fields with
  | nil => rfl
  | cons f rest =>
    rw [pretty]
    congr 1
    induction rest generalizing f with
    | nil =>
      simp [prettyFields, prettyGaps, Gaps.fieldTexts, Gaps.closing, separated, FieldText.chars,
        writeString]
    | cons next rest ih =>
      rw [prettyFields, ih next]
      simp [prettyGaps, Gaps.fieldTexts, Gaps.closing, separated, FieldText.chars, writeString]

theorem lay_pretty : prettyGaps.Lay pretty where
  null _ := rfl
  bool _ _ := rfl
  number _ _ := rfl
  string _ _ := rfl
  array := pretty_array
  object := pretty_object
  line level := by
    intro c hc
    rcases List.mem_cons.1 hc with rfl | hc
    · rfl
    · rw [List.eq_of_mem_replicate hc]
      rfl
  colon := by
    intro c hc
    rw [List.mem_singleton.1 hc]
    rfl

/-- The pretty text of a plain value is read as the value. -/
theorem Plain.parse?_prettyText {value : Json} (h : Plain value) :
    parse? value.prettyText.toList = some value := by
  rw [prettyText, String.toList_ofList]
  exact (h.spells_write lay_pretty 0).reads.parse?_eq

/-! ## The compact layout -/

/-- There are no blanks at all. -/
def compactGaps : Gaps := ⟨fun _ => [], []⟩

theorem compact_array (items : List Json) :
    compact (.array items) = '[' :: (separated (items.map compact) ++ [']']) := by
  cases items with
  | nil => rfl
  | cons item rest =>
    rw [compact]
    congr 1
    induction rest generalizing item with
    | nil => simp [compactItems, separated]
    | cons next rest ih =>
      rw [compactItems, ih next]
      simp [separated]

/-- The fields of an object without blanks. -/
def compactFieldTexts (fields : List (Option String × Json)) : List (List Char) :=
  fields.map fun f => writeString f.1 ++ ':' :: compact f.2

theorem compact_object (fields : List (Option String × Json)) :
    compact (.object fields) = '\x7b' :: (separated (compactFieldTexts fields) ++ ['\x7d']) := by
  cases fields with
  | nil => rfl
  | cons f rest =>
    rw [compact]
    congr 1
    induction rest generalizing f with
    | nil => simp [compactFields, compactFieldTexts, separated]
    | cons next rest ih =>
      rw [compactFields, ih next]
      simp [compactFieldTexts, separated]

theorem lay_compact : compactGaps.Lay fun _ => compact where
  null _ := rfl
  bool _ _ := rfl
  number _ _ := rfl
  string _ _ := rfl
  array _ items := by
    simp [compact_array, compactGaps, Gaps.itemTexts, Gaps.closing, Function.comp_def]
  object _ fields := by
    simp [compact_object, compactFieldTexts, compactGaps, Gaps.fieldTexts, Gaps.closing,
      FieldText.chars, writeString, Function.comp_def]
  line _ := by
    intro c hc
    cases hc
  colon := by
    intro c hc
    cases hc

/-! ## Control characters -/

/-- There are no control characters below the space in the text, line ends among them. -/
def NoControl (cs : List Char) : Prop := ∀ c ∈ cs, 32 ≤ c.toNat

instance (cs : List Char) : Decidable (NoControl cs) :=
  List.decidableBAll (fun c : Char => 32 ≤ c.toNat) cs

theorem noControl_escape (c : Char) : NoControl (escape c) := by
  have hdigits : ∀ n < 32, NoControl ['\\', 'u', '0', '0', hexDigit (n / 16), hexDigit (n % 16)] := by
    decide
  unfold escape
  repeat' split
  any_goals decide
  · rename_i hcontrol
    exact hdigits c.toNat hcontrol
  · rename_i hplain
    intro d hd
    rw [List.mem_singleton.1 hd]
    exact Nat.le_of_not_lt hplain

theorem noControl_quote (text : String) : NoControl (quote text) := by
  intro c hc
  simp only [quote, List.mem_cons, List.mem_append, List.mem_flatMap, List.not_mem_nil,
    or_false] at hc
  rcases hc with rfl | ⟨d, -, hc⟩ | rfl
  · decide
  · exact noControl_escape d c hc
  · decide

theorem noControl_intDigits (value : Int) : NoControl (Text.intDigits value) := by
  have hdigit : ∀ n, NoControl (Text.natDigits n) := by
    intro n c hc
    have hc := Text.isDigit_of_mem_natDigits hc
    simp only [Char.isDigit, Bool.and_eq_true, decide_eq_true_eq, UInt32.le_iff_toNat_le] at hc
    exact Nat.le_trans (by decide) hc.1
  cases value with
  | ofNat n => exact hdigit n
  | negSucc n =>
    intro c hc
    rcases List.mem_cons.1 hc with rfl | hc
    · decide
    · exact hdigit _ c hc

theorem noControl_separated {texts : List (List Char)} (h : ∀ cs ∈ texts, NoControl cs) :
    NoControl (separated texts) := by
  induction texts with
  | nil => intro c hc; cases hc
  | cons cs texts ih =>
    obtain ⟨hfirst, hrest⟩ := List.forall_mem_cons.1 h
    cases texts with
    | nil => exact hfirst
    | cons ds texts =>
      intro c hc
      simp only [separated, List.mem_append, List.mem_cons] at hc
      rcases hc with hc | rfl | hc
      · exact hfirst c hc
      · decide
      · exact ih hrest c hc

/-- A plain value without blanks stands on one line. -/
theorem Plain.noControl_compact {value : Json} (h : Plain value) : NoControl value.compact := by
  induction h with
  | null =>
    rw [compact]
    decide
  | bool value =>
    rw [compact]
    cases value <;> decide
  | integer => exact noControl_intDigits _
  | text value => exact noControl_quote value
  | @array items _ ih =>
    have hitems : ∀ cs ∈ items.map compact, NoControl cs := by
      intro cs hcs
      obtain ⟨item, hitem, rfl⟩ := List.mem_map.1 hcs
      exact ih item hitem
    rw [compact_array]
    intro c hc
    simp only [List.mem_cons, List.mem_append, List.not_mem_nil, or_false] at hc
    rcases hc with rfl | hc | rfl
    · decide
    · exact noControl_separated hitems c hc
    · decide
  | @object fields _ _ ih =>
    have hfields : ∀ cs ∈ compactFieldTexts fields, NoControl cs := by
      intro cs hcs
      obtain ⟨f, hf, rfl⟩ := List.mem_map.1 hcs
      intro c hc
      simp only [List.mem_append, List.mem_cons] at hc
      rcases hc with hc | rfl | hc
      · exact noControl_quote _ c hc
      · decide
      · exact ih f hf c hc
    rw [compact_object]
    intro c hc
    simp only [List.mem_cons, List.mem_append, List.not_mem_nil, or_false] at hc
    rcases hc with rfl | hc | rfl
    · decide
    · exact noControl_separated hfields c hc
    · decide

/-! ## Values of use -/

@[simp] theorem usableWithin_bool (room : Nat) (value : Bool) :
    usableWithin room (.bool value) = true := by
  cases room <;> rfl

@[simp] theorem usableWithin_int (room : Nat) (value : Int) :
    usableWithin room (.int value) = true := by
  cases room <;> rfl

@[simp] theorem usableWithin_text (room : Nat) (value : String) :
    usableWithin room (.text value) = true := by
  cases room <;> rfl

theorem itemsUsable_iff {room : Nat} {items : List Json} :
    itemsUsable room items = true ↔ ∀ item ∈ items, usableWithin room item = true := by
  induction items with
  | nil => simp [itemsUsable]
  | cons item items ih => simp [itemsUsable, ih]

theorem fieldsUsable_iff {room : Nat} {fields : List (Option String × Json)} :
    fieldsUsable room fields = true ↔
      ∀ f ∈ fields, f.1.isSome = true ∧ usableWithin room f.2 = true := by
  induction fields with
  | nil => simp [fieldsUsable]
  | cons f fields ih => simp [fieldsUsable, ih, and_assoc]

theorem parseUsable?_eq {cs : List Char} {value : Json} (h : parse? cs = some value)
    (husable : value.usable = true) : parseUsable? cs = some value := by
  rw [parseUsable?, h]
  exact if_pos husable

end FlowTrace.Json
