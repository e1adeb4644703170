set_option autoImplicit false

/-!
# Text: blanks, lines and numerals

What the formats of dumps, documents and reports have in common: blank characters and trimming, lines
and columns of cells, and decimal numerals.
-/

namespace FlowTrace.Text

/-!
## Blank characters and trimming

A character is blank when it has the Unicode property `White_Space`.  Every character of the
table's ASCII part is blank for core's own test or one of the two controls it leaves out.
-/

/-- The inclusive code point ranges of the property `White_Space`, ascending. -/
def blankRanges : List (Nat × Nat) :=
  [(0x9, 0xD), (0x20, 0x20), (0x85, 0x85), (0xA0, 0xA0), (0x1680, 0x1680), (0x2000, 0x200A),
   (0x2028, 0x2029), (0x202F, 0x202F), (0x205F, 0x205F), (0x3000, 0x3000)]

/-- The character has the property `White_Space`. -/
def isBlank (c : Char) : Bool :=
  blankRanges.any fun range => range.1 ≤ c.toNat && c.toNat ≤ range.2

/-- The text without its leading blanks. -/
def trimStart (cs : List Char) : List Char := cs.dropWhile isBlank

/-- The text without its trailing blanks. -/
def trimEnd (cs : List Char) : List Char := (cs.reverse.dropWhile isBlank).reverse

/-- The text without leading and trailing blanks. -/
def trim (cs : List Char) : List Char := trimEnd (trimStart cs)

/-!
## Lines and columns

Texts are put together from lines, and lines of a table from cells.  Cells are filled with
spaces up to the width of their column; a longer cell keeps its full text.  Widths count characters.
-/

/-- The cell at the left of its column. -/
def alignLeft (width : Nat) (cell : String) : String :=
  cell ++ String.ofList (List.replicate (width - cell.length) ' ')

/-- The cell at the right of its column. -/
def alignRight (width : Nat) (cell : String) : String :=
  String.ofList (List.replicate (width - cell.length) ' ') ++ cell

/-- The character written `n` times. -/
def rule (c : Char) (n : Nat) : String := String.ofList (List.replicate n c)

/-- The items with the separator between neighbours. -/
def joinWith (separator : String) (items : List String) : String :=
  String.intercalate separator items

/-- The texts as lines, each with its end. -/
def lines (texts : List String) : String := String.join (texts.map fun text => text ++ "\n")

/-!
## Decimal numerals

Reading runs of ASCII digits, reading a signed integer, and writing integers.  Writing then
reading gives the integer back.
-/

/-- The value of a run of decimal digits. -/
def digitsValue (cs : List Char) : Nat := Nat.ofDigitChars 10 cs 0

/-- The leading run of ASCII digits and the text after it. -/
def spanDigits (cs : List Char) : List Char × List Char :=
  (cs.takeWhile Char.isDigit, cs.dropWhile Char.isDigit)

/-- An integer: one optional sign and at least one ASCII digit, nothing else. -/
def readInt? (cs : List Char) : Option Int :=
  match cs with
  | '-' :: digits => (magnitude? digits).map fun n => -(n : Int)
  | '+' :: digits => (magnitude? digits).map Int.ofNat
  | digits => (magnitude? digits).map Int.ofNat
where
  /-- The value of a non-empty text that holds ASCII digits only. -/
  magnitude? (digits : List Char) : Option Nat :=
    if digits ≠ [] ∧ digits.all Char.isDigit then some (digitsValue digits) else none

/-- The shortest decimal numeral of a natural number. -/
def natDigits (n : Nat) : List Char := Nat.toDigits 10 n

/-- The shortest decimal numeral of an integer. -/
def intDigits : Int → List Char
  | .ofNat n => natDigits n
  | .negSucc n => '-' :: natDigits (n + 1)

/-- The numeral with zeros in front, up to the given width. -/
def paddedDigits (width n : Nat) : List Char :=
  List.replicate (width - (natDigits n).length) '0' ++ natDigits n

/-- The text of a natural number. -/
def ofNat (n : Nat) : String := String.ofList (natDigits n)

/-- The text of an integer. -/
def ofInt (i : Int) : String := String.ofList (intDigits i)

theorem digitsValue_natDigits (n : Nat) : digitsValue (natDigits n) = n :=
  Nat.ofDigitChars_toDigits (by decide) (by decide)

theorem isDigit_of_mem_natDigits {n : Nat} {c : Char} (h : c ∈ natDigits n) :
    c.isDigit = true :=
  Nat.isDigit_of_mem_toDigits (by decide) (by decide) h

end FlowTrace.Text
