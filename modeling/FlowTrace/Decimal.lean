import FlowTrace.Text
set_option autoImplicit false

/-!
# Decimal: doubles as decimals

A finite double is a sign, a natural significand and a power of two.  Everything that writes a
double starts from this exact value and stays in integers.  It is written with the fewest digits that
read back, or with a fixed number of places.
-/

namespace FlowTrace.Decimal

/-! ## The exact value -/

/-- The finite value `± significand · 2 ^ exponent` of a double. -/
structure Binary where
  negative : Bool
  significand : Nat
  exponent : Int
  deriving DecidableEq, Repr, Inhabited

/-- What a double stands for. -/
inductive Class where
  | finite (value : Binary)
  | infinite (negative : Bool)
  | notANumber
  deriving DecidableEq, Repr, Inhabited

/-- The smallest exponent of a double. -/
def minExponent : Int := -1074

/-- The significand of the smallest normal double with a given exponent. -/
def hiddenBit : Nat := 4503599627370496

/-- What the 64 bits of a double stand for. -/
def classify (bits : UInt64) : Class :=
  let word := bits.toNat
  let biased := word / hiddenBit % 2048
  let negative := decide (2048 ≤ word / hiddenBit)
  let fraction := word % hiddenBit
  if biased = 2047 then
    if fraction = 0 then .infinite negative else .notANumber
  else if biased = 0 then .finite ⟨negative, fraction, minExponent⟩
  else .finite ⟨negative, hiddenBit + fraction, minExponent + (biased - 1 : Nat)⟩

/-- A power of ten. -/
def tenTo (k : Nat) : Nat := Nat.pow 10 k

/-- A non-negative rational as numerator and denominator. -/
structure Ratio where
  num : Nat
  den : Nat
  deriving DecidableEq, Repr, Inhabited

namespace Ratio

/-- `n · 2 ^ e`. -/
def ofBinary (n : Nat) (e : Int) : Ratio :=
  match e with
  | .ofNat k => ⟨n <<< k, 1⟩
  | .negSucc k => ⟨n, 1 <<< (k + 1)⟩

/-- `r · 10 ^ e`. -/
def scale10 (r : Ratio) (e : Int) : Ratio :=
  match e with
  | .ofNat k => ⟨r.num * tenTo k, r.den⟩
  | .negSucc k => ⟨r.num, r.den * tenTo (k + 1)⟩

/-- The integer below or at the ratio. -/
def floor (r : Ratio) : Nat := r.num / r.den

/-- The nearest integer; of two equally near ones the even one. -/
def roundEven (r : Ratio) : Nat :=
  let q := r.num / r.den
  let twice := 2 * (r.num % r.den)
  if twice < r.den then q
  else if r.den < twice then q + 1
  else if q % 2 = 0 then q else q + 1

/-- Order of two ratios with positive denominators. -/
def lt (a b : Ratio) : Bool := a.num * b.den < b.num * a.den

/-- Order of two ratios with positive denominators. -/
def le (a b : Ratio) : Bool := a.num * b.den ≤ b.num * a.den

/-- Whole numbers as ratios. -/
def ofNat (n : Nat) : Ratio := ⟨n, 1⟩

/-- The distance of two ratios. -/
def distance (a b : Ratio) : Ratio :=
  ⟨if a.num * b.den ≤ b.num * a.den then b.num * a.den - a.num * b.den
    else a.num * b.den - b.num * a.den, a.den * b.den⟩

end Ratio

/-!
## The fewest digits that read back

Between a double and its neighbours lies an interval of reals that round to it.  For one, two, …
digits the two decimals next to the exact value are tried; the first count with a decimal inside
the interval wins, and of two such decimals the nearer one.
-/

/-- A positive decimal: its digits as one number, and where its first digit stands. -/
structure Scientific where
  digits : Nat
  /-- the power of ten of the first digit -/
  leading : Int
  deriving DecidableEq, Repr, Inhabited

/-- The power of ten of the first digit of a positive ratio. -/
def leadingExponent (r : Ratio) : Int :=
  if r.den ≤ r.num then ((Text.natDigits (r.num / r.den)).length : Int) - 1
  else -((Text.natDigits ((r.den + r.num - 1) / r.num - 1)).length : Int)

/-- The reals that round to a positive double. -/
structure Interval where
  lower : Ratio
  upper : Ratio
  closed : Bool

/-- The interval of a positive finite double: half way to either neighbour, ends included exactly
when the significand is even.  Below a power of two the neighbour is half as far. -/
def Binary.interval (value : Binary) : Interval :=
  let m := value.significand
  let e := value.exponent
  let lower :=
    if m = hiddenBit ∧ minExponent < e then Ratio.ofBinary (4 * m - 1) (e - 2)
    else Ratio.ofBinary (2 * m - 1) (e - 1)
  ⟨lower, Ratio.ofBinary (2 * m + 1) (e - 1), m % 2 = 0⟩

/-- The real lies in the interval. -/
def Interval.contains (i : Interval) (r : Ratio) : Bool :=
  if i.closed then i.lower.le r && r.le i.upper else i.lower.lt r && r.lt i.upper

/-- The best decimal with `count` digits inside the interval, if there is one. -/
def bestWith (exact : Ratio) (interval : Interval) (leading : Int) (count : Nat) :
    Option Scientific :=
  let unit := leading - (count - 1 : Nat)
  let below := (exact.scale10 (-unit)).floor
  let value (n : Nat) : Ratio := (Ratio.ofNat n).scale10 unit
  let pick (n : Nat) : Scientific :=
    if n = tenTo count then ⟨1, leading + 1⟩ else ⟨n, leading⟩
  let fitsBelow := below ≠ 0 && interval.contains (value below)
  let fitsAbove := interval.contains (value (below + 1))
  if fitsBelow && fitsAbove then
    let down := (value below).distance exact
    let up := (value (below + 1)).distance exact
    if down.lt up then some (pick below)
    else if up.lt down then some (pick (below + 1))
    else some (pick (if below % 2 = 0 then below else below + 1))
  else if fitsBelow then some (pick below)
  else if fitsAbove then some (pick (below + 1))
  else none

/-- The shortest decimal that reads back as a positive finite double; seventeen digits always do. -/
def Binary.shortest (value : Binary) : Scientific :=
  let exact := Ratio.ofBinary value.significand value.exponent
  let leading := leadingExponent exact
  let counts := (List.range 17).map (· + 1)
  match counts.findSome? (bestWith exact value.interval leading) with
  | some decimal => decimal
  | none => ⟨0, 0⟩

/-- How the digits of a decimal are laid out. -/
structure Layout where
  /-- least power of ten of the first digit that is written without an exponent -/
  leastPositional : Int
  /-- greatest power of ten of the first digit that is written without an exponent -/
  greatestPositional : Int
  /-- mark between digits and exponent of a value at or above one -/
  raised : String
  /-- mark between digits and exponent of a value below one -/
  lowered : String
  deriving Repr, Inhabited

/-- The digits without trailing zeros. -/
def stripZeros (digits : List Char) : List Char :=
  (digits.reverse.dropWhile (· == '0')).reverse

/-- The text of a positive decimal: positional in the middle of the range, always with a digit
behind the point there, and with an exponent outside it. -/
def Scientific.text (layout : Layout) (s : Scientific) : String :=
  let digits := stripZeros (Text.natDigits s.digits)
  if layout.leastPositional ≤ s.leading ∧ s.leading ≤ layout.greatestPositional then
    match s.leading with
    | .ofNat k =>
      let whole := digits.take (k + 1)
      let padding := List.replicate (k + 1 - whole.length) '0'
      let fraction := digits.drop (k + 1)
      String.ofList (whole ++ padding ++ '.' :: (if fraction = [] then ['0'] else fraction))
    | .negSucc k => String.ofList ('0' :: '.' :: List.replicate k '0' ++ digits)
  else
    let mantissa :=
      match digits with
      | [] => []
      | [d] => [d]
      | d :: rest => d :: '.' :: rest
    let mark := if 0 ≤ s.leading then layout.raised else layout.lowered
    String.ofList mantissa ++ mark ++ Text.ofNat s.leading.natAbs

/-- The shortest text of a double in a layout. -/
def shortest (layout : Layout) (value : Float) : String :=
  match classify value.toBits with
  | .finite exact =>
    (if exact.negative then "-" else "") ++
      (if exact.significand = 0 then "0.0" else exact.shortest.text layout)
  | .infinite negative => if negative then "-inf" else "inf"
  | .notANumber => "NaN"

/-!
## A fixed number of places

The exact value of a double is rounded once to the wanted number of places; a tie goes to the
neighbour with the even last digit, and a negative sign is kept even when all digits are zero.
-/

/-- The text of a natural number of units of `10 ^ -places`. -/
def unitsText (places units : Nat) : String :=
  if places = 0 then Text.ofNat units
  else
    Text.ofNat (units / tenTo places) ++ "." ++
      String.ofList (Text.paddedDigits places (units % tenTo places))

/-- The finite value with the given number of places. -/
def Binary.fixed (places : Nat) (value : Binary) : String :=
  let units := ((Ratio.ofBinary value.significand value.exponent).scale10 places).roundEven
  (if value.negative then "-" else "") ++ unitsText places units

/-- The double with the given number of places. -/
def fixed (places : Nat) (value : Float) : String :=
  match classify value.toBits with
  | .finite exact => exact.fixed places
  | .infinite negative => if negative then "-inf" else "inf"
  | .notANumber => "NaN"

end FlowTrace.Decimal
