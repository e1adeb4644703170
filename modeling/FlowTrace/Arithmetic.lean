set_option autoImplicit false

/-!
# Arithmetic: 64-bit differences, sums and means

Times and logical stamps are 64-bit words.  Two rules of arithmetic are in use: relative times
*clamp* at the ends of the range, while statistics *refuse* a result that does not fit and say
which operation it was.  Both are stated on the exact integer result, so that a statement about
them is a statement about integers and two bounds.
-/

namespace FlowTrace

/-- The operation that has no 64-bit word for its result: the exact result does not fit, or there is
none. -/
inductive Overflow where
  | add
  | subtract
  | divide
  /-- a division by zero -/
  | divideByZero
  deriving DecidableEq, Repr, Inhabited

/-- The text shown when a computation stops at an overflow. -/
def Overflow.message : Overflow → String
  | .add => "attempt to add with overflow"
  | .subtract => "attempt to subtract with overflow"
  | .divide => "attempt to divide with overflow"
  | .divideByZero => "attempt to divide by zero"

namespace Word

/-- The least value of a signed 64-bit word. -/
def least : Int := -9223372036854775808

/-- The greatest value of a signed 64-bit word. -/
def greatest : Int := 9223372036854775807

/-- The greatest value of an unsigned 64-bit word. -/
def greatestUnsigned : Nat := 18446744073709551615

/-- The integer is one of the values of a signed 64-bit word. -/
def Fits (i : Int) : Prop := least ≤ i ∧ i ≤ greatest

instance (i : Int) : Decidable (Fits i) := inferInstanceAs (Decidable (_ ∧ _))

theorem fits_iff {i : Int} :
    Fits i ↔ -9223372036854775808 ≤ i ∧ i < 9223372036854775808 := by
  simp only [Fits, least, greatest]
  omega

theorem fits_toInt (w : Int64) : Fits w.toInt := by
  have := w.le_toInt
  have := w.toInt_lt
  rw [fits_iff]
  omega

/-- The word of an exact result, or the overflow that `cause` names. -/
def exact (cause : Overflow) (i : Int) : Except Overflow Int64 :=
  if Fits i then .ok (Int64.ofInt i) else .error cause

/-- The sum of two words. -/
def add (a b : Int64) : Except Overflow Int64 := exact .add (a.toInt + b.toInt)

/-- The difference of two words. -/
def sub (a b : Int64) : Except Overflow Int64 := exact .subtract (a.toInt - b.toInt)

/-- The quotient of two words, rounded toward zero. -/
def div (a b : Int64) : Except Overflow Int64 :=
  if b = 0 then .error .divideByZero else exact .divide (a.toInt.tdiv b.toInt)

/-- The sum of a list of words, added from the left; every running sum has to fit. -/
def sum (ws : List Int64) : Except Overflow Int64 := ws.foldlM add 0

/-- The difference of two words, moved to the nearer end of the range where it does not fit. -/
def clampedSub (a b : Int64) : Int64 := Int64.ofIntClamp (a.toInt - b.toInt)

theorem toInt_ofInt_of_fits {i : Int} (h : Fits i) : (Int64.ofInt i).toInt = i := by
  rw [fits_iff] at h
  exact Int64.toInt_ofInt_of_le (by omega) (by omega)

theorem toInt_of_exact {cause : Overflow} {i : Int} {w : Int64} (h : exact cause i = .ok w) :
    w.toInt = i := by
  unfold exact at h
  split at h
  · rename_i hi
    cases h
    exact toInt_ofInt_of_fits hi
  · cases h

theorem exact_eq_error_iff {cause : Overflow} {i : Int} :
    exact cause i = .error cause ↔ ¬ Fits i := by
  unfold exact
  split <;> simp_all

end Word

end FlowTrace
