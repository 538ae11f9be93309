import SourcePress.Number.Binary64

/-!
# The shortest decimal of a number

The decimal of a number has the fewest digits that read back as the number, and of the decimals
with so many digits it is the nearest. For each count of digits only the two neighbours of the
number can be it: the decimal just below or equal, and the one just above.
-/

namespace SourcePress

/-- A decimal: digits taken times a power of ten. -/
structure Decimal where
  /-- The digits. -/
  digits : Nat
  /-- The power of ten of the last digit. -/
  exponent : Int
  deriving DecidableEq, Repr

namespace Decimal

/-- The numerator of a decimal over a common power of ten. -/
def numerator (d : Decimal) : Nat := d.digits * Nat.pow 10 d.exponent.toNat

/-- The denominator of a decimal. -/
def denominator (d : Decimal) : Nat := Nat.pow 10 (-d.exponent).toNat

/-- The number that a decimal with a sign reads back as. -/
def read? (negative : Bool) (d : Decimal) : Option Binary64 :=
  Binary64.ofDecimal? negative d.digits d.exponent

end Decimal

namespace Binary64

/-- The magnitude of a number as a numerator and a denominator. -/
def ratio (x : Binary64) : Nat × Nat := scaled x.mantissa 1 (-x.exponent)

/-- The power of ten just above a positive ratio. -/
def tenPower (numerator denominator : Nat) : Int :=
  let guess : Int :=
    (Nat.toDigits 10 numerator).length - ((Nat.toDigits 10 denominator).length : Int)
  if numerator * Nat.pow 10 (-guess).toNat < denominator * Nat.pow 10 guess.toNat then guess
  else guess + 1

/-- The neighbours of a ratio among the decimals whose last digit has a power of ten. -/
def neighbours (numerator denominator : Nat) (exponent : Int) : Decimal × Decimal :=
  let below :=
    numerator * Nat.pow 10 (-exponent).toNat / (denominator * Nat.pow 10 exponent.toNat)
  (⟨below, exponent⟩, ⟨below + 1, exponent⟩)

/-- True if a ratio is nearer to the first of its neighbours, or as near and the first is even. -/
def prefersLower (numerator denominator : Nat) (lower upper : Decimal) : Bool :=
  let twice := 2 * numerator * lower.denominator
  let middle := (lower.numerator + upper.numerator) * denominator
  twice < middle || (twice == middle && lower.digits % 2 == 0)

/-- The decimal with a count of digits that reads back as a number, if there is one. -/
def withDigits? (x : Binary64) (count : Nat) : Option Decimal :=
  let (n, d) := x.ratio
  let (lower, upper) := neighbours n d (tenPower n d - count)
  let reads := fun decimal => Decimal.read? x.negative decimal == some x
  match reads lower, reads upper with
  | true, true => if prefersLower n d lower upper then some lower else some upper
  | true, false => some lower
  | false, true => some upper
  | false, false => none

/-- All digits of a number: each power of two is a finite decimal. -/
def allDigits (x : Binary64) : Decimal :=
  if 0 ≤ x.exponent then ⟨x.mantissa * Nat.pow 2 x.exponent.toNat, 0⟩
  else ⟨x.mantissa * Nat.pow 5 (-x.exponent).toNat, x.exponent⟩

/-- The shortest decimal that reads back as a number: seventeen digits are always enough. -/
def shortest (x : Binary64) : Decimal :=
  if x.mantissa = 0 then ⟨0, 0⟩
  else ((List.range' 1 17).findSome? x.withDigits?).getD x.allDigits

end Binary64

end SourcePress
