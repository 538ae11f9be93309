/-!
# Finite numbers of the binary64 format

A number is a sign, a mantissa of at most 53 bits and a power of two. Every operation takes its
exact result and rounds it once, to the nearest number and between two equally near ones to the
one with the even mantissa. A result beyond the largest number is no number.
-/

namespace SourcePress

/-- The mantissas and exponents of the format: the exponent is the least one under which the
mantissa fits. -/
def IsCanonical (mantissa : Nat) (exponent : Int) : Prop :=
  mantissa < Nat.pow 2 53 ∧ -1074 ≤ exponent ∧ exponent ≤ 971 ∧
    (Nat.pow 2 52 ≤ mantissa ∨ exponent = -1074)

instance (mantissa : Nat) (exponent : Int) : Decidable (IsCanonical mantissa exponent) := by
  unfold IsCanonical
  infer_instance

/-- The quotient of two numbers rounded to the nearest integer, a half to the even one. -/
def roundQuotient (numerator denominator : Nat) : Nat :=
  let quotient := numerator / denominator
  let twice := 2 * (numerator % denominator)
  if denominator < twice ∨ (twice = denominator ∧ quotient % 2 = 1) then quotient + 1
  else quotient

/-- A finite number of the binary64 format. -/
structure Binary64 where
  /-- True below zero, and of the negative zero. -/
  negative : Bool
  /-- The mantissa. -/
  mantissa : Nat
  /-- The power of two that the mantissa is taken times. -/
  exponent : Int
  /-- Each number has one mantissa and one exponent. -/
  canonical : IsCanonical mantissa exponent
  deriving DecidableEq

namespace Binary64

/-- A zero of either sign. -/
def zero (negative : Bool) : Binary64 := ⟨negative, 0, -1074, by decide⟩

instance : Inhabited Binary64 := ⟨zero false⟩

/-- The number with a mantissa and an exponent, if they are of the format. -/
def ofParts? (negative : Bool) (mantissa : Nat) (exponent : Int) : Option Binary64 :=
  if h : IsCanonical mantissa exponent then some ⟨negative, mantissa, exponent, h⟩ else none

/-- A ratio divided by a power of two, as a numerator and a denominator. -/
def scaled (numerator denominator : Nat) (exponent : Int) : Nat × Nat :=
  (numerator * Nat.pow 2 (-exponent).toNat, denominator * Nat.pow 2 exponent.toNat)

/-- The exponent under which a positive ratio has a mantissa of 53 bits, and the least exponent of
the format for ratios that would need a smaller one. -/
def exponentOf (numerator denominator : Nat) : Int :=
  let low : Int := (numerator.log2 : Int) - denominator.log2 - 53
  let (n, d) := scaled numerator denominator low
  max (-1074) (if n / d < Nat.pow 2 53 then low else low + 1)

/-- The number nearest to a positive ratio in lowest terms. -/
def ofReduced? (negative : Bool) (numerator denominator : Nat) : Option Binary64 :=
  let exponent := exponentOf numerator denominator
  let (n, d) := scaled numerator denominator exponent
  let mantissa := roundQuotient n d
  if mantissa = Nat.pow 2 53 then ofParts? negative (Nat.pow 2 52) (exponent + 1)
  else ofParts? negative mantissa exponent

/-- The number nearest to a ratio with a sign. Equal ratios give equal numbers, as a ratio is put
in lowest terms first. -/
def ofRatio? (negative : Bool) (numerator denominator : Nat) : Option Binary64 :=
  if numerator = 0 then some (zero negative)
  else
    let common := numerator.gcd denominator
    ofReduced? negative (numerator / common) (denominator / common)

/-- The number nearest to a mantissa of any size times a power of two. -/
def ofDyadic? (negative : Bool) (mantissa : Nat) (exponent : Int) : Option Binary64 :=
  let (n, d) := scaled mantissa 1 (-exponent)
  ofRatio? negative n d

/-- The number nearest to an integer. -/
def ofInt? (n : Int) : Option Binary64 := ofRatio? (n < 0) n.natAbs 1

/-- The number nearest to a decimal: digits times a power of ten. Far outside the format the power
is not computed: the result is no number above, and a zero below. -/
def ofDecimal? (negative : Bool) (digits : Nat) (exponent : Int) : Option Binary64 :=
  let magnitude : Int := exponent + (Nat.toDigits 10 digits).length
  if digits = 0 ∨ magnitude < -330 then some (zero negative)
  else if 310 < magnitude then none
  else ofRatio? negative (digits * Nat.pow 10 exponent.toNat) (Nat.pow 10 (-exponent).toNat)

/-- The largest number of a sign. -/
def largest (negative : Bool) : Binary64 := ⟨negative, Nat.pow 2 53 - 1, 971, by decide⟩

/-- The mantissa with its sign, taken at an exponent that is not above the number's own. -/
def signedAt (x : Binary64) (exponent : Int) : Int :=
  let shifted : Nat := x.mantissa * Nat.pow 2 (x.exponent - exponent).toNat
  if x.negative then -shifted else shifted

/-- The opposite number. -/
def neg (x : Binary64) : Binary64 := { x with negative := !x.negative }

/-- The sum of two numbers. A sum of zero is positive unless both numbers are negative. -/
def add? (x y : Binary64) : Option Binary64 :=
  let exponent := min x.exponent y.exponent
  let sum := x.signedAt exponent + y.signedAt exponent
  if sum = 0 then some (zero (x.negative && y.negative))
  else ofDyadic? (sum < 0) sum.natAbs exponent

/-- The difference of two numbers. -/
def sub? (x y : Binary64) : Option Binary64 := x.add? y.neg

/-- The product of two numbers. -/
def mul? (x y : Binary64) : Option Binary64 :=
  ofDyadic? (x.negative != y.negative) (x.mantissa * y.mantissa) (x.exponent + y.exponent)

/-- True of two numbers in strictly increasing order; the two zeros are equal. -/
def lt (x y : Binary64) : Bool :=
  let exponent := min x.exponent y.exponent
  x.signedAt exponent < y.signedAt exponent

/-- True unless the numbers are in strictly decreasing order. -/
def le (x y : Binary64) : Bool := !y.lt x

/-- The greatest integer that is not above a number. -/
def floor (x : Binary64) : Int :=
  let (n, d) := scaled x.mantissa 1 (-x.exponent)
  if x.negative then (-(n : Int)) / d else (n : Int) / d

/-- The integer part of a number. -/
def truncate (x : Binary64) : Int :=
  let (n, d) := scaled x.mantissa 1 (-x.exponent)
  if x.negative then -((n / d : Nat) : Int) else ((n / d : Nat) : Int)

/-- Decimal literals; one beyond the format would stand for the largest number. -/
instance : OfScientific Binary64 where
  ofScientific digits negativeExponent exponent :=
    (ofDecimal? false digits (if negativeExponent then -(exponent : Int) else exponent)).getD
      (largest false)

/-- Sums that stay far inside the format; one beyond it would stand for the largest number. -/
instance : Add Binary64 := ⟨fun x y => (x.add? y).getD (largest x.negative)⟩

/-- Differences that stay far inside the format. -/
instance : Sub Binary64 := ⟨fun x y => (x.sub? y).getD (largest x.negative)⟩

/-- Products that stay far inside the format. -/
instance : Mul Binary64 := ⟨fun x y => (x.mul? y).getD (largest (x.negative != y.negative))⟩

/-- Natural numbers that are far inside the format. -/
instance : NatCast Binary64 := ⟨fun n => (ofInt? n).getD (largest false)⟩

end Binary64

end SourcePress
