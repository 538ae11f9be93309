import SourcePress.Number.Shortest
import SourcePress.Text.CodePoint

/-!
# The text of a number

A number is written with its shortest digits. Numbers of an ordinary size are written in place,
and always with a fraction; very large and very small ones get an exponent.
-/

namespace SourcePress

/-- How numbers are written. -/
structure NumberStyle where
  /-- The least power of ten of the first digit that is written in place. -/
  inPlaceFrom : Int
  /-- The greatest power of ten of the first digit that is written in place. -/
  inPlaceTo : Int
  /-- The least count of digits of an exponent. -/
  exponentWidth : Nat
  deriving DecidableEq, Repr

/-- In place from a ten-thousandth up to sixteen digits before the point; an exponent always has a
sign and at least two digits. -/
def NumberStyle.usual : NumberStyle := ⟨-4, 15, 2⟩

namespace Text

/-- The digits of a number without the zeros at its end; zero keeps one. -/
def significantDigits (digits : Nat) : Text :=
  let trimmed := ((Nat.toDigits 10 digits).reverse.dropWhile (· = '0')).reverse
  if trimmed = [] then ['0'] else trimmed.map CodePoint.scalar

/-- A run of zeros. -/
def zeros (count : Nat) : Text := List.replicate count (.scalar '0')

/-- Digits written in place, with the point behind the digit of power zero. -/
def inPlace (digits : Text) (power : Int) : Text :=
  if power < 0 then "0." ++ zeros (-power - 1).toNat ++ digits
  else
    let whole := power.toNat + 1
    let fraction := digits.drop whole
    digits.take whole ++ zeros (whole - digits.length) ++ "." ++
      (if fraction = [] then zeros 1 else fraction)

/-- Digits written with an exponent, with the point behind the first one. -/
def withExponent (style : NumberStyle) (digits : Text) (power : Int) : Text :=
  let fraction := digits.drop 1
  let exponent := ofNat power.natAbs
  digits.take 1 ++ (if fraction = [] then [] else .scalar '.' :: fraction) ++
    [.scalar 'e', if power < 0 then .scalar '-' else .scalar '+'] ++
    zeros (style.exponentWidth - exponent.length) ++ exponent

/-- A number in a style. -/
def ofBinary64 (style : NumberStyle) (x : Binary64) : Text :=
  let decimal := x.shortest
  let digits := significantDigits decimal.digits
  let power : Int :=
    if decimal.digits = 0 then 0
    else decimal.exponent + (Nat.toDigits 10 decimal.digits).length - 1
  let body :=
    if style.inPlaceFrom ≤ power ∧ power ≤ style.inPlaceTo then inPlace digits power
    else withExponent style digits power
  if x.negative then '-' :: body else body

end Text

end SourcePress
