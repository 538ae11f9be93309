import SourcePress.Number.Binary64
import SourcePress.Text.CodePoint

/-!
# Sizes and what was saved

The share that was saved is a percentage rounded half up, and a size is told in the largest unit
that it fills. Both are worked out in the binary64 format, one rounded operation after the other.
-/

namespace SourcePress.Measure

/-- Why a size cannot be told. -/
inductive SizeFault where
  /-- A quotient is beyond the binary64 format. -/
  | quotientTooLarge
  /-- A percentage is beyond the binary64 format. -/
  | percentageTooLarge
  /-- A size is beyond the binary64 format. -/
  | sizeTooLarge
  deriving DecidableEq, Repr

/-- The wording of a fault. -/
def SizeFault.message : SizeFault → String
  | quotientTooLarge => "integer division result too large for a float"
  | percentageTooLarge => "cannot convert float infinity to integer"
  | sizeTooLarge => "int too large to convert to float"

/-- The percentage that was saved, rounded half up, and nought for nothing at all. -/
def savedPercent (before after : Int) : Except SizeFault Int := do
  if before = 0 then return 0
  let negative := (before < 0) != (after < 0)
  let some quotient := Binary64.ofRatio? negative after.natAbs before.natAbs
    | throw .quotientTooLarge
  let percentage : Option Binary64 := do
    let saved ← (1.0 : Binary64).sub? quotient
    let hundredfold ← saved.mul? 100.0
    hundredfold.add? 0.5
  match percentage with
  | some p => return p.floor
  | none => throw .percentageTooLarge

/-- The units of size, each a thousand and twenty-four of the one before it. -/
def units : List Text := ["B", "KB", "MB", "GB", "TB"]

/-- A number divided by a power of two. -/
def dividedByTwoPow (x : Binary64) (power : Nat) : Binary64 :=
  (Binary64.ofDyadic? x.negative x.mantissa (x.exponent - power)).getD x

/-- A size told in the largest of some units that it fills; in the last one any size is told. -/
def inUnit (x : Binary64) : List Text → Binary64 × Text
  | [] => (x, [])
  | [unit] => (x, unit)
  | unit :: next :: more =>
    if (1024.0 : Binary64).le x then inUnit (dividedByTwoPow x 10) (next :: more) else (x, unit)

/-- A number that is not negative in hundredths, a half rounded to the even one. -/
def hundredths (x : Binary64) : Nat :=
  let (n, d) := Binary64.scaled x.mantissa 1 (-x.exponent)
  roundQuotient (100 * n) d

/-- A number of hundredths as a decimal without needless zeros. -/
def decimalOfHundredths (n : Nat) : Text :=
  let fraction := n % 100
  let whole := Text.ofNat (n / 100)
  if fraction = 0 then whole
  else if fraction % 10 = 0 then whole ++ .scalar '.' :: Text.ofNat (fraction / 10)
  else if fraction < 10 then whole ++ .scalar '.' :: .scalar '0' :: Text.ofNat fraction
  else whole ++ .scalar '.' :: Text.ofNat fraction

/-- A size with its unit. -/
def tellSize (size : Int) : Except SizeFault Text :=
  if size ≤ 0 then .ok "0 B"
  else match Binary64.ofInt? size with
    | none => .error .sizeTooLarge
    | some x =>
      let (value, unit) := inUnit x units
      .ok (decimalOfHundredths (hundredths value) ++ .scalar ' ' :: unit)

/-- What a transform did to the size of a text. -/
structure SizeReport where
  /-- The bytes of the text before it. -/
  bytesBefore : Nat
  /-- The bytes of the text after it. -/
  bytesAfter : Nat
  /-- The percentage that was saved. -/
  savedPercent : Int
  /-- The time that it took. -/
  elapsedMillis : Nat
  /-- The lines of the text before it, if they were counted. -/
  linesBefore : Option Nat
  /-- The lines of the text after it, if they were counted. -/
  linesAfter : Option Nat
  deriving DecidableEq, Repr

/-- The report on a text before and after a transform. -/
def report (before after : Text) (elapsed : Int) (countLines : Bool) :
    Except SizeFault SizeReport :=
  (savedPercent before.byteLength after.byteLength).map fun saved =>
    { bytesBefore := before.byteLength
      bytesAfter := after.byteLength
      savedPercent := saved
      elapsedMillis := elapsed.toNat
      linesBefore := if countLines then some before.lines.length else none
      linesAfter := if countLines then some after.lines.length else none }

end SourcePress.Measure
