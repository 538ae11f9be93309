import SourcePress.Json.Fault
import SourcePress.Json.Value

/-!
# Numbers in JSON texts

A number is an integer part without needless zeros, then perhaps a fraction and an exponent. Each
part is the longest that fits. Without fraction and exponent the number is an integer.
-/

namespace SourcePress.Json

/-- True of the ten ASCII digits. -/
def isDigit (c : CodePoint) : Bool := 0x30 ≤ c.value && c.value ≤ 0x39

/-- The number that digits are the decimal of. -/
def ofDigits (digits : Text) : Nat := digits.foldl (fun n c => 10 * n + (c.value - 0x30)) 0

/-- The digits of an integer: a zero alone, or digits that do not begin with one. -/
def wholePart (t : Text) : Text × Text :=
  match t with
  | .scalar '0' :: rest => (['0'], rest)
  | _ => t.span isDigit

/-- The digits of a fraction behind its point, and none if no digit follows the point. -/
def fractionPart (t : Text) : Text × Text :=
  match t with
  | .scalar '.' :: rest => if (rest.takeWhile isDigit).isEmpty then ([], t) else rest.span isDigit
  | _ => ([], t)

/-- The sign of an exponent and what follows it. -/
def exponentSign (t : Text) : Bool × Text :=
  match t with
  | .scalar '-' :: rest => (true, rest)
  | .scalar '+' :: rest => (false, rest)
  | _ => (false, t)

/-- True of the two letters that begin an exponent. -/
def isExponentMark (c : CodePoint) : Bool := c = 'e' || c = 'E'

/-- The exponent with its sign and digits, and none if no digit follows. -/
def exponentPart (t : Text) : Option (Bool × Text) × Text :=
  match t with
  | [] => (none, [])
  | c :: rest =>
    let (negative, behind) := exponentSign rest
    if isExponentMark c && !(behind.takeWhile isDigit).isEmpty then
      (some (negative, behind.takeWhile isDigit), behind.dropWhile isDigit)
    else (none, t)

/-- The parts of a number. -/
structure Numeral where
  /-- True behind a minus sign. -/
  negative : Bool
  /-- The digits before the point. -/
  whole : Text
  /-- The digits behind the point. -/
  fraction : Text
  /-- The sign and the digits of the exponent. -/
  exponent : Option (Bool × Text)
  deriving DecidableEq, Repr

namespace Numeral

/-- True of numbers with neither fraction nor exponent. -/
def isInteger (n : Numeral) : Bool := n.fraction.isEmpty && n.exponent.isNone

/-- The power of ten of the last digit. -/
def power (n : Numeral) : Int :=
  let written : Int := match n.exponent with
    | none => 0
    | some (negative, digits) => if negative then -(ofDigits digits) else ofDigits digits
  written - n.fraction.length

/-- The integer of a number without fraction and exponent. -/
def toInt (n : Numeral) : Int :=
  if n.negative then -(ofDigits n.whole : Int) else ofDigits n.whole

/-- The binary64 number nearest to a number. -/
def toBinary64? (n : Numeral) : Option Binary64 :=
  Binary64.ofDecimal? n.negative (ofDigits (n.whole ++ n.fraction)) n.power

end Numeral

/-- The sign in front of a number and what follows it. -/
def numeralSign (t : Text) : Bool × Text :=
  match t with
  | .scalar '-' :: rest => (true, rest)
  | _ => (false, t)

/-- The number at the start of a text and the rest behind it. -/
def readNumeral? (t : Text) : Option (Numeral × Text) :=
  let (negative, t) := numeralSign t
  let (whole, t) := wholePart t
  if whole.isEmpty then none
  else
    let (fraction, t) := fractionPart t
    let (exponent, t) := exponentPart t
    some (⟨negative, whole, fraction, exponent⟩, t)

/-- The most digits that an integer may have. -/
def maxIntegerDigits : Nat := 4300

/-- The value of a number that begins a text and ends before its rest. -/
def Numeral.value (n : Numeral) (t rest : Text) : Except Fault Json :=
  if n.isInteger then
    if maxIntegerDigits < n.whole.length then .error (.integerTooLong n.whole.length)
    else .ok (.int n.toInt)
  else match n.toBinary64? with
    | some x => .ok (.float x)
    | none => .error (.outOfRange (t.take (t.length - rest.length)))

end SourcePress.Json
