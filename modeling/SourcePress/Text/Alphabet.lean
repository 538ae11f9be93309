import SourcePress.Text.Blank

/-!
# Alphabets

Editions of the Unicode standard add letters, numbers and signs. Which code points are letters,
numbers or parts of words is therefore given by an alphabet. Of ASCII, of the blanks and of the byte
order mark all alphabets say the same.
-/

namespace SourcePress

namespace CodePoint

/-- True of the letters of ASCII. -/
def isAsciiLetter (c : CodePoint) : Bool :=
  (0x41 ≤ c.value && c.value ≤ 0x5A) || (0x61 ≤ c.value && c.value ≤ 0x7A)

/-- True of the ten digits of ASCII. -/
def isAsciiDigit (c : CodePoint) : Bool := 0x30 ≤ c.value && c.value ≤ 0x39

/-- True of the blanks and of the byte order mark. -/
def isUnseen (c : CodePoint) : Bool := c.isBlank || c = '\ufeff'

end CodePoint

/-- The classes of code points in which editions of the standard differ, and what they agree on. -/
class Alphabet where
  /-- True of a letter: the categories Lu, Ll, Lt, Lm and Lo. -/
  isLetter : CodePoint → Bool
  /-- True of a number of any kind: the categories Nd, Nl and No. -/
  isNumber : CodePoint → Bool
  /-- True of a decimal digit of any script: the category Nd. -/
  isDecimalDigit : CodePoint → Bool
  /-- True of what can stand in a word: letters, marks, decimal digits and connectors. -/
  isWord : CodePoint → Bool
  /-- The value of a decimal digit in a numeral. -/
  digitValue? : CodePoint → Option Nat
  /-- True of what is written as it is in a quoted text: not a control, format, private, unassigned
  or separator code point, and not a surrogate. -/
  isPrintable : CodePoint → Bool
  /-- Of ASCII the letters are the Latin ones. -/
  isLetter_of_ascii : ∀ {c : CodePoint}, c.value < 0x80 → isLetter c = c.isAsciiLetter
  /-- Of ASCII the numbers are the ten digits. -/
  isNumber_of_ascii : ∀ {c : CodePoint}, c.value < 0x80 → isNumber c = c.isAsciiDigit
  /-- What is not seen is no letter. -/
  isLetter_of_isUnseen : ∀ {c : CodePoint}, c.isUnseen → isLetter c = false
  /-- What is not seen is no number. -/
  isNumber_of_isUnseen : ∀ {c : CodePoint}, c.isUnseen → isNumber c = false

namespace CodePoint

variable [Alphabet]

/-- True of a letter. -/
def isLetter (c : CodePoint) : Bool := Alphabet.isLetter c

/-- True of a number of any kind: digit, letter number, fraction and the like. -/
def isNumber (c : CodePoint) : Bool := Alphabet.isNumber c

/-- True of a decimal digit of any script. -/
def isDecimalDigit (c : CodePoint) : Bool := Alphabet.isDecimalDigit c

/-- True of what can stand in a word. -/
def isWord (c : CodePoint) : Bool := Alphabet.isWord c

/-- The value of a decimal digit. -/
def digitValue? (c : CodePoint) : Option Nat := Alphabet.digitValue? c

/-- True of what is written as it is in a quoted text. -/
def isPrintable (c : CodePoint) : Bool := Alphabet.isPrintable c

end CodePoint

end SourcePress
