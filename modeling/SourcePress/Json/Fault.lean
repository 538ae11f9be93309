import SourcePress.Result
import SourcePress.Text.Place
import SourcePress.Text.Quoted

/-!
# Faults in JSON texts

Reading stops at the first fault. A malformed text is complained of at a place, which is kept as
the rest of the text from there on. A constant that JSON does not have and a number beyond the
format are refused without a place. Two limits guard the reader: the digits of an integer and the
depth of nesting.
-/

namespace SourcePress.Json

/-- What is wrong at a place of a malformed text. -/
inductive Complaint where
  /-- The text begins with a byte order mark. -/
  | byteOrderMark
  /-- A value should stand here. -/
  | value
  /-- A comma should stand here, or the end of the container. -/
  | comma
  /-- A colon should stand here. -/
  | colon
  /-- A quoted key should stand here. -/
  | propertyName
  /-- The string that begins here does not end. -/
  | unterminatedString
  /-- A control character stands in a string. -/
  | controlCharacter
  /-- A backslash stands before a character that needs none. -/
  | escape
  /-- Four hexadecimal digits should follow. -/
  | unicodeEscape
  /-- Something follows the value. -/
  | extraData
  deriving DecidableEq, Repr

/-- The wording of a complaint. -/
def Complaint.message : Complaint → String
  | byteOrderMark => "Unexpected UTF-8 BOM (decode using utf-8-sig)"
  | value => "Expecting value"
  | comma => "Expecting ',' delimiter"
  | colon => "Expecting ':' delimiter"
  | propertyName => "Expecting property name enclosed in double quotes"
  | unterminatedString => "Unterminated string starting at"
  | controlCharacter => "Invalid control character at"
  | escape => "Invalid \\escape"
  | unicodeEscape => "Invalid \\uXXXX escape"
  | extraData => "Extra data"

/-- Numbers that have a name in place of digits. -/
inductive NamedNumber where
  /-- Not a number. -/
  | nan
  /-- Infinity. -/
  | infinity
  /-- Minus infinity. -/
  | negativeInfinity
  deriving DecidableEq, Repr

/-- The name of such a number. -/
def NamedNumber.name : NamedNumber → String
  | nan => "NaN"
  | infinity => "Infinity"
  | negativeInfinity => "-Infinity"

/-- The two kinds of value that hold other values. -/
inductive Container where
  /-- An array. -/
  | array
  /-- An object. -/
  | object
  deriving DecidableEq, Repr

/-- The name of a kind of container. -/
def Container.name : Container → String
  | array => "array"
  | object => "object"

/-- Why a text is no JSON document. -/
inductive Fault where
  /-- The text is malformed at the start of this rest of it. -/
  | malformed (complaint : Complaint) (rest : Text)
  /-- A named number stands where a value should. -/
  | named (number : NamedNumber)
  /-- The number with these characters is beyond the binary64 format. -/
  | outOfRange (literal : Text)
  /-- An integer has this many digits. -/
  | integerTooLong (digits : Nat)
  /-- A container of this kind is nested too deeply. -/
  | tooDeep (container : Container)
  deriving DecidableEq, Repr

namespace Fault

/-- The offset of a fault in the text, where it has one. -/
def position? (whole : Text) : Fault → Option Nat
  | malformed _ rest => some (whole.length - rest.length)
  | _ => none

/-- True of the faults of the text, false of the two limits. -/
def isRefusal : Fault → Bool
  | malformed .. | named _ | outOfRange _ => true
  | integerTooLong _ | tooDeep _ => false

/-- The wording of a fault of a text. -/
def message [Alphabet] (whole : Text) : Fault → Text
  | malformed complaint rest =>
    let position : Int := whole.length - rest.length
    complaint.message ++ Text.ofString ": line " ++ Text.ofNat (whole.lineNumber position) ++
      " column " ++ Text.ofInt (whole.columnNumber position) ++ " (char " ++
      Text.ofInt position ++ ")"
  | named number =>
    Text.ofString "Unexpected token " ++ Text.quoted number.name ++ ": not valid JSON"
  | outOfRange literal =>
    Text.ofString "Number " ++ Text.quoted literal ++ " is out of range for a JSON number"
  | integerTooLong digits =>
    Text.ofString "Exceeds the limit (4300 digits) for integer string conversion: value has " ++
      Text.ofNat digits ++ " digits; use sys.set_int_max_str_digits() to increase the limit"
  | tooDeep container =>
    Text.ofString "maximum recursion depth exceeded while decoding a JSON " ++ container.name ++
      " from a unicode string"

end Fault

end SourcePress.Json
