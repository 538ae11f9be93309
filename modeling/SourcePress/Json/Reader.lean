import SourcePress.Json.Numeral
import SourcePress.Platform

/-!
# Reading JSON texts

The reader goes from left to right over the rest of a text and stops at the first fault. The depth
of nesting bounds the descent into containers; the length of the text bounds the items of one
container. An escape stands for one UTF-16 unit, so the two halves of a pair make one code point
when both are escaped and stand side by side.
-/

namespace SourcePress.Json

/-- True of the four characters that may stand between two tokens. -/
def isGap (c : CodePoint) : Bool := c = ' ' || c = '\t' || c = '\n' || c = '\r'

/-- A text without the gap at its start. -/
def skipGap (t : Text) : Text := t.dropWhile isGap

/-- The value of a hexadecimal digit. -/
def hexValue? (c : CodePoint) : Option Nat :=
  if 0x30 ≤ c.value ∧ c.value ≤ 0x39 then some (c.value - 0x30)
  else if 0x41 ≤ c.value ∧ c.value ≤ 0x46 then some (c.value - 0x41 + 10)
  else if 0x61 ≤ c.value ∧ c.value ≤ 0x66 then some (c.value - 0x61 + 10)
  else none

/-- The number of four hexadecimal digits. -/
def hexUnit? (a b c d : CodePoint) : Option Nat := do
  return ((← hexValue? a) * 16 + (← hexValue? b)) * 256 + (← hexValue? c) * 16 + (← hexValue? d)

/-- The character that a one-letter escape stands for. -/
def escaped? (c : CodePoint) : Option CodePoint :=
  match c with
  | .scalar '"' => some '"'
  | .scalar '\\' => some '\\'
  | .scalar '/' => some '/'
  | .scalar 'b' => some '\x08'
  | .scalar 'f' => some '\x0c'
  | .scalar 'n' => some '\n'
  | .scalar 'r' => some '\r'
  | .scalar 't' => some '\t'
  | _ => none

/-- A piece of a string's content. -/
inductive Piece where
  /-- A code point that is settled. -/
  | plain (c : CodePoint)
  /-- An escaped UTF-16 unit that may be half of a pair. -/
  | unit (n : Nat)
  deriving DecidableEq, Repr

/-- The code point that a piece alone stands for. -/
def Piece.point : Piece → CodePoint
  | plain c => c
  | unit n => (CodePoint.ofNat? n).getD default

/-- True of the first halves of pairs. -/
def isHighHalf (n : Nat) : Bool := 0xD800 ≤ n && n < 0xDC00

/-- True of the second halves of pairs. -/
def isLowHalf (n : Nat) : Bool := 0xDC00 ≤ n && n < 0xE000

/-- The code point of a pair. -/
def ofPair (high low : Nat) : CodePoint :=
  .scalar (Char.ofNat (0x10000 + (high - 0xD800) * 0x400 + (low - 0xDC00)))

/-- Puts an escaped unit before pieces: a first half takes the second half that follows it. -/
def attach (n : Nat) (pieces : List Piece) : List Piece :=
  match pieces with
  | .unit low :: rest =>
    if isHighHalf n && isLowHalf low then .plain (ofPair n low) :: rest else .unit n :: pieces
  | _ => .unit n :: pieces

/-- The pieces of a string behind its opening quote, and the rest behind its closing one. -/
def readPieces (opening : Text) : Text → Except Fault (List Piece × Text)
  | [] => .error (.malformed .unterminatedString opening)
  | c :: rest =>
    if c = '"' then .ok ([], rest)
    else if c = '\\' then
      match rest with
      | [] => .error (.malformed .unterminatedString opening)
      | .scalar 'u' :: a :: b :: d :: e :: rest' =>
        match hexUnit? a b d e with
        | some n =>
          if rest'.isEmpty then .error (.malformed .unicodeEscape rest)
          else (readPieces opening rest').map fun read => (attach n read.1, read.2)
        | none => .error (.malformed .unicodeEscape rest)
      | .scalar 'u' :: _ => .error (.malformed .unicodeEscape rest)
      | e :: rest' =>
        match escaped? e with
        | some p => (readPieces opening rest').map fun read => (.plain p :: read.1, read.2)
        | none => .error (.malformed .escape (c :: rest))
    else if c.value ≤ 0x1F then .error (.malformed .controlCharacter (c :: rest))
    else (readPieces opening rest).map fun read => (.plain c :: read.1, read.2)

/-- The content of the string whose opening quote starts a text, and the rest behind it. -/
def readString (opening rest : Text) : Except Fault (Text × Text) :=
  (readPieces opening rest).map fun read => (read.1.map Piece.point, read.2)

/-- The value that is neither a string nor a container at the start of a text. -/
def readAtom (t : Text) : Except Fault (Json × Text) :=
  match (Text.ofString "null").isPrefixOf? t with
  | some rest => .ok (.null, rest)
  | none =>
  match (Text.ofString "true").isPrefixOf? t with
  | some rest => .ok (.bool true, rest)
  | none =>
  match (Text.ofString "false").isPrefixOf? t with
  | some rest => .ok (.bool false, rest)
  | none =>
  if (Text.ofString "NaN").isPrefixOf t then .error (.named .nan)
  else if (Text.ofString "Infinity").isPrefixOf t then .error (.named .infinity)
  else if (Text.ofString "-Infinity").isPrefixOf t then .error (.named .negativeInfinity)
  else match readNumeral? t with
    | none => .error (.malformed .value t)
    | some (numeral, rest) =>
      (numeral.value t rest).map fun value => (value, rest)

/-- The items of an array behind a bracket or a comma, and the rest behind the array. -/
def readItems (value : Text → Except Fault (Json × Text)) :
    Nat → Text → Except Fault (List Json × Text)
  | 0, t => .error (.malformed .value t)
  | bound + 1, t => do
    let (item, t) ← value (skipGap t)
    match skipGap t with
    | .scalar ']' :: rest => return ([item], rest)
    | .scalar ',' :: rest =>
      let (items, rest) ← readItems value bound rest
      return (item :: items, rest)
    | t => .error (.malformed .comma t)

/-- The members of an object behind a brace or a comma, and the rest behind the object. -/
def readMembers (value : Text → Except Fault (Json × Text)) :
    Nat → Text → Except Fault (List (Text × Json) × Text)
  | 0, t => .error (.malformed .propertyName t)
  | bound + 1, t => do
    match skipGap t with
    | opening@(.scalar '"' :: rest) =>
      let (key, t) ← readString opening rest
      match skipGap t with
      | .scalar ':' :: rest =>
        let (item, t) ← value (skipGap rest)
        match skipGap t with
        | .scalar '}' :: rest => return ([(key, item)], rest)
        | .scalar ',' :: rest =>
          let (members, rest) ← readMembers value bound rest
          return ((key, item) :: members, rest)
        | t => .error (.malformed .comma t)
      | t => .error (.malformed .colon t)
    | t => .error (.malformed .propertyName t)

/-- The value at the start of a text and the rest behind it, with a bound on the items of each
container and one on the depth of nesting. -/
def readValue (bound : Nat) : Nat → Text → Except Fault (Json × Text)
  | _, opening@(.scalar '"' :: rest) =>
    (readString opening rest).map fun read => (.str read.1, read.2)
  | 0, .scalar '[' :: _ => .error (.tooDeep .array)
  | 0, .scalar '{' :: _ => .error (.tooDeep .object)
  | depth + 1, .scalar '[' :: rest =>
    match skipGap rest with
    | .scalar ']' :: rest => .ok (.arr [], rest)
    | t => (readItems (readValue bound depth) bound t).map fun read => (.arr read.1, read.2)
  | depth + 1, .scalar '{' :: rest =>
    match skipGap rest with
    | .scalar '}' :: rest => .ok (.obj [], rest)
    | t =>
      (readMembers (readValue bound depth) bound t).map fun read =>
        (.obj (ofPairs read.1), read.2)
  | _, t => readAtom t

/-- The JSON document that a text is. -/
def read [Platform] (t : Text) : Except Fault Json :=
  match t with
  | .scalar '\ufeff' :: _ => .error (.malformed .byteOrderMark t)
  | _ => do
    let (value, rest) ← readValue t.length Platform.maxDepth (skipGap t)
    match skipGap rest with
    | [] => return value
    | rest => .error (.malformed .extraData rest)

end SourcePress.Json
