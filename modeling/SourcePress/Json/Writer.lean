import SourcePress.Json.Value
import SourcePress.Number.Notation

/-!
# Writing JSON values

A value is written in one of three layouts: without any gap, on one line with gaps behind commas
and colons, or with each item on a line of its own. Only what JSON does not allow inside a string
is escaped.
-/

namespace SourcePress.Json

/-- The gaps between the tokens of a value. -/
inductive Layout where
  /-- No gap at all. -/
  | compact
  /-- One line, with a space behind each comma and colon. -/
  | spaced
  /-- Each item on its own line, this much deeper than its container. -/
  | indented (width : Nat)
  deriving DecidableEq, Repr

namespace Layout

/-- A line feed and the indentation of a level. -/
def newLine (width level : Nat) : Text := '\n' :: List.replicate (width * level) (.scalar ' ')

/-- What stands between a bracket and the items next to it, which have this level. -/
def edge (layout : Layout) (level : Nat) : Text :=
  match layout with
  | compact | spaced => []
  | indented width => newLine width level

/-- What stands behind a comma between items of a level. -/
def behindComma (layout : Layout) (level : Nat) : Text :=
  match layout with
  | compact => []
  | spaced => [' ']
  | indented width => newLine width level

/-- What stands behind a colon. -/
def behindColon (layout : Layout) : Text :=
  match layout with
  | compact => []
  | spaced | indented _ => [' ']

end Layout

/-- A code point inside a string. -/
def writePoint (c : CodePoint) : Text :=
  match c with
  | .scalar '"' => ['\\', '"']
  | .scalar '\\' => ['\\', '\\']
  | .scalar '\n' => ['\\', 'n']
  | .scalar '\r' => ['\\', 'r']
  | .scalar '\t' => ['\\', 't']
  | .scalar '\x0c' => ['\\', 'f']
  | .scalar '\x08' => ['\\', 'b']
  | _ => if c.value < 0x20 then '\\' :: 'u' :: Text.ofHex 4 c.value else [c]

/-- A string between quotation marks. -/
def writeString (t : Text) : Text := '"' :: (t.flatMap writePoint ++ [.scalar '"'])

/-- A key with the colon behind it. -/
def writeKey (layout : Layout) (key : Text) : Text :=
  writeString key ++ .scalar ':' :: layout.behindColon

mutual

/-- A value at a level of nesting. -/
def writeAt (layout : Layout) (level : Nat) : Json → Text
  | null => "null"
  | bool true => "true"
  | bool false => "false"
  | int n => Text.ofInt n
  | float x => Text.ofBinary64 .usual x
  | str t => writeString t
  | arr [] => "[]"
  | arr (item :: items) =>
    '[' :: (layout.edge (level + 1) ++ writeAt layout (level + 1) item ++
      writeItems layout (level + 1) items ++ layout.edge level ++ [CodePoint.scalar ']'])
  | obj [] => "\x7b\x7d"
  | obj ((key, item) :: members) =>
    '{' :: (layout.edge (level + 1) ++ writeKey layout key ++
      writeAt layout (level + 1) item ++
      writeMembers layout (level + 1) members ++ layout.edge level ++ [CodePoint.scalar '}'])

/-- The further items of an array. -/
def writeItems (layout : Layout) (level : Nat) : List Json → Text
  | [] => []
  | item :: items =>
    ',' :: (layout.behindComma level ++ writeAt layout level item ++ writeItems layout level items)

/-- The further members of an object. -/
def writeMembers (layout : Layout) (level : Nat) : List (Text × Json) → Text
  | [] => []
  | (key, item) :: members =>
    ',' :: (layout.behindComma level ++ writeKey layout key ++
      writeAt layout level item ++ writeMembers layout level members)

end

/-- A value in a layout. -/
def write (layout : Layout) (value : Json) : Text := writeAt layout 0 value

end SourcePress.Json
