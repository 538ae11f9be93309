import SourcePress.Text.CodePoint

/-!
# Places in a text

The line and the column of an offset, both counted from one, and the stretch of text around it.
A negative offset counts from the end, as it does in a slice.
-/

namespace SourcePress

/-- Where an offset lies in a text. -/
structure Place where
  /-- The offset itself. -/
  position : Int
  /-- One more than the line feeds before the offset. -/
  line : Nat
  /-- The distance from the start of that line, counted from one. -/
  column : Int
  /-- The text around the offset. -/
  context : Text
  deriving DecidableEq

namespace Text

/-- The offset at which the line of a position begins. -/
def lineStart (t : Text) (position : Int) : Nat :=
  let before := t.slice 0 position
  before.length - (before.reverse.takeWhile (· ≠ .scalar '\n')).length

/-- The number of the line of a position, counted from one. -/
def lineNumber (t : Text) (position : Int) : Nat :=
  (t.slice 0 position).count (.scalar '\n') + 1

/-- The column of a position in its line, counted from one. -/
def columnNumber (t : Text) (position : Int) : Int := position - t.lineStart position + 1

/-- The place of a position, with up to half of `width` code points of context on each side. -/
def placeWithin (t : Text) (position width : Int) : Place :=
  { position
    line := t.lineNumber position
    column := t.columnNumber position
    context := t.slice (max 0 (position - width / 2)) (min t.length (position + width / 2)) }

/-- The place of a position with the usual context, twenty-five code points on each side. -/
def place (t : Text) (position : Int) : Place := t.placeWithin position 50

end Text

end SourcePress
