import SourcePress.Repair.Edit
import SourcePress.Repair.Lexeme

/-!
# Trailing commas

A live comma is taken out if a closing brace or bracket comes next, spacing passed over. Of several
commas in a row only the last is directly before the bracket.
-/

namespace SourcePress.Repair

open Lexis

variable [Alphabet]

/-- True at a comma that stands before a closing brace or bracket. -/
def isTrailingComma (s : Site) : Bool :=
  Lexeme.front? s.lexeme = some (.scalar ',') &&
    (let next := frontOf? CodePoint.isSpacing s.rest
     next = some (.scalar '}') || next = some (.scalar ']'))

/-- The edits that take trailing commas out. -/
def trailingCommaEdits (t : Text) : List Edit :=
  (sites CodePoint.isSpacing t).filterMap fun s =>
    if isTrailingComma s then some ⟨s.offset, s.offset + s.lexeme.length, []⟩ else none

/-- A text without trailing commas. -/
def removeTrailingCommas (t : Text) : Except Overlap Text := applyEdits t (trailingCommaEdits t)

end SourcePress.Repair
