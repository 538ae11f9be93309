import SourcePress.Repair.Lexeme

/-!
# Bare values

A word behind a colon, spacing passed over, is a bare value unless it begins with a number or is
one of the three literals of JSON. Bare values cannot be repaired: whether a string was meant is
not known.
-/

namespace SourcePress.Repair

open Lexis

variable [Alphabet]

/-- True of the three words that are JSON values. -/
def isLiteralWord (t : Text) : Bool :=
  t = Text.ofString "true" || t = Text.ofString "false" || t = Text.ofString "null"

/-- True at a word that is a bare value. -/
def isBareValue (s : Site) : Bool :=
  s.before = some (.scalar ':') && (Lexeme.front? s.lexeme).any isNameStart &&
    !isLiteralWord s.text

/-- The bare values of a text in order. -/
def bareValues (t : Text) : List Text :=
  (sites CodePoint.isSpacing t).filterMap fun s => if isBareValue s then some s.text else none

end SourcePress.Repair
