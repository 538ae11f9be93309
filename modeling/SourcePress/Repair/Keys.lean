import SourcePress.Repair.Edit
import SourcePress.Repair.Lexeme

/-!
# Bare keys

A word is a bare key if it stands between an opening brace or a comma and a colon, spacing passed
over. Bare keys are put between quotation marks. Digits may begin a key and may be all of it.
-/

namespace SourcePress.Repair

open Lexis

variable [Alphabet]

/-- True at a word that is a bare key. -/
def isBareKey (s : Site) : Bool :=
  Lexeme.isWord s.lexeme && (s.before = some (.scalar '{') || s.before = some (.scalar ',')) &&
    frontOf? CodePoint.isSpacing s.rest = some (.scalar ':')

/-- A text between quotation marks. -/
def doubleQuoted (t : Text) : Text := '"' :: (t ++ [CodePoint.scalar '"'])

/-- The edits that quote bare keys. -/
def bareKeyEdits (t : Text) : List Edit :=
  (sites CodePoint.isSpacing t).filterMap fun s =>
    if isBareKey s then some ⟨s.offset, s.offset + s.lexeme.length, doubleQuoted s.text⟩ else none

/-- A text with its bare keys quoted. -/
def quoteKeys (t : Text) : Except Overlap Text := applyEdits t (bareKeyEdits t)

end SourcePress.Repair
