import SourcePress.Text.Alphabet

/-!
# Quoted texts

A text quoted for a message stands between apostrophes, or between quotation marks if it holds an
apostrophe and no quotation mark. The quote in use, the backslash and what cannot be printed are
escaped.
-/

namespace SourcePress

namespace Text

variable [Alphabet]

/-- The escape of a code point by its number, in the shortest of three widths. -/
def hexEscape (c : CodePoint) : Text :=
  if c.value ≤ 0xFF then "\\x" ++ ofHex 2 c.value
  else if c.value ≤ 0xFFFF then "\\u" ++ ofHex 4 c.value
  else "\\U" ++ ofHex 8 c.value

/-- A code point inside a quoted text. -/
def quotedPoint (quote c : CodePoint) : Text :=
  if c = quote ∨ c = '\\' then ['\\', c]
  else if c = '\n' then ['\\', 'n']
  else if c = '\r' then ['\\', 'r']
  else if c = '\t' then ['\\', 't']
  else if c.isPrintable then [c]
  else hexEscape c

/-- The quote that a text is put between. -/
def quoteFor (t : Text) : CodePoint :=
  if .scalar '\'' ∈ t ∧ .scalar '"' ∉ t then '"' else '\''

/-- A text between quotes, with escapes. -/
def quoted (t : Text) : Text :=
  let quote := quoteFor t
  quote :: t.flatMap (quotedPoint quote) ++ [quote]

end Text

end SourcePress
