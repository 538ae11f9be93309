import SourcePress.Lexis.Scan

/-!
# Texts without comments

Comments are taken out. A block comment leaves a space behind, so that the tokens on its two sides
stay apart; a line comment is followed by the end of its line. At the end the text is trimmed.
-/

namespace SourcePress.Repair

open Lexis

/-- What is left of a mark: a space for the mark that opens a block comment, nothing for the rest
of a comment, and the code point of any other mark. -/
def withoutComment (m : Mark) : Option CodePoint :=
  if !m.isComment then some m.point
  else if m.region = .blockComment ∧ m.opens then some ' '
  else none

/-- A text without its comments. -/
def stripComments (t : Text) : Text := Text.trim ((scan t).filterMap withoutComment)

end SourcePress.Repair
