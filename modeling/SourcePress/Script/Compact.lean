import SourcePress.Lexis.Scan

/-!
# Compact code

Compact code keeps the live code points that are not blank and all of the strings. Between two
kept code points that were apart a space stays where they would otherwise run together: next to
punctuation it is left out, save between two equal signs of addition or subtraction.
-/

namespace SourcePress.Script

open Lexis

/-- The characters next to which no space is needed. -/
def punctuation : Text :=
  ['{', '}', '(', ')', ';', ',', '=', '+', '-', '*', '/', '&', '|', '!', '<', '>', '?', ':']

/-- True of a punctuation character. -/
def isPunctuation (c : CodePoint) : Bool := punctuation.contains c

/-- True of a mark that compact code leaves out: a comment or a live blank. -/
def isDropped (m : Mark) : Bool := m.isComment || (m.isLive && m.point.isBlank)

/-- True if a space stays between a kept code point and a kept mark that was apart from it. -/
def needsSpace (previous : CodePoint) (m : Mark) : Bool :=
  if m.isLive && (m.point = '+' || m.point = '-') && previous = m.point then true
  else if isPunctuation previous then false
  else !(m.isLive && isPunctuation m.point)

/-- The space that stays before a kept mark. -/
def gapBefore (previous : Option CodePoint) (gap : Bool) (m : Mark) : Text :=
  match previous with
  | some p => if gap && needsSpace p m then [' '] else []
  | none => []

/-- The compact code of marks, behind the code point that was kept last; `gap` is true if marks
were left out since. -/
def compactFrom (previous : Option CodePoint) (gap : Bool) : List Mark → Text
  | [] => []
  | m :: rest =>
    if isDropped m then compactFrom previous true rest
    else gapBefore previous gap m ++ m.point :: compactFrom (some m.point) false rest

/-- The compact form of code. -/
def compact (code : Text) : Text := compactFrom none false (scan code)

/-- True of a live mark that ends a line. -/
def isLiveLineEnd (m : Mark) : Bool := m.isLive && m.point.isLineEnd

/-- The compact form of code without the live ends of lines. -/
def minify (code : Text) : Text :=
  points ((scan (compact code)).filter fun m => !isLiveLineEnd m)

end SourcePress.Script
