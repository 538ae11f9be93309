import SourcePress.Text.CodePoint

/-!
# Blank code points

Two classes of whitespace. Spacing code points have the property White_Space. Blank ones are
those and the four information separators U+001C to U+001F; blanks are what is trimmed.
-/

namespace SourcePress

namespace CodePoint

/-- True of the twenty-five code points with the property White_Space. -/
def isSpacing (c : CodePoint) : Bool :=
  let n := c.value
  n == 0x20 || (0x09 ≤ n && n ≤ 0x0D) || n == 0x85 || n == 0xA0 || n == 0x1680
    || (0x2000 ≤ n && n ≤ 0x200A) || n == 0x2028 || n == 0x2029 || n == 0x202F
    || n == 0x205F || n == 0x3000

/-- True of the spacing code points and of the four information separators. -/
def isBlank (c : CodePoint) : Bool :=
  c.isSpacing || (0x1C ≤ c.value && c.value ≤ 0x1F)

/-- Spacing is blank. -/
theorem isBlank_of_isSpacing {c : CodePoint} (h : c.isSpacing) : c.isBlank := by
  simp [isBlank, h]

/-- True of the two code points that end a line. -/
def isLineEnd (c : CodePoint) : Bool := c = '\n' || c = '\r'

/-- What ends a line is spacing. -/
theorem isSpacing_of_isLineEnd {c : CodePoint} (h : c.isLineEnd) : c.isSpacing := by
  simp only [isLineEnd, Bool.or_eq_true, decide_eq_true_eq] at h
  rcases h with rfl | rfl <;> decide

/-- What ends a line is blank. -/
theorem isBlank_of_isLineEnd {c : CodePoint} (h : c.isLineEnd) : c.isBlank :=
  isBlank_of_isSpacing (isSpacing_of_isLineEnd h)

/-- A blank is none of the other code points. -/
theorem ne_of_isBlank {c d : CodePoint} (hc : c.isBlank) (hd : d.isBlank = false) : c ≠ d := by
  rintro rfl
  rw [hd] at hc
  cases hc

end CodePoint

namespace Text

/-- A text without the blanks at its end. -/
def trimEnd (t : Text) : Text := (t.reverse.dropWhile CodePoint.isBlank).reverse

/-- A text without the blanks at its two ends. -/
def trim (t : Text) : Text := trimEnd (t.dropWhile CodePoint.isBlank)

/-- True of a text of blanks alone, the empty one included. -/
def isBlank (t : Text) : Bool := t.all CodePoint.isBlank

end Text

end SourcePress
