import SourcePress.Lexis.Scan

/-!
# Masked texts

A mask blanks out strings and comments. It has the length of the text, so an offset found in the
mask is an offset of the text.
-/

namespace SourcePress.Lexis

/-- The code point of a live mark and the fill in place of any other. -/
def Mark.masked (fill : CodePoint) (m : Mark) : CodePoint := if m.isLive then m.point else fill

/-- A text with a fill in place of each code point of a string or a comment. -/
def mask (fill : CodePoint) (t : Text) : Text := (scan t).map (Mark.masked fill)

/-- The usual fill, which no rule looks for. -/
def inertFill : CodePoint := '\x00'

/-- A fill is no single code point. -/
structure FillFault where
  /-- The fill that was given. -/
  fill : Text
  deriving DecidableEq, Repr

/-- The wording of a fault. -/
def FillFault.message : FillFault → String
  | _ => "fill must be a single character"

/-- A text masked with a fill that must be one code point, so that offsets stay what they are. -/
def maskWith (fill t : Text) : Except FillFault Text :=
  match fill with
  | [c] => .ok (mask c t)
  | _ => .error ⟨fill⟩

/-- A mask has the length of its text. -/
@[simp] theorem length_mask (fill : CodePoint) (t : Text) : (mask fill t).length = t.length := by
  simp [mask, scan]

end SourcePress.Lexis
