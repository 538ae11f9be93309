import SourcePress.Text.CodePoint

/-!
# Edits of a text

An edit puts a replacement in place of the part of a text between two offsets. Edits are applied
together, in the order of their starts, and each must start where the one before it has stopped or
later. Outside the edits the text stays as it is.
-/

namespace SourcePress.Repair

/-- A replacement for a part of a text. -/
structure Edit where
  /-- The offset at which the part starts. -/
  start : Int
  /-- The offset behind the part. -/
  stop : Int
  /-- What stands in its place. -/
  replacement : Text
  deriving DecidableEq, Repr

/-- An edit starts before the one in front of it stops. -/
structure Overlap where
  /-- The start of the later edit. -/
  offset : Int
  deriving DecidableEq, Repr

/-- The wording of an overlap. -/
def Overlap.message (o : Overlap) : Text :=
  Text.ofString "overlapping edit at offset " ++ Text.ofInt o.offset

/-- Edits in the order of their starts; edits with one start keep their order. -/
def inOrder (edits : List Edit) : List Edit := edits.mergeSort fun a b => a.start ≤ b.start

/-- The text from an offset on, with edits in order applied. -/
def spliceFrom (t : Text) (offset : Int) : List Edit → Except Overlap Text
  | [] => .ok (t.slice offset t.length)
  | e :: edits =>
    if e.start < offset then .error ⟨e.start⟩
    else (spliceFrom t e.stop edits).map fun rest =>
      t.slice offset e.start ++ e.replacement ++ rest

/-- A text with edits applied. -/
def applyEdits (t : Text) (edits : List Edit) : Except Overlap Text :=
  spliceFrom t 0 (inOrder edits)

end SourcePress.Repair
