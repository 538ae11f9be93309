import SourcePress.Lexis.Mark

/-!
# The lexical scan

The marks of a text in order, the mode behind its last code point, and what the two say about a
construct that is still open at the end. A scan may start in any mode, so it can be cut at any
place of the text.
-/

namespace SourcePress.Lexis

/-- The marks of a text read from a mode. -/
def scanFrom : Mode → Text → List Mark
  | _, [] => []
  | mode, c :: rest => mode.mark c rest.head? :: scanFrom (mode.after c rest.head?) rest

/-- The mode behind a text read from a mode. -/
def modeAfter : Mode → Text → Mode
  | mode, [] => mode
  | mode, c :: rest => modeAfter (mode.after c rest.head?) rest

/-- The marks of a text. -/
def scan (t : Text) : List Mark := scanFrom .start t

/-- The mode behind a whole text. -/
def finalMode (t : Text) : Mode := modeAfter .start t

/-- False of a text that ends inside a string literal or a block comment. -/
def isTerminated (t : Text) : Bool := (finalMode t).isTerminated

/-- The offset of the last mark that opens a construct. -/
def lastOpening? (marks : List Mark) : Option Nat :=
  (marks.zipIdx.filter fun m => m.1.opens).getLast?.map (·.2)

/-- The offset of the string literal or comment that the end of the text leaves open. -/
def openStart? (t : Text) : Option Nat :=
  if (finalMode t).region.isLive then none else lastOpening? (scan t)

/-- The text that marks were made of. -/
def points (marks : List Mark) : Text := marks.map Mark.point

@[simp] theorem mark_point (mode : Mode) (c : CodePoint) (next : Option CodePoint) :
    (mode.mark c next).point = c := by
  unfold Mode.mark
  split
  · split <;> rfl
  · rfl
  · rfl

/-- A scan loses no code point and adds none. -/
@[simp] theorem points_scanFrom (mode : Mode) (t : Text) : points (scanFrom mode t) = t := by
  induction t generalizing mode with
  | nil => rfl
  | cons c t ih => simp [scanFrom, points] at ih ⊢; exact ih _

/-- There is one mark for each code point. -/
@[simp] theorem length_scanFrom (mode : Mode) (t : Text) : (scanFrom mode t).length = t.length := by
  induction t generalizing mode with
  | nil => rfl
  | cons c t ih => simp [scanFrom, ih]

end SourcePress.Lexis
