import SourcePress.Lexis.Segment

/-!
# Scans that stop and go on

A cursor reads a text in several pulls. Between two pulls it shows the offset it stopped at and
the region it stands in. It stops at a mark before it leaves it, so behind the second mark of a
two-part marker it still shows the offset of the first, and behind the end of a block comment it
still shows the comment. A scan that has been started shows nothing of its own before its first
pull.
-/

namespace SourcePress.Lexis

/-- What a cursor shows between two pulls. -/
structure Status where
  /-- The offset of the mark it stopped at, or the length of the text behind the last one. -/
  position : Nat
  /-- The region it stands in. -/
  region : Region
  /-- The offset of the last construct that was opened. -/
  opened : Option Nat
  deriving DecidableEq, Repr

namespace Status

/-- The status at the start of a text. -/
def initial : Status := ⟨0, .code, none⟩

/-- The status behind a whole text. -/
def final (t : Text) : Status := ⟨t.length, (finalMode t).region, openStart? t⟩

/-- The offset of the construct that a status lies in. -/
def openStart? (s : Status) : Option Nat := if s.region.isLive then none else s.opened

/-- False of a status inside a string literal or a block comment. -/
def isTerminated (s : Status) : Bool :=
  match s.region with
  | .code | .lineComment => true
  | .string _ | .blockComment => false

end Status

/-- A mark with its offset and the status shown while the scan stops there. -/
structure Stop where
  /-- The offset of the mark. -/
  index : Nat
  /-- The mark. -/
  mark : Mark
  /-- The status shown there. -/
  status : Status
  deriving DecidableEq, Repr

/-- The offset shown at a mark: the second part of a block comment's marker shows the first. -/
def Mode.shownAt (mode : Mode) (index : Nat) : Nat :=
  match mode with
  | .blockOpening | .blockClosing => index - 1
  | _ => index

/-- The region shown at a mark: a block comment is left only after its last mark. -/
def Mode.shownRegion (mode after : Mode) : Region :=
  match mode with
  | .blockClosing => .blockComment
  | _ => after.region

/-- The stops of a text that begins at an offset. -/
def stopsFrom (mode : Mode) (opened : Option Nat) (index : Nat) : Text → List Stop
  | [] => []
  | c :: rest =>
    let mark := mode.mark c rest.head?
    let after := mode.after c rest.head?
    let opened := if mark.opens then some index else opened
    ⟨index, mark, ⟨mode.shownAt index, mode.shownRegion after, opened⟩⟩ ::
      stopsFrom after opened (index + 1) rest

/-- The stops of a whole text. -/
def stops (t : Text) : List Stop := stopsFrom .start none 0 t

/-- How far a scan has come. -/
inductive Walk where
  /-- No scan has been started, or the last one has ended. -/
  | ended
  /-- A scan has been started and not yet pulled. -/
  | started
  /-- A scan has these stops ahead. -/
  | ahead (stops : List Stop)
  deriving DecidableEq, Repr

/-- A scan of a text that is pulled step by step. -/
structure Cursor where
  /-- The text. -/
  text : Text
  /-- What the cursor shows. -/
  status : Status
  /-- The scan that goes on at the next pull. -/
  walk : Walk
  deriving DecidableEq, Repr

namespace Cursor

/-- A cursor at the start of a text. -/
def ofText (t : Text) : Cursor := ⟨t, .initial, .ended⟩

/-- Starts a scan in place of the last one. -/
def restart (c : Cursor) : Cursor := { c with walk := .started }

/-- The stops that are ahead. -/
def ahead (c : Cursor) : List Stop :=
  match c.walk with
  | .ended => []
  | .started => stops c.text
  | .ahead rest => rest

/-- Pulls up to a number of stops. A pull past the last stop ends the scan. -/
def pull (c : Cursor) (count : Nat) : List Stop × Cursor :=
  match c.walk, count with
  | .ended, _ | _, 0 => ([], c)
  | _, _ =>
    let taken := c.ahead.take count
    if taken.length < count then (taken, ⟨c.text, .final c.text, .ended⟩)
    else match taken.getLast? with
      | none => (taken, c)
      | some last => (taken, ⟨c.text, last.status, .ahead (c.ahead.drop count)⟩)

/-- Pulls all stops that are left. -/
def drain (c : Cursor) : List Stop × Cursor := c.pull (c.ahead.length + 1)

/-- Scans the whole text for its segments. -/
def segments (c : Cursor) : List Segment × Cursor :=
  (Lexis.segments c.text, ⟨c.text, .final c.text, .ended⟩)

/-- The code point at a distance from the shown offset, and none behind the end. Offsets before
the start count from the end. -/
def peek (c : Cursor) (distance : Int) : Except OutOfText Text :=
  let offset := c.status.position + distance
  if c.text.length ≤ offset then .ok []
  else if offset < -c.text.length then .error ⟨offset⟩
  else .ok ((c.text[c.text.bound offset]?).toList)

end Cursor

end SourcePress.Lexis
