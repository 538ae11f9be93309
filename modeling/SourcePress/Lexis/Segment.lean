import SourcePress.Lexis.Runs
import SourcePress.Lexis.Scan

/-!
# Segments of a text

A segment is a longest run of marks of one region that only its first mark opens. The segments of
a text follow each other without gaps.
-/

namespace SourcePress.Lexis

/-- A run of a text that lies in one region. -/
structure Segment where
  /-- The region of the run. -/
  region : Region
  /-- The code points of the run. -/
  text : Text
  /-- The offset of the first of them. -/
  start : Nat
  deriving DecidableEq, Repr

/-- The offset behind the last code point of a segment. -/
def Segment.stop (s : Segment) : Nat := s.start + s.text.length

/-- True where a mark goes on in the segment of the mark before it. -/
def continues (before m : Mark) : Bool := before.region.alike m.region && !m.opens

/-- The segments of runs of marks, the first of them at an offset. -/
def segmentsAt : Nat → List (List Mark) → List Segment
  | _, [] => []
  | start, [] :: runs => segmentsAt start runs
  | start, (m :: run) :: runs =>
    ⟨m.region, points (m :: run), start⟩ :: segmentsAt (start + (m :: run).length) runs

/-- The segments of a text in order. -/
def segments (t : Text) : List Segment := segmentsAt 0 (runsOf continues (scan t))

/-- The texts of segments are those of their runs. -/
theorem flatMap_text_segmentsAt (start : Nat) (runs : List (List Mark)) :
    (segmentsAt start runs).flatMap Segment.text = points runs.flatten := by
  induction runs generalizing start with
  | nil => rfl
  | cons run runs ih =>
    cases run with
    | nil => simpa [segmentsAt] using ih start
    | cons m run => simp [segmentsAt, ih, points]

/-- The segments of a text put together are the text. -/
theorem flatMap_text_segments (t : Text) : (segments t).flatMap Segment.text = t := by
  rw [segments, flatMap_text_segmentsAt, flatten_runsOf, scan, points_scanFrom]

end SourcePress.Lexis
