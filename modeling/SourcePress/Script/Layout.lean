import SourcePress.Lexis.Scan

/-!
# Code laid out by the depth of its braces

Code is cut into pieces. A live opening brace ends a piece, a live closing brace is a piece of its
own, a live semicolon ends a piece when a code point that is not blank follows directly, and a
live end of line ends a piece and is left out. A piece that is not blank becomes a line, trimmed
and indented by the braces that are open before it; a closing brace closes its level first.
-/

namespace SourcePress.Script

open Lexis

/-- What a mark does to the piece that it is met in. -/
inductive Cut where
  /-- The piece goes on. -/
  | none
  /-- The piece ends with the mark. -/
  | after
  /-- The piece ends before the mark, which is a piece of its own. -/
  | around
  /-- The piece ends and the mark is left out. -/
  | instead
  deriving DecidableEq, Repr

/-- The cut at a mark, with the marks behind it. -/
def cutAt (m : Mark) (rest : List Mark) : Cut :=
  if !m.isLive then .none
  else if m.point = '{' then .after
  else if m.point = '}' then .around
  else if m.point = ';' then
    if rest.head?.any fun next => !next.point.isBlank then .after else .none
  else if m.point.isLineEnd then .instead
  else .none

/-- Puts a mark at the start of the first piece. -/
def consPiece (m : Mark) : List (List Mark) → List (List Mark)
  | [] => [[m]]
  | piece :: pieces => (m :: piece) :: pieces

/-- The pieces of marks; there is always a last one, which may be empty. -/
def pieces : List Mark → List (List Mark)
  | [] => [[]]
  | m :: rest =>
    match cutAt m rest with
    | .none => consPiece m (pieces rest)
    | .after => [m] :: pieces rest
    | .around => [] :: [m] :: pieces rest
    | .instead => [] :: pieces rest

/-- A line of laid out code. -/
structure Line where
  /-- The levels it is indented by. -/
  depth : Nat
  /-- The trimmed text of the line. -/
  text : Text
  deriving DecidableEq, Repr

/-- True of a piece that is a live closing brace. -/
def isClosing (piece : List Mark) : Bool :=
  match piece with
  | [m] => m.isLive && m.point = '}'
  | _ => false

/-- True of a piece that ends with a live opening brace. -/
def opensLevel (piece : List Mark) : Bool :=
  piece.getLast?.any fun m => m.isLive && m.point = .scalar '{'

/-- The lines of pieces behind a depth. -/
def linesFrom (depth : Nat) : List (List Mark) → List Line
  | [] => []
  | piece :: rest =>
    if isClosing piece then ⟨depth - 1, points piece⟩ :: linesFrom (depth - 1) rest
    else
      let text := Text.trim (points piece)
      let behind := linesFrom (if opensLevel piece then depth + 1 else depth) rest
      if text = [] then behind else ⟨depth, text⟩ :: behind

/-- The lines of code. -/
def codeLines (code : Text) : List Line := linesFrom 0 (pieces (scan code))

/-- A line behind its indentation; a negative width gives none. -/
def Line.render (width : Int) (l : Line) : Text :=
  List.replicate (l.depth * width).toNat (.scalar ' ') ++ l.text

/-- Code laid out with a width of indentation. -/
def layOut (width : Int) (code : Text) : Text :=
  Text.join ['\n'] ((codeLines code).map (Line.render width))

end SourcePress.Script
