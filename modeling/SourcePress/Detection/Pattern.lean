import SourcePress.Text.Alphabet

/-!
# Patterns

A pattern is a sequence of parts that is looked for at every place of a text. Each part takes as
much as it can and gives nothing back, so a place has at most one match. A pattern may ask for the
edge of a word at its start.
-/

namespace SourcePress.Detection

/-- A part of a pattern. -/
inductive Part where
  /-- These code points. -/
  | literal (word : Text)
  /-- The first of these words that fits. -/
  | anyOf (words : List Text)
  /-- One code point of a class. -/
  | one (isIn : CodePoint → Bool)
  /-- One or more code points of a class, as many as there are. -/
  | oneOrMore (isIn : CodePoint → Bool)
  /-- Any number of code points of a class, as many as there are. -/
  | many (isIn : CodePoint → Bool)
  /-- All up to the first place of a word, and the word. -/
  | through (word : Text)

/-- What stands behind the first place of a word. -/
def behindFirst? (word : Text) : Text → Option Text
  | [] => word.isPrefixOf? []
  | c :: rest =>
    match word.isPrefixOf? (c :: rest) with
    | some behind => some behind
    | none => behindFirst? word rest

/-- What stands behind a part at the start of a text. -/
def Part.behind? (t : Text) : Part → Option Text
  | literal word => word.isPrefixOf? t
  | anyOf words => words.findSome? fun word => word.isPrefixOf? t
  | one isIn =>
    match t with
    | [] => none
    | c :: rest => if isIn c then some rest else none
  | oneOrMore isIn =>
    match t with
    | [] => none
    | c :: rest => if isIn c then some (rest.dropWhile isIn) else none
  | many isIn => some (t.dropWhile isIn)
  | through word => behindFirst? word t

/-- A pattern. -/
structure Pattern where
  /-- True if a word must begin or end where the pattern begins. -/
  atEdge : Bool := false
  /-- The parts in their order. -/
  parts : List Part

variable [Alphabet]

/-- True between a code point of a word and one that is of none. -/
def isEdge (before next : Option CodePoint) : Bool :=
  before.any CodePoint.isWord != next.any CodePoint.isWord

namespace Pattern

/-- True if a pattern matches at the start of a text, behind a code point. -/
def matchesAt (p : Pattern) (before : Option CodePoint) (t : Text) : Bool :=
  (!p.atEdge || isEdge before t.head?) && (p.parts.foldlM Part.behind? t).isSome

/-- True if a pattern matches at some place of a text behind a code point. -/
def foundFrom (p : Pattern) (before : Option CodePoint) : Text → Bool
  | [] => p.matchesAt before []
  | c :: rest => p.matchesAt before (c :: rest) || p.foundFrom (some c) rest

/-- True if a pattern matches at some place of a text. -/
def isIn (p : Pattern) (t : Text) : Bool := p.foundFrom none t

end Pattern

end SourcePress.Detection
