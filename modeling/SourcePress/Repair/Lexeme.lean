import SourcePress.Lexis.Runs
import SourcePress.Lexis.Scan
import SourcePress.Text.Alphabet

/-!
# Lexemes and their sites

The marks of a text are cut into lexemes: a word of live key characters, a whole string literal or
comment, and any other live code point alone. A rule of repair looks at a lexeme at its site: the
offset, the live code point before it and the lexemes behind it, where blanks are passed over.
Strings and comments count as neighbours that no rule asks for.
-/

namespace SourcePress.Repair

open Lexis

variable [Alphabet]

/-- True of what can stand in a bare key: letters, numbers, the underscore and the dollar sign. -/
def isKeyPoint (c : CodePoint) : Bool := c.isLetter || c.isNumber || c = '_' || c = '$'

/-- True of what a bare value can begin with: a key character that is no number. -/
def isNameStart (c : CodePoint) : Bool := c.isLetter || c = '_' || c = '$'

/-- A lexeme is the run of its marks. -/
abbrev Lexeme := List Mark

/-- True of a live mark of a key character. -/
def isKeyMark (m : Mark) : Bool := m.isLive && isKeyPoint m.point

/-- True where a mark goes on in the lexeme of the mark before it. -/
def sameLexeme (before m : Mark) : Bool :=
  if m.isLive then isKeyMark before && isKeyMark m
  else before.region.alike m.region && !m.opens

/-- The lexemes of marks. -/
def lexemes (marks : List Mark) : List Lexeme := runsOf sameLexeme marks

@[simp] theorem flatten_lexemes (marks : List Mark) : (lexemes marks).flatten = marks :=
  flatten_runsOf _ _

namespace Lexeme

/-- True of a live blank, for a class of blanks. -/
def isBlank (blank : CodePoint → Bool) : Lexeme → Bool
  | [m] => m.isLive && blank m.point
  | _ => false

/-- True of a word of key characters. -/
def isWord (l : Lexeme) : Bool := l.head?.any isKeyMark

/-- True of a string literal between single quotes. -/
def isSingleQuoted (l : Lexeme) : Bool := l.head?.any fun m => m.region = .string .single

/-- The first code point of a live lexeme. -/
def front? (l : Lexeme) : Option CodePoint := l.head?.bind Mark.live?

/-- The last code point of a live lexeme. -/
def back? (l : Lexeme) : Option CodePoint := l.getLast?.bind Mark.live?

end Lexeme

/-- The live code point that lexemes begin with, blanks passed over. -/
def frontOf? (blank : CodePoint → Bool) : List Lexeme → Option CodePoint
  | [] => none
  | l :: rest => if Lexeme.isBlank blank l then frontOf? blank rest else Lexeme.front? l

/-- A lexeme with its surroundings. -/
structure Site where
  /-- The offset of its first mark. -/
  offset : Nat
  /-- The live code point before it, blanks passed over. -/
  before : Option CodePoint
  /-- The lexeme. -/
  lexeme : Lexeme
  /-- The lexemes behind it. -/
  rest : List Lexeme

/-- The text of the lexeme at a site. -/
def Site.text (s : Site) : Text := points s.lexeme

/-- The sites of lexemes, the first of them at an offset behind a code point. -/
def sitesFrom (blank : CodePoint → Bool) (offset : Nat) (before : Option CodePoint) :
    List Lexeme → List Site
  | [] => []
  | l :: rest =>
    ⟨offset, before, l, rest⟩ ::
      sitesFrom blank (offset + l.length)
        (if Lexeme.isBlank blank l then before else Lexeme.back? l) rest

/-- The sites of a text. -/
def sites (blank : CodePoint → Bool) (t : Text) : List Site :=
  sitesFrom blank 0 none (lexemes (scan t))

end SourcePress.Repair
