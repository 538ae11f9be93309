import SourcePress.Json.Reader
import SourcePress.Proofs.Lexis.Construct
import SourcePress.Repair.Lexeme
import SourcePress.Repair.Settings

/-!
# The grammar of lenient JSON

A document is a sequence of tokens with gaps between them. The settings of the repair say how
lenient the grammar is: comments in gaps, a comma before a closing bracket, bare keys, and strings
between single quotes where they are keys or stand inside a container. Without any of these a
document is strict JSON. The grammar is stated apart from the reader and from the repair.
-/

namespace SourcePress.Json

open Lexis

/-- The contents that can stand between two quotes, and the pieces that they are made of. -/
inductive Spells (q : Quote) : Text → List Piece → Prop
  /-- An empty content. -/
  | nil : Spells q [] []
  /-- A character that is no control character, no backslash and not the quote. -/
  | plain {c : CodePoint} {t : Text} {ps : List Piece} (hcontrol : 0x1F < c.value)
      (hquote : c ≠ q.point) (hescape : c ≠ .scalar '\\') (h : Spells q t ps) :
      Spells q (c :: t) (.plain c :: ps)
  /-- A one-letter escape. -/
  | escape {e c : CodePoint} {t : Text} {ps : List Piece} (he : escaped? e = some c)
      (h : Spells q t ps) : Spells q (.scalar '\\' :: e :: t) (.plain c :: ps)
  /-- An escaped apostrophe between single quotes. -/
  | apostrophe {t : Text} {ps : List Piece} (hq : q = .single) (h : Spells q t ps) :
      Spells q (.scalar '\\' :: .scalar '\'' :: t) (.plain (.scalar '\'') :: ps)
  /-- A UTF-16 unit in four hexadecimal digits. -/
  | unit {a b c d : CodePoint} {n : Nat} {t : Text} {ps : List Piece}
      (hn : hexUnit? a b c d = some n) (h : Spells q t ps) :
      Spells q (.scalar '\\' :: .scalar 'u' :: a :: b :: c :: d :: t) (.unit n :: ps)

/-- The text that pieces stand for: an escaped first half takes the second half behind it. -/
def joined : List Piece → Text
  | [] => []
  | .unit high :: .unit low :: rest =>
    if isHighHalf high && isLowHalf low then ofPair high low :: joined rest
    else (Piece.unit high).point :: joined (.unit low :: rest)
  | piece :: rest => piece.point :: joined rest

/-- True of one or more digits. -/
def AreDigits (t : Text) : Prop := t ≠ [] ∧ ∀ c ∈ t, isDigit c

/-- True of an integer part: a zero alone, or digits that do not begin with one. -/
def IsWhole (t : Text) : Prop :=
  t = [.scalar '0'] ∨ AreDigits t ∧ t.head? ≠ some (.scalar '0')

/-- The ways to write a fraction with these digits. -/
def SpellsFraction (digits t : Text) : Prop :=
  digits = [] ∧ t = [] ∨ AreDigits digits ∧ t = .scalar '.' :: digits

/-- The ways to write an exponent. -/
def SpellsExponent (exponent : Option (Bool × Text)) (t : Text) : Prop :=
  exponent = none ∧ t = [] ∨
    ∃ mark sign negative digits, exponent = some (negative, digits) ∧ AreDigits digits ∧
      isExponentMark mark ∧ t = mark :: (sign ++ digits) ∧
      (negative = true ∧ sign = [.scalar '-'] ∨
        negative = false ∧ (sign = [.scalar '+'] ∨ sign = []))

/-- The ways to write a number. -/
def SpellsNumeral (n : Numeral) (t : Text) : Prop :=
  ∃ fraction exponent, IsWhole n.whole ∧ SpellsFraction n.fraction fraction ∧
    SpellsExponent n.exponent exponent ∧
    t = (if n.negative then [.scalar '-'] else []) ++ n.whole ++ fraction ++ exponent

/-- The values that numbers have: an integer within the limit of digits, or a finite number of the
binary64 format. -/
def Denotes (n : Numeral) (v : Json) : Prop :=
  n.isInteger = true ∧ n.whole.length ≤ maxIntegerDigits ∧ v = .int n.toInt ∨
    n.isInteger = false ∧ ∃ x, n.toBinary64? = some x ∧ v = .float x

/-- A token of a document. -/
inductive Token where
  /-- A brace, a bracket, a comma or a colon. -/
  | punctuation (c : CodePoint)
  /-- A string literal. -/
  | literal (q : Quote) (content : Text)
  /-- A bare key. -/
  | key (word : Text)
  /-- A number, or one of the words for the null value and the truth values. -/
  | atom (text : Text)
  deriving DecidableEq

/-- The text of a token. -/
def Token.text : Token → Text
  | punctuation c => [c]
  | literal q content => q.literal content
  | key word => word
  | atom text => text

/-- The tokens that name a member. -/
inductive Names [Alphabet] (s : Repair.Settings) : Token → Text → Prop
  /-- A string between quotation marks. -/
  | double {content : Text} {ps : List Piece} (h : Spells .double content ps) :
      Names s (.literal .double content) (joined ps)
  /-- A string between single quotes. -/
  | single {content : Text} {ps : List Piece} (hs : s.convertSingleQuotes = true)
      (h : Spells .single content ps) : Names s (.literal .single content) (joined ps)
  /-- A run of key characters. -/
  | bare {word : Text} (hs : s.quoteKeys = true) (hne : word ≠ [])
      (hkey : ∀ c ∈ word, Repair.isKeyPoint c) : Names s (.key word) word

/-- What tokens can stand for. -/
inductive Phrase where
  /-- A value, inside a container or at the root. -/
  | value (nested : Bool) (v : Json)
  /-- The items of an array that has any. -/
  | items (vs : List Json)
  /-- The members of an object that has any, in the order in which they are written. -/
  | members (ms : List (Text × Json))

/-- What may stand between the last item of a container and its closing bracket. -/
def Trails (s : Repair.Settings) (ts : List Token) : Prop :=
  ts = [] ∨ s.removeTrailingCommas = true ∧ ts = [.punctuation (.scalar ',')]

/-- The tokens of a phrase whose containers are nested at most so deep. -/
inductive Derives [Alphabet] (s : Repair.Settings) : Nat → Phrase → List Token → Prop
  /-- The null value. -/
  | null {n : Nat} {nested : Bool} : Derives s n (.value nested .null) [.atom "null"]
  /-- A truth value. -/
  | bool {n : Nat} {nested : Bool} (b : Bool) :
      Derives s n (.value nested (.bool b)) [.atom (if b then "true" else "false")]
  /-- A number. -/
  | number {n : Nat} {nested : Bool} {numeral : Numeral} {t : Text} {v : Json}
      (ht : SpellsNumeral numeral t) (hv : Denotes numeral v) :
      Derives s n (.value nested v) [.atom t]
  /-- A string between quotation marks. -/
  | string {n : Nat} {nested : Bool} {content : Text} {ps : List Piece}
      (h : Spells .double content ps) :
      Derives s n (.value nested (.str (joined ps))) [.literal .double content]
  /-- A string between single quotes inside a container. -/
  | singleString {n : Nat} {content : Text} {ps : List Piece}
      (hs : s.convertSingleQuotes = true) (h : Spells .single content ps) :
      Derives s n (.value true (.str (joined ps))) [.literal .single content]
  /-- An array without items. -/
  | emptyArray {n : Nat} {nested : Bool} :
      Derives s (n + 1) (.value nested (.arr []))
        [.punctuation (.scalar '['), .punctuation (.scalar ']')]
  /-- An array with items. -/
  | array {n : Nat} {nested : Bool} {vs : List Json} {ts trail : List Token}
      (h : Derives s n (.items vs) ts) (htrail : Trails s trail) :
      Derives s (n + 1) (.value nested (.arr vs))
        (.punctuation (.scalar '[') :: (ts ++ (trail ++ [.punctuation (.scalar ']')])))
  /-- An object without members. -/
  | emptyObject {n : Nat} {nested : Bool} :
      Derives s (n + 1) (.value nested (.obj []))
        [.punctuation (.scalar '{'), .punctuation (.scalar '}')]
  /-- An object with members: a repeated key keeps its first place and gets the last value. -/
  | object {n : Nat} {nested : Bool} {ms : List (Text × Json)} {ts trail : List Token}
      (h : Derives s n (.members ms) ts) (htrail : Trails s trail) :
      Derives s (n + 1) (.value nested (.obj (ofPairs ms)))
        (.punctuation (.scalar '{') :: (ts ++ (trail ++ [.punctuation (.scalar '}')])))
  /-- A single item. -/
  | item {n : Nat} {v : Json} {ts : List Token} (h : Derives s n (.value true v) ts) :
      Derives s n (.items [v]) ts
  /-- An item before others. -/
  | consItem {n : Nat} {v : Json} {vs : List Json} {ts ts' : List Token}
      (h : Derives s n (.value true v) ts) (h' : Derives s n (.items vs) ts') :
      Derives s n (.items (v :: vs)) (ts ++ .punctuation (.scalar ',') :: ts')
  /-- A single member. -/
  | member {n : Nat} {k : Text} {v : Json} {tok : Token} {ts : List Token} (hk : Names s tok k)
      (h : Derives s n (.value true v) ts) :
      Derives s n (.members [(k, v)]) (tok :: .punctuation (.scalar ':') :: ts)
  /-- A member before others. -/
  | consMember {n : Nat} {k : Text} {v : Json} {ms : List (Text × Json)} {tok : Token}
      {ts ts' : List Token} (hk : Names s tok k) (h : Derives s n (.value true v) ts)
      (h' : Derives s n (.members ms) ts') :
      Derives s n (.members ((k, v) :: ms))
        (tok :: .punctuation (.scalar ':') :: (ts ++ .punctuation (.scalar ',') :: ts'))

/-- What may stand before a token: blanks of JSON and, if they are allowed, comments. -/
inductive Gap (comments : Bool) : Text → Prop
  /-- Nothing. -/
  | nil : Gap comments []
  /-- A blank of JSON. -/
  | blank {c : CodePoint} {t : Text} (hc : isGap c) (h : Gap comments t) : Gap comments (c :: t)
  /-- A block comment. -/
  | block {body t : Text} (hs : comments = true) (hbody : StaysInBlock (body ++ [.scalar '*']))
      (h : Gap comments t) : Gap comments (blockText body ++ t)
  /-- A line comment with the end of its line. -/
  | line {body t : Text} {c : CodePoint} (hs : comments = true)
      (hbody : ∀ c ∈ body, c.isLineEnd = false) (hc : c.isLineEnd) (h : Gap comments t) :
      Gap comments (.scalar '/' :: .scalar '/' :: (body ++ c :: t))

/-- What may stand behind the last token: a gap, and a line comment that the text ends. -/
def FinalGap (comments : Bool) (t : Text) : Prop :=
  Gap comments t ∨
    comments = true ∧ ∃ gap body, Gap comments gap ∧ (∀ c ∈ body, c.isLineEnd = false) ∧
      t = gap ++ .scalar '/' :: .scalar '/' :: body

/-- The texts of tokens with gaps around them. -/
inductive Woven (comments : Bool) : List Token → Text → Prop
  /-- The end of the text. -/
  | nil {gap : Text} (h : FinalGap comments gap) : Woven comments [] gap
  /-- A token behind a gap. -/
  | cons {gap t : Text} {tok : Token} {ts : List Token} (hgap : Gap comments gap)
      (h : Woven comments ts t) : Woven comments (tok :: ts) (gap ++ (tok.text ++ t))

/-- The documents that settings allow for a value. -/
def Document [Platform] (s : Repair.Settings) (v : Json) (t : Text) : Prop :=
  ∃ ts, Derives s Platform.maxDepth (.value false v) ts ∧ Woven s.stripComments ts t

end SourcePress.Json
