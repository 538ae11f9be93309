import SourcePress.Text.Blank

/-!
# Marks of the lexical scan

A scan gives each code point of a source text a mark: the region it belongs to, and whether it
opens a string literal or a comment there. The scan is a machine that reads one code point at a
time and may look at the one after it. Its mode says where it stands between two code points.
-/

namespace SourcePress.Lexis

/-- The quotes that open and close a string literal. -/
inductive Quote where
  /-- The quotation mark. -/
  | double
  /-- The apostrophe. -/
  | single
  /-- The grave accent. -/
  | backtick
  deriving DecidableEq, Repr

/-- The code point of a quote. -/
def Quote.point : Quote → CodePoint
  | double => '"'
  | single => '\''
  | backtick => '\x60'

/-- The quote that a code point is, if it is one. -/
def Quote.ofPoint? (c : CodePoint) : Option Quote :=
  if c = '"' then some double
  else if c = '\'' then some single
  else if c = '\x60' then some backtick
  else none

/-- The lexical region of a code point. -/
inductive Region where
  /-- Live code. -/
  | code
  /-- A string literal, its two quotes included. -/
  | string (quote : Quote)
  /-- A comment that runs to the end of its line. -/
  | lineComment
  /-- A comment between its two markers. -/
  | blockComment
  deriving DecidableEq, Repr

namespace Region

/-- True of code, false of strings and comments. -/
def isLive : Region → Bool
  | code => true
  | _ => false

/-- True of the two kinds of comment. -/
def isComment : Region → Bool
  | lineComment | blockComment => true
  | _ => false

/-- True of string literals. -/
def isString : Region → Bool
  | string _ => true
  | _ => false

/-- The quote of a string literal. -/
def quote? : Region → Option Quote
  | string q => some q
  | _ => none

/-- True of two regions of one kind; the quote of a string makes no difference. -/
def alike : Region → Region → Bool
  | code, code | string _, string _ | lineComment, lineComment | blockComment, blockComment => true
  | _, _ => false

end Region

/-- A code point with what the scan found about it. -/
structure Mark where
  /-- The code point. -/
  point : CodePoint
  /-- The region it belongs to. -/
  region : Region
  /-- True of the first code point of a string literal or a comment. -/
  opens : Bool
  deriving DecidableEq, Repr

namespace Mark

/-- True of a mark in live code. -/
def isLive (m : Mark) : Bool := m.region.isLive

/-- True of a mark inside a comment. -/
def isComment (m : Mark) : Bool := m.region.isComment

/-- The code point of a live mark. -/
def live? (m : Mark) : Option CodePoint := if m.isLive then some m.point else none

end Mark

/-- Where the scan stands between two code points. -/
inductive Mode where
  /-- In live code; an escaped code point there opens nothing. -/
  | code (escaped : Bool)
  /-- In a string literal; an escaped code point there closes nothing. -/
  | string (quote : Quote) (escaped : Bool)
  /-- In a line comment. -/
  | lineComment
  /-- Between the two code points that open a block comment. -/
  | blockOpening
  /-- In a block comment. -/
  | blockComment
  /-- Between the two code points that close a block comment. -/
  | blockClosing
  deriving DecidableEq, Repr

namespace Mode

/-- A scan starts in live code. -/
def start : Mode := .code false

/-- The region that a mode lies in. -/
def region : Mode → Region
  | code _ => .code
  | string q _ => .string q
  | lineComment => .lineComment
  | blockOpening | blockComment | blockClosing => .blockComment

/-- The mode of the construct that a code point opens in live code, where the code point after it
decides whether a solidus opens a comment. -/
def opening? (c : CodePoint) (next : Option CodePoint) : Option Mode :=
  match Quote.ofPoint? c with
  | some q => some (.string q false)
  | none =>
    if c = '/' ∧ next = some (.scalar '/') then some .lineComment
    else if c = '/' ∧ next = some (.scalar '*') then some .blockOpening
    else none

/-- The mark of the code point read in a mode. What ends a line comment is live again. -/
def mark (mode : Mode) (c : CodePoint) (next : Option CodePoint) : Mark :=
  match mode with
  | code false =>
    match opening? c next with
    | some opened => ⟨c, opened.region, true⟩
    | none => ⟨c, .code, false⟩
  | lineComment => ⟨c, if c.isLineEnd then .code else .lineComment, false⟩
  | _ => ⟨c, mode.region, false⟩

/-- The mode behind the code point read in a mode. -/
def after (mode : Mode) (c : CodePoint) (next : Option CodePoint) : Mode :=
  match mode with
  | code true => .code false
  | code false => (opening? c next).getD (.code (c = '\\'))
  | string q true => .string q false
  | string q false => if c = q.point then .code false else .string q (c = '\\')
  | lineComment => if c.isLineEnd then .code false else .lineComment
  | blockOpening => .blockComment
  | blockComment => if c = '*' ∧ next = some (.scalar '/') then .blockClosing else .blockComment
  | blockClosing => .code false

/-- False where the end of the text leaves a string literal or a block comment open. A line
comment is closed by the end of the text. -/
def isTerminated (mode : Mode) : Bool :=
  match mode.region with
  | .code | .lineComment => true
  | .string _ | .blockComment => false

end Mode

end SourcePress.Lexis
