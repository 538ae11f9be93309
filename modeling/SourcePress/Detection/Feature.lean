import SourcePress.Detection.Pattern
import SourcePress.Number.Binary64

/-!
# Features of JSON and of JavaScript

Small features of a text that speak for one kind of content or the other. They are looked for in
the text as it stands, in its strings and comments too.
-/

namespace SourcePress.Detection

variable [Alphabet]

/-- True of all but a quotation mark. -/
def notQuote (c : CodePoint) : Bool := c ≠ '"'

/-- True of all but a closing parenthesis. -/
def notClosing (c : CodePoint) : Bool := c ≠ ')'

/-- True of all but a semicolon. -/
def notSemicolon (c : CodePoint) : Bool := c ≠ ';'

/-- Any amount of spacing. -/
def gap : Part := .many CodePoint.isSpacing

/-- At least one code point of spacing. -/
def space : Part := .oneOrMore CodePoint.isSpacing

/-- A code point of a word. -/
def wordPoint : Part := .one CodePoint.isWord

/-- A quoted text without quotation marks. -/
def quotedParts : List Part := [.literal ['"'], .many notQuote, .literal ['"']]

/-- Parentheses around anything but a closing one, then an opening brace. -/
def headAndBrace : List Part :=
  [.literal ['('], .many notClosing, .literal [')'], gap, .literal ['{']]

/-- True of a text that begins with a brace or a bracket. -/
def beginsContainer (t : Text) : Bool :=
  (t.dropWhile CodePoint.isSpacing).head?.any fun c => c = .scalar '{' || c = .scalar '['

/-- True of a text that ends with a brace or a bracket. -/
def endsContainer (t : Text) : Bool :=
  (t.reverse.dropWhile CodePoint.isSpacing).head?.any fun c => c = .scalar '}' || c = .scalar ']'

/-- A quoted key before a colon. -/
def quotedKey : Pattern := { parts := quotedParts ++ [gap, .literal [':']] }

/-- A quoted value behind a colon. -/
def quotedValue : Pattern := { parts := [.literal [':'], gap] ++ quotedParts }

/-- A number behind a colon. -/
def numberValue : Pattern := { parts := [.literal [':'], gap, .one CodePoint.isDecimalDigit] }

/-- A JSON literal behind a colon. -/
def literalValue : Pattern := { parts := [.literal [':'], gap, .anyOf ["true", "false", "null"]] }

/-- How many features of JSON a text has. -/
def jsonFeatureCount (t : Text) : Nat :=
  [beginsContainer t, endsContainer t, quotedKey.isIn t, quotedValue.isIn t, numberValue.isIn t,
    literalValue.isIn t].count true

/-- A keyword before spacing and a word. -/
def keywordAndWord (words : List Text) : Pattern :=
  { atEdge := true, parts := [.anyOf words, space, wordPoint] }

/-- A keyword before an opening parenthesis. -/
def keywordAndParenthesis (word : Text) : Pattern :=
  { atEdge := true, parts := [.literal word, gap, .literal ['(']] }

/-- A keyword before spacing. -/
def keywordAndSpace (word : Text) : Pattern := { atEdge := true, parts := [.literal word, space] }

/-- A keyword before parentheses and an opening brace. -/
def keywordAndBlock (word : Text) : Pattern :=
  { atEdge := true, parts := [.literal word, gap] ++ headAndBrace }

/-- The start of a line comment. -/
def lineCommentPattern : Pattern := { parts := [.literal ['/', '/']] }

/-- A block comment. -/
def blockCommentPattern : Pattern := { parts := [.literal ['/', '*'], .through ['*', '/']] }

/-- What JSON never has outside its strings. -/
def scriptOnlyPatterns : List Pattern :=
  [keywordAndWord ["function"], keywordAndWord ["var"], keywordAndWord ["let"],
    keywordAndWord ["const"], keywordAndParenthesis "if", keywordAndParenthesis "for",
    keywordAndParenthesis "while", keywordAndSpace "return", lineCommentPattern,
    blockCommentPattern]

/-- How many constructs a text has that JSON has not. -/
def scriptOnlyCount (t : Text) : Nat := scriptOnlyPatterns.countP fun p => p.isIn t

/-- A pattern that speaks for JavaScript. -/
structure ScriptFeature where
  /-- The pattern. -/
  pattern : Pattern
  /-- How much it counts. -/
  weight : Binary64
  /-- What it finds. -/
  description : Text

/-- The patterns that speak for JavaScript, in the order in which they are counted. -/
def scriptFeatures : List ScriptFeature :=
  [⟨keywordAndWord ["function"], 0.2, "function declaration"⟩,
    ⟨keywordAndWord ["var", "let", "const"], 0.15, "variable declaration"⟩,
    ⟨keywordAndBlock "if", 0.1, "if statement"⟩,
    ⟨keywordAndBlock "for", 0.1, "for loop"⟩,
    ⟨keywordAndBlock "while", 0.1, "while loop"⟩,
    ⟨{ atEdge := true,
       parts := [.literal "return", .one CodePoint.isSpacing, .one notSemicolon] },
      0.1, "return statement"⟩,
    ⟨lineCommentPattern, 0.05, "line comment"⟩,
    ⟨blockCommentPattern, 0.05, "block comment"⟩,
    ⟨{ parts := [wordPoint, gap] ++ headAndBrace }, 0.1, "function body"⟩,
    ⟨{ parts := [.literal ['.'], .oneOrMore CodePoint.isWord, gap, .literal ['(']] },
      0.05, "method call"⟩,
    ⟨{ parts := [.literal ['=', '>']] }, 0.1, "arrow function"⟩,
    ⟨keywordAndWord ["class"], 0.15, "class declaration"⟩,
    ⟨keywordAndSpace "import", 0.15, "import statement"⟩,
    ⟨keywordAndSpace "export", 0.15, "export statement"⟩,
    ⟨{ atEdge := true,
       parts := [.literal "console.", .anyOf ["log", "error", "warn", "info"]] },
      0.1, "console call"⟩]

/-- True of a line of code that ends with a semicolon. -/
def endsStatement (line : Text) : Bool :=
  let trimmed := line.trim
  trimmed.getLast? = some (.scalar ';') && !(Text.ofString "//").isPrefixOf trimmed

/-- How many lines of a text end with a semicolon. -/
def statementLineCount (t : Text) : Nat := t.lines.countP endsStatement

/-- How many blocks a text has behind a place: from an opening brace to the next closing one. -/
def blockCountFrom (inside : Bool) : Text → Nat
  | [] => 0
  | c :: rest =>
    if inside then
      if c = '}' then blockCountFrom false rest + 1 else blockCountFrom true rest
    else blockCountFrom (c = '{') rest

/-- How many blocks a text has. -/
def blockCount (t : Text) : Nat := blockCountFrom false t

end SourcePress.Detection
