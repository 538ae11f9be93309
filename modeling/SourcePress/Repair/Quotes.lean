import SourcePress.Repair.Edit
import SourcePress.Repair.Lexeme

/-!
# Strings between single quotes

A complete string between single quotes gets double ones where it stands for a key or for a value,
blanks passed over. A string that the text does not close is left alone. Escapes stay as they are
written, save that an escaped apostrophe needs no backslash any more; a quotation mark gets one.
-/

namespace SourcePress.Repair

open Lexis

variable [Alphabet]

/-- The content of a single-quoted literal as it stands between quotation marks. -/
def requoteContent : Text → Text
  | [] => []
  | [c] => if c = '"' then ['\\', '"'] else [c]
  | c :: d :: rest =>
    if c = '\\' then (if d = '\'' then [.scalar '\''] else [c, d]) ++ requoteContent rest
    else (if c = '"' then [.scalar '\\', .scalar '"'] else [c]) ++ requoteContent (d :: rest)

/-- A literal with its first and last code point replaced by quotation marks. -/
def requote (literal : Text) : Text :=
  '"' :: (requoteContent (literal.drop 1).dropLast ++ [CodePoint.scalar '"'])

/-- What a single-quoted string stands for. -/
inductive QuoteTarget where
  /-- A key: behind a brace or a comma and before a colon. -/
  | keys
  /-- A value: behind a colon, a bracket or a comma. -/
  | values
  deriving DecidableEq, Repr

/-- A target that is neither keys nor values. -/
structure UnknownTarget where
  /-- The name that was given. -/
  name : Text
  deriving DecidableEq

/-- The wording of an unknown target. -/
def UnknownTarget.message (u : UnknownTarget) : Text :=
  Text.ofString "unknown target: " ++ u.name

/-- The target with a name. -/
def QuoteTarget.ofName (name : Text) : Except UnknownTarget QuoteTarget :=
  if name = Text.ofString "keys" then .ok .keys
  else if name = Text.ofString "values" then .ok .values
  else .error ⟨name⟩

/-- True of neighbours between which a string stands for its target. -/
def QuoteTarget.accepts (target : QuoteTarget) (before after : Option CodePoint) : Bool :=
  match target with
  | keys =>
    (before = some (.scalar '{') || before = some (.scalar ',')) && after = some (.scalar ':')
  | values =>
    before = some (.scalar ':') || before = some (.scalar '[') || before = some (.scalar ',')

/-- True at a complete single-quoted string that stands for a target. The offset is that of the
construct which the text leaves open. -/
def isConvertible (target : QuoteTarget) (open? : Option Nat) (s : Site) : Bool :=
  Lexeme.isSingleQuoted s.lexeme && open? ≠ some s.offset &&
    target.accepts s.before (frontOf? CodePoint.isBlank s.rest)

/-- The edits that convert single-quoted strings. -/
def singleQuoteEdits (target : QuoteTarget) (t : Text) : List Edit :=
  let open? := openStart? t
  (sites CodePoint.isBlank t).filterMap fun s =>
    if isConvertible target open? s then
      some ⟨s.offset, s.offset + s.lexeme.length, requote s.text⟩
    else none

/-- A text with its single-quoted keys or values converted. -/
def convertSingleQuotes (target : QuoteTarget) (t : Text) : Except Overlap Text :=
  applyEdits t (singleQuoteEdits target t)

end SourcePress.Repair
