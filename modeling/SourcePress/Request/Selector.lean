import SourcePress.Json.Numeral
import SourcePress.Number.Notation
import SourcePress.Platform
import SourcePress.Request.Kind
import SourcePress.Text.Quoted

/-!
# Selectors

A caller selects a kind or an operation by itself, by its name, or in vain by any other value. A
selector that selects nothing is told back in a message, by its spelling or by its text. Not every
value can be spelled: an integer may have too many digits, and containers may be nested too deeply.
-/

namespace SourcePress

namespace Json

/-- Why a value cannot be spelled. -/
inductive SpellingFault where
  /-- An integer in it has too many digits. -/
  | integerTooLong
  /-- Its containers are nested too deeply. -/
  | tooDeep
  deriving DecidableEq, Repr

/-- The wording of a fault. -/
def SpellingFault.message : SpellingFault → String
  | integerTooLong =>
    "Exceeds the limit (4300 digits) for integer string conversion; " ++
      "use sys.set_int_max_str_digits() to increase the limit"
  | tooDeep => "maximum recursion depth exceeded while getting the repr of an object"

/-- The name of a kind of fault. -/
def SpellingFault.typeName : SpellingFault → String
  | integerTooLong => "ValueError"
  | tooDeep => "RecursionError"

section Spelling

variable [Alphabet]

mutual

/-- The spelling of a value in messages, with a bound on the values that lie inside each other. -/
def spelledWithin : Nat → Json → Except SpellingFault Text
  | 0, _ => .error .tooDeep
  | _ + 1, null => .ok "None"
  | _ + 1, bool true => .ok "True"
  | _ + 1, bool false => .ok "False"
  | _ + 1, int n =>
    if n.natAbs < Nat.pow 10 maxIntegerDigits then .ok (Text.ofInt n) else .error .integerTooLong
  | _ + 1, float x => .ok (Text.ofBinary64 .usual x)
  | _ + 1, str t => .ok t.quoted
  | bound + 1, arr items =>
    (spelledItems bound items).map fun texts =>
      '[' :: (Text.join [',', ' '] texts ++ [CodePoint.scalar ']'])
  | bound + 1, obj members =>
    (spelledMembers bound members).map fun texts =>
      '{' :: (Text.join [',', ' '] texts ++ [CodePoint.scalar '}'])

/-- The spellings of the items of an array. -/
def spelledItems : Nat → List Json → Except SpellingFault (List Text)
  | _, [] => .ok []
  | bound, item :: items => do
    let text ← spelledWithin bound item
    let texts ← spelledItems bound items
    return text :: texts

/-- The spellings of the members of an object. -/
def spelledMembers : Nat → List (Text × Json) → Except SpellingFault (List Text)
  | _, [] => .ok []
  | bound, (key, item) :: members => do
    let text ← spelledWithin bound item
    let texts ← spelledMembers bound members
    return (key.quoted ++ [CodePoint.scalar ':', .scalar ' '] ++ text) :: texts

end

end Spelling

/-- The spelling of a value in messages. -/
def spelled [Platform] (j : Json) : Except SpellingFault Text :=
  spelledWithin (Platform.maxSpelledDepth + 1) j

/-- False of null, of zero and of what is empty. -/
def isTrue : Json → Bool
  | null => false
  | bool b => b
  | int n => n ≠ 0
  | float x => x.mantissa ≠ 0
  | str t => !t.isEmpty
  | arr items => !items.isEmpty
  | obj members => !members.isEmpty

end Json

/-- A selector of a kind or of an operation. -/
inductive Selector where
  /-- A kind itself. -/
  | kind (k : ContentKind)
  /-- An operation itself. -/
  | operation (o : Operation)
  /-- A value, which may be a name. -/
  | value (j : Json)

namespace Selector

/-- The selector that is a text. -/
def ofText (t : Text) : Selector := value (.str t)

/-- The spelling of a selector in messages; kinds and operations go by their short names. -/
def spelled [Platform] : Selector → Except Json.SpellingFault Text
  | kind k => .ok (Text.quoted k.name)
  | operation o => .ok (Text.quoted o.name)
  | value j => j.spelled

/-- The text of a selector; kinds and operations go by their full names. -/
def text [Platform] : Selector → Except Json.SpellingFault Text
  | kind k => .ok (Text.ofString "ContentKind." ++ k.fullName)
  | operation o => .ok (Text.ofString "Operation." ++ o.fullName)
  | value (.str t) => .ok t
  | value j => j.spelled

/-- False of a selector that is null or empty. -/
def isTrue : Selector → Bool
  | kind _ | operation _ => true
  | value j => j.isTrue

/-- The kind that is selected. -/
def kind? : Selector → Option ContentKind
  | kind k => some k
  | value (.str t) => ContentKind.ofName? t
  | _ => none

/-- The operation that is selected. -/
def operation? : Selector → Option Operation
  | operation o => some o
  | value (.str t) => Operation.ofName? t
  | _ => none

end Selector

end SourcePress
