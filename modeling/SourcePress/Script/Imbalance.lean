import SourcePress.Text.Place
import SourcePress.Text.Quoted

/-!
# Records of imbalances

A record tells of one bracket or construct of a code that lacks its partner: what it is, where it
stands and, for a bracket that closes another kind, what was expected. Findings gather the records
of one code and locate them in it.
-/

namespace SourcePress.Script

/-- The kinds of imbalance. -/
inductive ImbalanceKind where
  /-- A bracket closes one of another kind. -/
  | mismatch
  /-- A bracket closes none. -/
  | unexpected
  /-- A bracket is not closed. -/
  | unclosed
  /-- A string literal or a block comment is not closed. -/
  | unterminated
  deriving DecidableEq, Repr

namespace ImbalanceKind

/-- All kinds of imbalance. -/
def all : List ImbalanceKind := [mismatch, unexpected, unclosed, unterminated]

/-- The name of a kind. -/
def name : ImbalanceKind → String
  | mismatch => "mismatch"
  | unexpected => "unexpected"
  | unclosed => "unclosed"
  | unterminated => "unterminated"

/-- The kind with a name. -/
def ofName? (t : Text) : Option ImbalanceKind := all.find? fun k => Text.ofString k.name = t

end ImbalanceKind

/-- A record of an imbalance. -/
structure Imbalance where
  /-- The bracket, or the mark that opens the construct. -/
  char : Text
  /-- Its offset. -/
  position : Int
  /-- The kind of imbalance. -/
  kind : ImbalanceKind
  /-- The line of the offset. -/
  line : Int := 1
  /-- The column of the offset. -/
  column : Int := 1
  /-- The bracket that was expected. -/
  expected : Option Text := none
  deriving DecidableEq, Repr

namespace Imbalance

/-- The wording of a place; offsets are counted from one here. -/
def location (r : Imbalance) : Text :=
  Text.ofString "at position " ++ Text.ofInt (r.position + 1) ++ " (line " ++ Text.ofInt r.line ++
    ", column " ++ Text.ofInt r.column ++ ")"

/-- The wording of a record. -/
def describe (r : Imbalance) : Text :=
  match r.kind with
  | .mismatch =>
    Text.ofString "Mismatched bracket '" ++ r.char ++ "' " ++ r.location ++ ", expected '" ++
      r.expected.getD (Text.ofString "None") ++ "'"
  | .unexpected =>
    Text.ofString "Unexpected closing bracket '" ++ r.char ++ "' " ++ r.location
  | .unclosed => Text.ofString "Unclosed bracket '" ++ r.char ++ "' " ++ r.location
  | .unterminated =>
    let construct : String :=
      if r.char = Text.ofString "/*" then "block comment" else "string literal"
    Text.ofString "Unterminated " ++ construct ++ " starting " ++ r.location

/-- The record of an imbalance at an offset of a text. -/
def locate (whole char : Text) (position : Int) (kind : ImbalanceKind)
    (expected : Option Text) : Imbalance :=
  let place := whole.place position
  ⟨char, position, kind, place.line, place.column, expected⟩

end Imbalance

/-- The records found in one code. -/
structure Findings where
  /-- The code. -/
  code : Text
  /-- The records in the order in which they were found. -/
  records : List Imbalance := []
  deriving DecidableEq, Repr

namespace Findings

/-- Adds a record of an imbalance at an offset. -/
def add (f : Findings) (char : Text) (position : Int) (kind : ImbalanceKind)
    (expected : Option Text) : Findings :=
  { f with records := f.records ++ [.locate f.code char position kind expected] }

/-- Forgets all records. -/
def clear (f : Findings) : Findings := { f with records := [] }

/-- Fails with all records if there is one. -/
def check (f : Findings) : Except (List Imbalance) Unit :=
  if f.records = [] then .ok () else .error f.records

end Findings

end SourcePress.Script
