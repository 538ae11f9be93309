import SourcePress.Json.Reader
import SourcePress.Json.Writer
import SourcePress.Problem

/-!
# Lenient JSON documents

A lenient text is repaired first and then read as a strict JSON document. What was read is written
back compactly or laid out, or just found to be valid.
-/

namespace SourcePress.Document

variable [Platform]

/-- The value of a strict JSON text. -/
def readStrict (t : Text) : Except Failure Json := (Json.read t).mapError (Failure.ofJsonFault t)

/-- The value of a lenient JSON text. -/
def parse (settings : Repair.Settings) (t : Text) : Except Failure Json := do
  readStrict (← (Repair.repair settings t).mapError .ofRepairFault)

/-- A lenient text as compact JSON. -/
def compress (settings : Repair.Settings) (t : Text) : Except Failure Text :=
  (parse settings t).map (Json.write .compact)

/-- The layout of a width of indentation, and one line for none. A negative width indents
nothing. -/
def layoutOf : Option Int → Json.Layout
  | some width => .indented width.toNat
  | none => .spaced

/-- A lenient text as JSON laid out with a width of indentation. -/
def format (settings : Repair.Settings) (width : Option Int) (t : Text) : Except Failure Text :=
  (parse settings t).map (Json.write (layoutOf width))

/-- What is said of a valid JSON text. -/
def validMessage : Text := "JSON validation passed!"

/-- The message for a lenient text that can be read. -/
def validate (settings : Repair.Settings) (t : Text) : Except Failure Text :=
  (parse settings t).map fun _ => validMessage

/-- The value of a strict text if it is JSON; only a limit of the reader is a failure. -/
def readIfValid (t : Text) : Except Failure (Option Json) :=
  match Json.read t with
  | .ok value => .ok (some value)
  | .error fault => if fault.isRefusal then .ok none else .error (.ofJsonFault t fault)

/-- True of a text that is strict JSON as it stands. -/
def isValid (t : Text) : Except Failure Bool := (readIfValid t).map Option.isSome

end SourcePress.Document
