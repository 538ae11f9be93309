import SourcePress.Script.Balance
import SourcePress.Script.Compact
import SourcePress.Script.Layout
import SourcePress.Document
import SourcePress.Service.Config
import SourcePress.Service.Outcome

/-!
# Execution of requests

A request names a kind and an operation by selectors. They are resolved first, the kind before the
operation; then the text is transformed. All that fails on the way ends in an outcome. A selector
that selects nothing is a problem, or a failure of another sort if it cannot even be spelled.
-/

namespace SourcePress.Service

variable [Platform]

/-- A text, what is to be done with it and what it is. -/
structure Request where
  /-- The text. -/
  text : Text
  /-- What is to be done. -/
  operation : Operation
  /-- The kind of the text. -/
  kind : ContentKind := .json
  deriving DecidableEq, Repr

/-- The failure of an operation that is selected in vain for the kind with a text. -/
def selectedInVain (operation : Selector) (kind : Text) : Failure :=
  match Problem.ofSelectors operation (.ofText kind) with
  | .ok p => .problem p
  | .error f => .unspelled f

/-- The kind that is selected for an operation. -/
def resolveKind (kind operation : Selector) : Except Failure ContentKind :=
  match kind.kind? with
  | some k => .ok k
  | none =>
    match kind.text with
    | .ok t => .error (selectedInVain operation t)
    | .error f => .error (.unspelled f)

/-- The operation that is selected, if the selected kind has it. -/
def resolveOperation (operation kind : Selector) : Except Failure Operation := do
  let k ← resolveKind kind operation
  match operation.operation? with
  | none => .error (selectedInVain operation k.name)
  | some o => if o.isFor k then return o else .error (selectedInVain (.operation o) k.name)

/-- The result of an operation on a text of a kind. -/
def transform (config : Config) (kind : ContentKind) (operation : Operation) (t : Text) :
    Except Failure Text :=
  match kind, operation with
  | .json, .compress => Document.compress config.repair t
  | .json, .format => Document.format config.repair (some config.jsonIndent) t
  | .json, .validate => Document.validate config.repair t
  | .json, .minify => .error (selectedInVain (.operation .minify) ContentKind.json.name)
  | .javascript, .compress => .ok (Script.compact t)
  | .javascript, .minify => .ok (Script.minify t)
  | .javascript, .format => .ok (Script.layOut config.jsIndent t)
  | .javascript, .validate => Script.validate t

/-- The outcome of a transform. A failure that is no problem of the text is told as such. -/
def Outcome.ofResult : Except Failure Text → Outcome Text
  | .ok t => { ending := .output t }
  | .error (.problem p) => .ofProblem p
  | .error failure =>
    .failed (Text.ofString "Processing failed: " ++ failure.text) failure.typeName

/-- The result of a selected operation on a text of a selected kind. -/
def executeSelected (config : Config) (t : Text) (operation kind : Selector) :
    Except Failure Text := do
  let k ← resolveKind kind operation
  let o ← resolveOperation operation (.kind k)
  transform config k o t

/-- The outcome of a request. -/
def execute (config : Config) (r : Request) : Outcome Text :=
  .ofResult (executeSelected config r.text (.operation r.operation) (.kind r.kind))

end SourcePress.Service
