import SourcePress.Json.Fault
import SourcePress.Repair.Pipeline
import SourcePress.Request.Selector
import SourcePress.Script.Imbalance

/-!
# Problems and failures

A problem is a fault of the text or of the request that a transform reports. Its message may name
an offset and make suggestions. A failure is a problem or a limit of the library that was hit: the
message of a problem may itself hit one, when it tells a value that cannot be spelled.
-/

namespace SourcePress

/-- The parts of a problem's message. -/
structure Diagnostic where
  /-- What is wrong. -/
  message : Text
  /-- Where it is wrong. -/
  position : Option Int := none
  /-- What may be done. -/
  suggestions : List Text := []
  deriving DecidableEq, Repr

/-- The wording of a diagnostic: the message, the offset and a list of the suggestions. -/
def Diagnostic.text (d : Diagnostic) : Text :=
  let place : Text := match d.position with
    | some p => Text.ofString " at position " ++ Text.ofInt p
    | none => []
  let advice : Text :=
    if d.suggestions = [] then []
    else
      Text.ofString "\n\nSuggestions:" ++
        d.suggestions.flatMap fun s => Text.ofString "\n  - " ++ s
  d.message ++ place ++ advice

/-- A fault that a transform reports. -/
inductive Problem where
  /-- There is nothing to work on. -/
  | emptyInput (message : Text)
  /-- These words stand where a value should. -/
  | malformedInput (words : List Text)
  /-- The text is no JSON document. The message names the place itself. -/
  | unreadable (d : Diagnostic)
  /-- The operation of this spelling is not known, or not for the kind of this text. -/
  | unknownOperation (spelling : Text) (kind : Option Text)
  /-- Brackets, strings or comments lack their partners. -/
  | unbalanced (records : List Script.Imbalance)

namespace Problem

/-- The problem of an empty text. -/
def nothingToDo : Problem := emptyInput "Input is empty, nothing to process"

/-- The advice on bare values. -/
def bareValueAdvice : Text :=
  "Make sure every value is valid JSON; strings must be quoted, e.g. \"unknown\""

/-- The diagnostic of a problem. -/
def diagnostic : Problem → Diagnostic
  | emptyInput message => { message }
  | malformedInput words =>
    { message := Text.ofString "Invalid bare values detected: " ++ Text.join [',', ' '] words
      suggestions := [bareValueAdvice] }
  | unreadable d => d
  | unknownOperation spelling kind =>
    let place : Text := match kind with
      | some t => Text.ofString " for " ++ t ++ " content"
      | none => []
    { message := Text.ofString "Unknown operation: " ++ spelling ++ place }
  | unbalanced records => { message := Text.join [';', ' '] (records.map (·.describe)) }

/-- The wording of a problem. -/
def text (p : Problem) : Text :=
  match p with
  | unreadable d => d.message
  | _ => p.diagnostic.text

/-- The name of a kind of problem. -/
def typeName : Problem → String
  | emptyInput _ => "EmptyInputError"
  | malformedInput _ => "MalformedInputError"
  | unreadable _ => "ParseError"
  | unknownOperation .. => "UnknownOperationError"
  | unbalanced _ => "BracketMismatchError"

/-- The problem of an operation that is selected in vain for a kind. The kind is left out if it is
null or empty. -/
def ofSelectors [Platform] (operation kind : Selector) : Except Json.SpellingFault Problem := do
  let spelling ← operation.spelled
  if kind.isTrue then return unknownOperation spelling (some (← kind.text))
  else return unknownOperation spelling none

end Problem

/-- Why an operation gives no result. -/
inductive Failure where
  /-- A problem of the text or of the request. -/
  | problem (p : Problem)
  /-- Edits of a repair overlap. -/
  | overlap (o : Repair.Overlap)
  /-- An integer has this many digits. -/
  | integerTooLong (digits : Nat)
  /-- A container of this kind is nested too deeply. -/
  | tooDeep (container : Json.Container)
  /-- A value cannot be spelled for a message. -/
  | unspelled (f : Json.SpellingFault)

namespace Failure

variable [Alphabet]

/-- The failure of a text that is no JSON document. -/
def ofJsonFault (whole : Text) : Json.Fault → Failure
  | .integerTooLong digits => integerTooLong digits
  | .tooDeep container => tooDeep container
  | fault =>
    problem (.unreadable
      { message := fault.message whole
        position := (fault.position? whole).map Int.ofNat })

/-- The failure of a repair. -/
def ofRepairFault : Repair.Fault → Failure
  | .bareValues words => problem (.malformedInput words)
  | .overlap o => overlap o

/-- The wording of a failure. -/
def text : Failure → Text
  | problem p => p.text
  | overlap o => o.message
  | integerTooLong digits => (Json.Fault.integerTooLong digits).message []
  | tooDeep container => (Json.Fault.tooDeep container).message []
  | unspelled f => f.message

/-- The name of a kind of failure. -/
def typeName : Failure → String
  | problem p => p.typeName
  | overlap _ | integerTooLong _ => "ValueError"
  | tooDeep _ => "RecursionError"
  | unspelled f => f.typeName

end Failure

end SourcePress
