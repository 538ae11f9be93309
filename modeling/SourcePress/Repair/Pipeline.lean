import SourcePress.Repair.BareValues
import SourcePress.Repair.Commas
import SourcePress.Repair.Comments
import SourcePress.Repair.Keys
import SourcePress.Repair.Quotes
import SourcePress.Repair.Settings

/-!
# The repair of lenient JSON

A repair trims a text and then takes the steps that the settings ask for, one after the other. The
usual steps take comments out, then trailing commas, then quote bare keys, then convert
single-quoted keys and values, and at last refuse bare values.
-/

namespace SourcePress.Repair

variable [Alphabet]

/-- A step of the repair. -/
inductive Step where
  /-- Takes comments out. -/
  | comments
  /-- Takes trailing commas out. -/
  | commas
  /-- Quotes bare keys. -/
  | keys
  /-- Converts single-quoted strings. -/
  | singleQuotes (target : QuoteTarget)
  /-- Refuses bare values. -/
  | bareValues
  deriving DecidableEq, Repr

/-- Why a repair fails. -/
inductive Fault where
  /-- These words stand where a value should. -/
  | bareValues (words : List Text)
  /-- Two edits of a step overlap. -/
  | overlap (o : Overlap)
  deriving DecidableEq

namespace Step

/-- True of the steps that settings ask for. -/
def applies (s : Settings) : Step → Bool
  | comments => s.stripComments
  | commas => s.removeTrailingCommas
  | keys => s.quoteKeys
  | singleQuotes _ => s.convertSingleQuotes
  | bareValues => true

/-- The text behind a step. -/
def process (t : Text) : Step → Except Fault Text
  | comments => .ok (stripComments t)
  | commas => (removeTrailingCommas t).mapError .overlap
  | keys => (quoteKeys t).mapError .overlap
  | singleQuotes target => (convertSingleQuotes target t).mapError .overlap
  | bareValues =>
    match Repair.bareValues t with
    | [] => .ok t
    | words => .error (.bareValues words)

/-- The usual steps in their order. -/
def usual : List Step :=
  [comments, commas, keys, singleQuotes .keys, singleQuotes .values, bareValues]

end Step

/-- The text behind the steps of a list that settings ask for. -/
def runSteps (settings : Settings) (steps : List Step) (t : Text) : Except Fault Text :=
  (steps.filter (Step.applies settings)).foldlM Step.process t

/-- A trimmed text with the steps of a list that settings ask for. -/
def runPipeline (settings : Settings) (steps : List Step) (t : Text) : Except Fault Text :=
  runSteps settings steps t.trim

/-- The texts behind the usual steps one by one, for a text that is trimmed first: nothing for a
step that settings do not ask for, and the fault of the step that fails at the end. -/
def traceSteps (settings : Settings) : List Step → Text → List (Except Fault (Option Text))
  | [], _ => []
  | step :: steps, t =>
    if step.applies settings then
      match step.process t with
      | .ok next => .ok (some next) :: traceSteps settings steps next
      | .error fault => [.error fault]
    else .ok none :: traceSteps settings steps t

/-- The strict JSON text that a lenient one stands for. -/
def repair (settings : Settings) (t : Text) : Except Fault Text :=
  runPipeline settings Step.usual t

end SourcePress.Repair
