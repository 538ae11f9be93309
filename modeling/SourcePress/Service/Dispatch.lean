import SourcePress.Detection.Verdict
import SourcePress.Service.Offload

/-!
# Dispatch of requests

A text that is not blank becomes a request, which runs in place if the text is small enough and is
offloaded else. A problem on the way ends in an outcome, and so does whatever fails in a pool of
workers; but a selector that cannot be spelled fails the whole dispatch. The kind of the text may be
detected, and then a limit of the reader fails the dispatch as well.
-/

namespace SourcePress.Service

variable [Platform]

/-- The way that a text takes. -/
inductive Route where
  /-- No request can be made. -/
  | refused (p : Problem)
  /-- The request runs in place. -/
  | inPlace (r : Request)
  /-- The request is offloaded. -/
  | offloaded (r : Request)

/-- The request for a text with a selected operation and kind. -/
def resolve (t : Text) (operation kind : Selector) : Except Failure Request := do
  let k ← resolveKind kind operation
  let o ← resolveOperation operation (.kind k)
  return ⟨t, o, k⟩

/-- The route of a text; a threshold that is given stands for the configured one. No text is
refused as a blank one is. -/
def route (config : Config) (text? : Option Text) (operation kind : Selector)
    (threshold : Option Int) : Except Failure Route :=
  match text? with
  | none => .ok (.refused .nothingToDo)
  | some t =>
    if t.isBlank then .ok (.refused .nothingToDo)
    else match resolve t operation kind with
      | .error (.problem p) => .ok (.refused p)
      | .error f => .error f
      | .ok r =>
        if (t.byteLength : Int) ≤ threshold.getD config.sizeThreshold then .ok (.inPlace r)
        else .ok (.offloaded r)

/-- What offloads a request. -/
abbrev Offloader := Request → Except OffloadFault (Outcome Text)

/-- Offloads each request to a context of its own. -/
def ownContext (pool : Pool) (config : Config) : Offloader := fun r => do
  let c ← (Context.ofConfig config).acquire pool
  c.submit r

/-- The outcome of an offloaded request. -/
def Outcome.ofOffload : Except OffloadFault (Outcome Text) → Outcome Text
  | .ok o => o
  | .error f => .failed (Text.ofString "Offloaded execution failed: " ++ f.text) f.typeName

/-- The outcome of a text on its route. -/
def Route.outcome (offload : Offloader) (config : Config) : Route → Outcome Text
  | refused p => .ofProblem p
  | inPlace r => execute config r
  | offloaded r => .ofOffload (offload r)

/-- The outcome of a selected operation on a text of a selected kind. -/
def runWith (offload : Offloader) (config : Config) (text? : Option Text)
    (operation kind : Selector) (threshold : Option Int) : Except Failure (Outcome Text) :=
  (route config text? operation kind threshold).map (Route.outcome offload config)

/-- The same with a context of its own for each offloaded request. -/
def run (pool : Pool) (config : Config) (text? : Option Text) (operation kind : Selector)
    (threshold : Option Int) : Except Failure (Outcome Text) :=
  runWith (ownContext pool config) config text? operation kind threshold

/-- The kind that a text is taken for: the detected one, or JSON. -/
def detectedKind (t : Text) : Except Failure ContentKind :=
  (Detection.judge t).map fun v => v.kind.getD .json

/-- The outcome of a selected operation on a text whose kind is detected. Detection reads the text
and may hit a limit of the reader. -/
def runAutoWith (offload : Offloader) (config : Config) (text? : Option Text)
    (operation : Selector) (threshold : Option Int) : Except Failure (Outcome Text) :=
  match text? with
  | none => .ok (.ofProblem .nothingToDo)
  | some t =>
    if t.isBlank then .ok (.ofProblem .nothingToDo)
    else do
      let kind ← detectedKind t
      runWith offload config t operation (.kind kind) threshold

/-- The same with a context of its own for each offloaded request. -/
def runAuto (pool : Pool) (config : Config) (text? : Option Text) (operation : Selector)
    (threshold : Option Int) : Except Failure (Outcome Text) :=
  runAutoWith (ownContext pool config) config text? operation threshold

end SourcePress.Service
