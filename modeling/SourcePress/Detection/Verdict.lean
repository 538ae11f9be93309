import SourcePress.Detection.Feature
import SourcePress.Document

/-!
# The kind of a text

A text is scored as JSON and as JavaScript from its features and from whether it is strict JSON.
The first score that is decisive wins, and else the greater one. Weights are summed one by one in
the binary64 format, in the order in which they are listed.
-/

namespace SourcePress.Detection

/-- What was found about the kind of a text. -/
structure Verdict where
  /-- The kind, if it is known. -/
  kind : Option ContentKind
  /-- How sure the verdict is, from nought to one. -/
  confidence : Binary64
  /-- What speaks for it. -/
  reason : Text
  deriving DecidableEq

/-- Above this confidence a verdict is decisive. -/
def decisive : Binary64 := 0.7

/-- Above this confidence a kind is worth naming. -/
def worthNaming : Binary64 := 0.5

/-- The lesser of two numbers, and the first of two equal ones. -/
def lesser (x y : Binary64) : Binary64 := if y.lt x then y else x

/-- A number brought between nought and one. -/
def clamp (x : Binary64) : Binary64 :=
  let capped := lesser 1.0 x
  if (0.0 : Binary64).lt capped then capped else 0.0

/-- A score in the making: a sum and the reasons for it. -/
structure Score where
  /-- The sum of the weights. -/
  sum : Binary64 := 0.0
  /-- The reasons in their order. -/
  reasons : List Text := []

namespace Score

/-- Adds a weight. -/
def add (s : Score) (weight : Binary64) : Score := { s with sum := s.sum + weight }

/-- Takes a weight away. -/
def take (s : Score) (weight : Binary64) : Score := { s with sum := s.sum - weight }

/-- Gives a reason. -/
def because (s : Score) (reason : Text) : Score := { s with reasons := s.reasons ++ [reason] }

/-- The verdict of a score for a kind. -/
def verdict (s : Score) (kind : ContentKind) : Verdict :=
  ⟨some kind, clamp s.sum, Text.join [',', ' '] s.reasons⟩

end Score

/-- True of arrays and objects. -/
def isContainer : Json → Bool
  | .arr _ | .obj _ => true
  | _ => false

section Scoring

variable [Alphabet]

/-- The score of a text as JSON, with the value that it is if it is strict JSON. -/
def jsonScore (value : Option Json) (t : Text) : Score :=
  let s : Score := {}
  let s := match value with
    | some v =>
      let s := (s.add 0.6).because "parses as JSON"
      if isContainer v then (s.add 0.2).because "root is an object or array" else s
    | none => s.take 0.3
  let features := jsonFeatureCount t
  let s :=
    if 3 ≤ features then
      (s.add 0.3).because (Text.ofString "matches " ++ Text.ofNat features ++ " JSON features")
    else s
  let constructs := scriptOnlyCount t
  if constructs = 0 then s
  else
    (s.take ((constructs : Binary64) * 0.1)).because
      (Text.ofString "contains " ++ Text.ofNat constructs ++ " JavaScript-only constructs")

/-- Adds the features of JavaScript that a text has to a score. -/
def addScriptFeatures (t : Text) (s : Score) : Score :=
  scriptFeatures.foldl (fun s f =>
    if f.pattern.isIn t then (s.add f.weight).because f.description else s) s

/-- The score of a text as JavaScript, with the value that it is if it is strict JSON. -/
def scriptScore (value : Option Json) (t : Text) : Score :=
  let s := addScriptFeatures t {}
  let statements := statementLineCount t
  let s :=
    if statements = 0 then s
    else
      (s.add (lesser 0.1 ((statements : Binary64) * 0.02))).because
        (Text.ofNat statements ++ Text.ofString " lines end with a semicolon")
  let blocks := blockCount t
  let s :=
    if blocks = 0 then s
    else
      (s.add (lesser 0.1 ((blocks : Binary64) * 0.03))).because
        (Text.ofNat blocks ++ Text.ofString " code blocks")
  match value with
  | some _ => (s.take 0.3).because "parses as JSON"
  | none => s.add 0.1

end Scoring

variable [Platform]

/-- The verdict on a text as JSON. -/
def judgeJson (t : Text) : Except Failure Verdict :=
  (Document.readIfValid t).map fun value => (jsonScore value t).verdict .json

/-- The verdict on a text as JavaScript. -/
def judgeScript (t : Text) : Except Failure Verdict :=
  (Document.readIfValid t).map fun value => (scriptScore value t).verdict .javascript

/-- The verdict on a text that is not blank, from the verdicts on it as JSON and as JavaScript. -/
def choose (json script : Verdict) : Verdict :=
  if decisive.lt json.confidence then json
  else if decisive.lt script.confidence then script
  else if script.confidence.le json.confidence then json
  else script

/-- The verdict on an empty text. -/
def emptyVerdict : Verdict := ⟨none, 0.0, "content is empty"⟩

/-- The verdict on a text. -/
def judge (t : Text) : Except Failure Verdict :=
  if t.isBlank then .ok emptyVerdict
  else do
    let json ← judgeJson t.trim
    let script ← judgeScript t.trim
    return choose json script

/-- The kind of a text if the verdict on it is sure enough. -/
def quickKind (t : Text) : Except Failure (Option ContentKind) :=
  (judge t).map fun v => if worthNaming.lt v.confidence then v.kind else none

end SourcePress.Detection
