import SourcePress.Text.CodePoint

/-!
# Settings of the repair

Four switches say which repairs are made. The search for bare values has no switch: it always
runs. Settings can be made from the names of the switches that are to be on; the name of a preset
in such a list is kept on record and switches nothing.
-/

namespace SourcePress.Repair

/-- The ready-made ways to get settings. -/
inductive Preset where
  /-- Only what strict JSON never holds is taken out. -/
  | conservative
  /-- All repairs are made. -/
  | aggressive
  /-- The repairs of a list are made. -/
  | fromFeatures
  deriving DecidableEq, Repr

/-- The name of a preset. -/
def Preset.name : Preset → String
  | conservative => "conservative"
  | aggressive => "aggressive"
  | fromFeatures => "from_features"

/-- The repairs that are to be made. -/
structure Settings where
  /-- Comments are taken out. -/
  stripComments : Bool := true
  /-- Commas before a closing bracket are taken out. -/
  removeTrailingCommas : Bool := true
  /-- Bare keys are quoted. -/
  quoteKeys : Bool := true
  /-- Strings between single quotes get double ones. -/
  convertSingleQuotes : Bool := true
  /-- The presets that were named among the features. -/
  noted : List Preset := []
  deriving DecidableEq, Repr

namespace Settings

/-- The settings under which nothing is changed that strict JSON could hold. -/
def conservative : Settings := { quoteKeys := false, convertSingleQuotes := false }

/-- The settings under which all repairs are made. -/
def aggressive : Settings := {}

/-- The settings under which no repair is made. -/
def none : Settings :=
  { stripComments := false, removeTrailingCommas := false, quoteKeys := false
    convertSingleQuotes := false }

/-- Notes a preset that is not on record yet. -/
def note (s : Settings) (p : Preset) : Settings :=
  if p ∈ s.noted then s else { s with noted := s.noted ++ [p] }

/-- Switches on the repair with a name. A name that stands for nothing is passed over. -/
def enable (s : Settings) (feature : Text) : Settings :=
  if feature = Text.ofString "strip_comments" then { s with stripComments := true }
  else if feature = Text.ofString "remove_trailing_commas" then
    { s with removeTrailingCommas := true }
  else if feature = Text.ofString "quote_keys" then { s with quoteKeys := true }
  else if feature = Text.ofString "convert_single_quotes" then
    { s with convertSingleQuotes := true }
  else match [Preset.conservative, .aggressive, .fromFeatures].find? fun p =>
      feature = Text.ofString p.name with
    | some p => s.note p
    | Option.none => s

/-- The settings with only the named repairs switched on. -/
def ofFeatures (features : List Text) : Settings := features.foldl enable none

end Settings

end SourcePress.Repair
