import SourcePress.Repair.Settings

/-!
# Configuration

A configuration holds the settings of the repair, the widths of indentation and the rules for
offloading. It is made from a group of values where the group is given, and else from single
options; what is not given has its usual value. Values that make no sense are refused.
-/

namespace SourcePress.Service

/-- Where offloaded work runs. -/
inductive Backend where
  /-- In processes. -/
  | process
  /-- In threads. -/
  | thread
  deriving DecidableEq, Repr

/-- The name of a backend. -/
def Backend.name : Backend → String
  | process => "process"
  | thread => "thread"

/-- The backend with a name. -/
def Backend.ofName? (t : Text) : Option Backend :=
  [process, thread].find? fun b => Text.ofString b.name = t

/-- The backends in the wording of a refusal. -/
def Backend.choices : String := "process, thread"

/-- The widths of indentation as they are given. -/
structure Formatting where
  /-- For JSON. -/
  jsonIndent : Int := 2
  /-- For JavaScript. -/
  jsIndent : Int := 2
  deriving DecidableEq, Repr

/-- The rules for offloading as they are given. -/
structure Offloading where
  /-- The largest size in bytes that is not offloaded. -/
  sizeThreshold : Int := 50000
  /-- The name of the backend. -/
  backend : Text := "process"
  /-- The number of workers. -/
  workers : Int := 1
  deriving DecidableEq, Repr

/-- A configuration. -/
structure Config where
  /-- The settings of the repair. -/
  repair : Repair.Settings := {}
  /-- The indentation of JSON. -/
  jsonIndent : Nat := 2
  /-- The indentation of JavaScript. -/
  jsIndent : Nat := 2
  /-- The largest size in bytes that is not offloaded. -/
  sizeThreshold : Nat := 50000
  /-- Where offloaded work runs. -/
  backend : Backend := .process
  /-- The number of workers. -/
  workers : Nat := 1
  /-- There is at least one worker. -/
  workers_pos : 0 < workers := by decide
  deriving DecidableEq

/-- Why values make no configuration. -/
inductive ConfigFault where
  /-- The size threshold is negative. -/
  | negativeThreshold
  /-- There is no such backend. -/
  | unknownBackend
  /-- There is no worker. -/
  | noWorkers
  /-- A width of indentation is negative. -/
  | negativeIndent
  deriving DecidableEq, Repr

/-- The wording of a fault. -/
def ConfigFault.message : ConfigFault → String
  | negativeThreshold => "size_threshold_bytes must not be negative"
  | unknownBackend => "offload_backend must be one of " ++ Backend.choices
  | noWorkers => "max_workers must be positive"
  | negativeIndent => "indent must not be negative"

/-- The configuration of given values. -/
def Config.ofValues (repair : Repair.Settings) (formatting : Formatting)
    (offloading : Offloading) : Except ConfigFault Config :=
  if offloading.sizeThreshold < 0 then .error .negativeThreshold
  else match Backend.ofName? offloading.backend with
    | none => .error .unknownBackend
    | some backend =>
      if h : offloading.workers < 1 then .error .noWorkers
      else if formatting.jsonIndent < 0 ∨ formatting.jsIndent < 0 then .error .negativeIndent
      else .ok
        { repair
          jsonIndent := formatting.jsonIndent.toNat
          jsIndent := formatting.jsIndent.toNat
          sizeThreshold := offloading.sizeThreshold.toNat
          backend
          workers := offloading.workers.toNat
          workers_pos := by omega }

/-- The configuration of groups and single options: a group that is given stands for all of its
values, and the options for the values of the groups that are not. -/
def Config.ofGroups (repair : Option Repair.Settings) (formatting : Option Formatting)
    (offloading : Option Offloading) (formattingOptions : Formatting)
    (offloadingOptions : Offloading) : Except ConfigFault Config :=
  Config.ofValues (repair.getD {}) (formatting.getD formattingOptions)
    (offloading.getD offloadingOptions)

end SourcePress.Service
