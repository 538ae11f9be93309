import SourcePress.Problem

/-!
# Outcomes

A request ends in an outcome: an output, or the message of an error. Both are texts where a
request was executed, and any values where an outcome was read from a message. An outcome that is
put together from parts must have exactly one of the two and no negative time.
-/

namespace SourcePress.Service

/-- What a request ends in. -/
inductive Ending (α : Type) where
  /-- It succeeds with an output. -/
  | output (value : α)
  /-- It fails with a message. -/
  | error (message : α)
  deriving DecidableEq, Repr

/-- The outcome of a request. -/
structure Outcome (α : Type) where
  /-- Its output or its error. -/
  ending : Ending α
  /-- The time that it took. -/
  elapsedMillis : Nat := 0
  /-- The name of the kind of error. -/
  errorType : Option α := none
  deriving DecidableEq, Repr

/-- Why parts make no outcome. -/
inductive OutcomeFault where
  /-- A success has no output, or has an error. -/
  | notASuccess
  /-- A failure has no error, or has an output. -/
  | notAFailure
  /-- The time is negative. -/
  | negativeTime
  deriving DecidableEq, Repr

/-- The wording of a fault. -/
def OutcomeFault.message : OutcomeFault → String
  | notASuccess => "successful result must carry output and no error"
  | notAFailure => "failed result must carry an error and no output"
  | negativeTime => "elapsed_millis must be non-negative"

namespace Outcome

variable {α β : Type}

/-- True of a success. -/
def success (o : Outcome α) : Bool :=
  match o.ending with
  | .output _ => true
  | .error _ => false

/-- The output of a success. -/
def output? (o : Outcome α) : Option α :=
  match o.ending with
  | .output value => some value
  | .error _ => none

/-- The message of a failure. -/
def errorMessage? (o : Outcome α) : Option α :=
  match o.ending with
  | .output _ => none
  | .error message => some message

/-- The outcome with its output or error, and the kind of error, each put through a function. -/
def map (f : α → β) (o : Outcome α) : Outcome β :=
  { ending := match o.ending with
      | .output value => .output (f value)
      | .error message => .error (f message)
    elapsedMillis := o.elapsedMillis
    errorType := o.errorType.map f }

/-- The outcome of a failure of a given type. -/
def failed (message : Text) (errorType : String) : Outcome Text :=
  { ending := .error message, errorType := some errorType }

/-- The outcome of a problem. -/
def ofProblem (p : Problem) : Outcome Text := failed p.text p.typeName

/-- The outcome with given parts. -/
def ofParts (success : Bool) (output error : Option α) (elapsed : Int)
    (errorType : Option α) : Except OutcomeFault (Outcome α) := do
  let ending ← match success, output, error with
    | true, some value, none => pure (Ending.output value)
    | true, _, _ => throw .notASuccess
    | false, none, some message => pure (Ending.error message)
    | false, _, _ => throw .notAFailure
  if elapsed < 0 then throw .negativeTime
  return ⟨ending, elapsed.toNat, errorType⟩

end Outcome

end SourcePress.Service
