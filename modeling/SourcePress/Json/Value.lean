import SourcePress.Number.Binary64
import SourcePress.Text.CodePoint

/-!
# JSON values

Integers of any size are told apart from binary64 numbers. The members of an object keep the order
in which their keys first came.
-/

namespace SourcePress

/-- A JSON value. -/
inductive Json where
  /-- The null value. -/
  | null
  /-- A truth value. -/
  | bool (b : Bool)
  /-- A number written without fraction and exponent. -/
  | int (n : Int)
  /-- A number written with a fraction or an exponent. -/
  | float (x : Binary64)
  /-- A string. -/
  | str (t : Text)
  /-- An array. -/
  | arr (items : List Json)
  /-- An object. -/
  | obj (members : List (Text × Json))
  deriving Inhabited

namespace Json

/-- Sets a member: a known key keeps its place and gets the new value, a new one goes last. -/
def setMember : List (Text × Json) → Text → Json → List (Text × Json)
  | [], key, value => [(key, value)]
  | member :: rest, key, value =>
    if member.1 = key then (key, value) :: rest else member :: setMember rest key value

/-- The members of an object, from the pairs in the order in which they were written. -/
def ofPairs (pairs : List (Text × Json)) : List (Text × Json) :=
  pairs.foldl (fun members pair => setMember members pair.1 pair.2) []

/-- The value of a key. -/
def member? (key : Text) : List (Text × Json) → Option Json
  | [] => none
  | member :: rest => if member.1 = key then some member.2 else member? key rest

/-- A value that was set is found again. -/
theorem member?_setMember (members : List (Text × Json)) (key : Text) (value : Json) :
    member? key (setMember members key value) = some value := by
  induction members with
  | nil => simp [setMember, member?]
  | cons m rest ih =>
    by_cases h : m.1 = key
    · simp [setMember, member?, h]
    · simp [setMember, member?, h, ih]

/-- Setting a member leaves the other keys as they are. -/
theorem member?_setMember_of_ne (members : List (Text × Json)) {key other : Text}
    (value : Json) (h : other ≠ key) :
    member? other (setMember members key value) = member? other members := by
  induction members with
  | nil => simp [setMember, member?, Ne.symm h]
  | cons m rest ih =>
    by_cases hk : m.1 = key
    · simp [setMember, member?, hk, Ne.symm h]
    · by_cases ho : m.1 = other
      · rw [setMember, if_neg hk]
        simp [member?, ho]
      · rw [setMember, if_neg hk]
        simp [member?, ho, ih]

end Json

end SourcePress
