import SourcePress.Service.Execution

/-!
# Messages

Requests and outcomes cross to a worker and back as plain messages. A message is read key by key
in a fixed order, so the first key that is missing or holds no proper value is told.
-/

namespace SourcePress.Service

variable [Platform]

/-- A plain message: values by their keys. -/
abbrev Message := List (Text × Json)

/-- Why a message cannot be read. -/
inductive MessageFault where
  /-- A key is missing. -/
  | missing (key : Text)
  /-- A value of this spelling selects no operation. -/
  | noOperation (spelling : Text)
  /-- A value of this spelling selects no kind. -/
  | noKind (spelling : Text)
  /-- A value selects nothing and cannot be spelled. -/
  | unspelled (f : Json.SpellingFault)
  /-- A text is the numeral of no integer. -/
  | noInteger (t : Text)
  /-- A numeral has this many digits. -/
  | integerTooLong (digits : Nat)
  /-- A value of this sort is no number. -/
  | noNumber (sort : String)
  /-- The parts of an outcome do not fit. -/
  | outcome (f : OutcomeFault)

namespace MessageFault

/-- How much of a quoted text the complaint about a numeral shows, the quotes included: a longer
one is cut there. -/
def shownLength : Nat := 200

/-- The wording of a fault. -/
def text : MessageFault → Text
  | missing key => key.quoted
  | noOperation spelling => spelling ++ Text.ofString " is not a valid Operation"
  | noKind spelling => spelling ++ Text.ofString " is not a valid ContentKind"
  | unspelled f => f.message
  | noInteger t =>
    Text.ofString "invalid literal for int() with base 10: " ++ t.quoted.take shownLength
  | integerTooLong digits => (Failure.integerTooLong digits).text
  | noNumber sort =>
    Text.ofString
      "int() argument must be a string, a bytes-like object or a real number, not '" ++
      sort ++ "'"
  | outcome f => f.message

/-- The name of a kind of fault. -/
def typeName : MessageFault → String
  | missing _ => "KeyError"
  | noOperation _ | noKind _ | noInteger _ | integerTooLong _ | outcome _ => "ValueError"
  | noNumber _ => "TypeError"
  | unspelled f => f.typeName

/-- The fault of a value that selects nothing, told by its spelling. -/
def ofValue (fault : Text → MessageFault) (value : Json) : MessageFault :=
  match value.spelled with
  | .ok spelling => fault spelling
  | .error f => unspelled f

end MessageFault

/-- The text of a value; a value that is no text counts as an empty one. -/
def textOf : Json → Text
  | .str t => t
  | _ => []

/-- A value unless it is null. -/
def valueOf? : Json → Option Json
  | .null => none
  | j => some j

/-- The value of a key that a message must have. -/
def Message.need (m : Message) (key : Text) : Except MessageFault Json :=
  match Json.member? key m with
  | some value => .ok value
  | none => .error (.missing key)

/-- The value of a key that a message may have. -/
def Message.optional (m : Message) (key : Text) : Json := (Json.member? key m).getD .null

/-- The digits of a numeral: single low lines may stand between them. -/
def numeralDigits? : Text → Option (List Nat)
  | [] => none
  | [c] => c.digitValue?.map fun d => [d]
  | c :: .scalar '_' :: rest => do return (← c.digitValue?) :: (← numeralDigits? rest)
  | c :: d :: rest => do return (← c.digitValue?) :: (← numeralDigits? (d :: rest))

/-- The sign in front of a numeral and what follows it. -/
def integerSign (t : Text) : Bool × Text :=
  match t with
  | .scalar '-' :: rest => (true, rest)
  | .scalar '+' :: rest => (false, rest)
  | _ => (false, t)

/-- True of what the digits of a numeral are looked for among. -/
def isNumeralPoint (c : CodePoint) : Bool := c.isDecimalDigit || c = '_'

/-- The integer of a numeral, with spacing around it passed over. The digits are counted before
what follows them is looked at. -/
def integerOfText (t : Text) : Except MessageFault Int :=
  let (negative, rest) := integerSign (t.dropWhile CodePoint.isSpacing)
  match numeralDigits? (rest.takeWhile isNumeralPoint) with
  | none => .error (.noInteger t)
  | some digits =>
    if Json.maxIntegerDigits < digits.length then .error (.integerTooLong digits.length)
    else if (rest.dropWhile isNumeralPoint).all CodePoint.isSpacing then
      let n : Nat := digits.foldl (fun n d => 10 * n + d) 0
      .ok (if negative then -(n : Int) else n)
    else .error (.noInteger t)

/-- The integer of a value: numbers are cut, texts are read. -/
def integerOf : Json → Except MessageFault Int
  | .int n => .ok n
  | .bool b => .ok (if b then 1 else 0)
  | .float x => .ok x.truncate
  | .str t => integerOfText t
  | .null => .error (.noNumber "NoneType")
  | .arr _ => .error (.noNumber "list")
  | .obj _ => .error (.noNumber "dict")

/-- A request as a message. -/
def Request.toMessage (r : Request) : Message :=
  [("type", .str r.operation.name), ("kind", .str r.kind.name), ("data", .str r.text)]

/-- The request of a message. -/
def Request.ofMessage (m : Message) : Except MessageFault Request := do
  let data ← m.need "data"
  let type ← m.need "type"
  let operation ← match (Selector.value type).operation? with
    | some o => pure o
    | none => throw (.ofValue .noOperation type)
  let kindValue ← m.need "kind"
  let kind ← match (Selector.value kindValue).kind? with
    | some k => pure k
    | none => throw (.ofValue .noKind kindValue)
  return ⟨textOf data, operation, kind⟩

/-- An outcome as a message. -/
def Outcome.toMessage (o : Outcome Json) : Message :=
  [("success", .bool o.success), ("result", o.output?.getD .null),
    ("error", o.errorMessage?.getD .null), ("errorType", o.errorType.getD .null),
    ("processingTime", .int o.elapsedMillis)]

/-- The outcome of a message. -/
def Outcome.ofMessage (m : Message) : Except MessageFault (Outcome Json) := do
  let success ← m.need "success"
  let elapsed ← match Json.member? "processingTime" m with
    | some value => integerOf value
    | none => pure 0
  (Outcome.ofParts success.isTrue (valueOf? (m.optional "result")) (valueOf? (m.optional "error"))
    elapsed (valueOf? (m.optional "errorType"))).mapError .outcome

/-- The reply of a worker to a message. -/
def answer (config : Config) (m : Message) : Except MessageFault Message :=
  (Request.ofMessage m).map fun r => ((execute config r).map Json.str).toMessage

end SourcePress.Service
