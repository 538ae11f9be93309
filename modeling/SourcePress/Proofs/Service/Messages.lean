import SourcePress.Service.Offload

/-!
# Messages read back

A request that crosses to a worker is read there as the request that it is, and the outcome of an
execution comes back as that outcome: its texts, the empty ones included, stay what they are, and
what is missing stays missing. So an acquired context gives each request the outcome that it has in
place.
-/

namespace SourcePress

/-- The name of a kind is read as that kind. -/
theorem ContentKind.ofName?_name (k : ContentKind) : ContentKind.ofName? k.name = some k := by
  cases k <;> decide

/-- The name of an operation is read as that operation. -/
theorem Operation.ofName?_name (o : Operation) : Operation.ofName? o.name = some o := by
  cases o <;> decide

namespace Service

/-- A request is read from its message. -/
theorem Request.ofMessage_toMessage [Platform] (r : Request) :
    Request.ofMessage r.toMessage = .ok r := by
  have hdata : r.toMessage.need "data" = .ok (.str r.text) := rfl
  have htype : r.toMessage.need "type" = .ok (.str r.operation.name) := rfl
  have hkind : r.toMessage.need "kind" = .ok (.str r.kind.name) := rfl
  have hoperation : (Selector.value (.str r.operation.name)).operation? = some r.operation :=
    r.operation.ofName?_name
  have hcontent : (Selector.value (.str r.kind.name)).kind? = some r.kind := r.kind.ofName?_name
  rw [Request.ofMessage, hdata, htype, hkind]
  simp only [bind, Except.bind, hoperation, hcontent]
  rfl

namespace Outcome

variable {α β γ : Type}

/-- An outcome is put together again from its parts. -/
theorem ofParts_parts (o : Outcome α) :
    ofParts o.success o.output? o.errorMessage? o.elapsedMillis o.errorType = .ok o := by
  have htime : ¬((o.elapsedMillis : Int) < 0) := Int.not_lt.mpr (Int.natCast_nonneg _)
  obtain ⟨ending, elapsed, errorType⟩ := o
  cases ending <;> simp [ofParts, success, output?, errorMessage?] at htime ⊢ <;> rfl

/-- Values that can be taken back are taken back in each part of an outcome. -/
theorem map_map_of_inverse {f : α → β} {g : β → α} (h : ∀ a, g (f a) = a) (o : Outcome α) :
    (o.map f).map g = o := by
  obtain ⟨ending, elapsed, errorType⟩ := o
  cases ending <;> cases errorType <;> simp [map, h]

/-- The output of an outcome is put through the function. -/
theorem output?_map (f : α → β) (o : Outcome α) : (o.map f).output? = o.output?.map f := by
  rw [output?, output?, map]
  cases o.ending <;> rfl

/-- The message of an outcome is put through the function. -/
theorem errorMessage?_map (f : α → β) (o : Outcome α) :
    (o.map f).errorMessage? = o.errorMessage?.map f := by
  rw [errorMessage?, errorMessage?, map]
  cases o.ending <;> rfl

/-- A text in a message is read as the text, and what is missing as missing. -/
theorem valueOf?_map_str (t : Option Text) :
    valueOf? ((t.map Json.str).getD .null) = t.map Json.str := by
  cases t <;> rfl

/-- The outcome of an execution is read from its message. -/
theorem ofMessage_toMessage [Platform] (o : Outcome Text) :
    ofMessage (o.map Json.str).toMessage = .ok (o.map Json.str) := by
  have hsuccess : (o.map Json.str).toMessage.need "success" =
      .ok (.bool (o.map Json.str).success) := rfl
  have htime : Json.member? "processingTime" (o.map Json.str).toMessage =
      some (.int (o.map Json.str).elapsedMillis) := rfl
  have hresult : valueOf? ((o.map Json.str).toMessage.optional "result") =
      (o.map Json.str).output? := by
    rw [output?_map, ← valueOf?_map_str, ← output?_map]
    rfl
  have hmessage : valueOf? ((o.map Json.str).toMessage.optional "error") =
      (o.map Json.str).errorMessage? := by
    rw [errorMessage?_map, ← valueOf?_map_str, ← errorMessage?_map]
    rfl
  have htype : valueOf? ((o.map Json.str).toMessage.optional "errorType") =
      (o.map Json.str).errorType := valueOf?_map_str o.errorType
  rw [ofMessage, hsuccess, htime, hresult, hmessage, htype]
  simp only [bind, Except.bind, integerOf, Json.isTrue, ofParts_parts]
  rfl

end Outcome

/-- What succeeds is left as it is where failures are put in other words. -/
@[simp] theorem mapError_ok {ε ε' α : Type} (f : ε → ε') (a : α) :
    (Except.ok a).mapError f = .ok a := rfl

/-- What fails fails in other words. -/
@[simp] theorem mapError_error {ε ε' α : Type} (f : ε → ε') (e : ε) :
    (Except.error e : Except ε α).mapError f = .error (f e) := rfl

/-- An acquired context gives a request the outcome that it has in place. -/
theorem Context.submit_of_active [Platform] {c : Context} (h : c.active = true) (r : Request) :
    c.submit r = .ok (execute c.config r) := by
  rw [submit, if_pos h, answer, Request.ofMessage_toMessage]
  simp only [Except.map, mapError_ok, bind, Except.bind, Outcome.ofMessage_toMessage]
  exact congrArg Except.ok (Outcome.map_map_of_inverse (fun _ => rfl) _)

end Service

end SourcePress
