/-!
# Results

What may fail results in a value or in a failure. A result of several parts is a value if all its
parts are, and else the failure of the first part that fails.
-/

namespace SourcePress

variable {ε α β : Type} {x : Except ε α}

/-- A value that is changed afterwards was a value before. -/
theorem exists_of_map_eq_ok {f : α → β} {b : β} (h : x.map f = .ok b) :
    ∃ a, x = .ok a ∧ f a = b := by
  cases x with
  | ok a => exact ⟨a, rfl, Except.ok.inj h⟩
  | error => cases h

/-- There is a value if there was one before it was changed. -/
theorem exists_map_eq_ok_iff {f : α → β} : (∃ b, x.map f = .ok b) ↔ ∃ a, x = .ok a := by
  cases x with
  | ok a => exact iff_of_true ⟨f a, rfl⟩ ⟨a, rfl⟩
  | error => exact iff_of_false nofun nofun

/-- What is changed afterwards fails as it did before. -/
theorem map_eq_error_iff {f : α → β} {e : ε} : x.map f = .error e ↔ x = .error e := by
  cases x with
  | ok a => exact iff_of_false nofun nofun
  | error => exact ⟨fun h => by cases h; rfl, fun h => by cases h; rfl⟩

/-- A value of two parts comes from a value of each. -/
theorem exists_of_bind_eq_ok {f : α → Except ε β} {b : β} (h : (x >>= f) = .ok b) :
    ∃ a, x = .ok a ∧ f a = .ok b := by
  cases x with
  | ok a => exact ⟨a, rfl, h⟩
  | error => cases h

/-- Of two parts the first one fails, or the second one behind a value. -/
theorem cases_of_bind_eq_error {f : α → Except ε β} {e : ε} (h : (x >>= f) = .error e) :
    x = .error e ∨ ∃ a, x = .ok a ∧ f a = .error e := by
  cases x with
  | ok a => exact .inr ⟨a, rfl, h⟩
  | error =>
    cases h
    exact .inl rfl

/-- What fails with the failure that may be given is a value if none is given. -/
theorem exists_eq_ok_iff {failure? : Option ε} (h : ∀ e, x = .error e ↔ failure? = some e) :
    (∃ a, x = .ok a) ↔ failure? = none := by
  cases x with
  | ok a =>
    have hnone : failure? = none := Option.eq_none_iff_forall_ne_some.mpr fun e he =>
      nomatch (h e).mpr he
    exact iff_of_true ⟨a, rfl⟩ hnone
  | error e =>
    rw [(h e).mp rfl]
    exact iff_of_false nofun nofun

end SourcePress
