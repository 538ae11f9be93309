import Mathlib.Tactic
import SourcePress.Request.Selector

/-!
# Which selectors can be spelled

A value is spelled for a message if no integer in it has too many digits and no more values lie
inside each other than the platform follows. A kind or an operation itself is always spelled, and so
is every name.
-/

namespace SourcePress

namespace Json

/-- The values that can be spelled where at most so many values may lie inside each other. -/
inductive Spellable : Nat → Json → Prop
  /-- The null value. -/
  | null {n : Nat} : Spellable (n + 1) .null
  /-- The truth values. -/
  | bool {n : Nat} (b : Bool) : Spellable (n + 1) (.bool b)
  /-- The integers within the limit of digits. -/
  | int {n : Nat} {i : Int} (h : i.natAbs < 10 ^ maxIntegerDigits) : Spellable (n + 1) (.int i)
  /-- The numbers of the binary64 format. -/
  | float {n : Nat} (x : Binary64) : Spellable (n + 1) (.float x)
  /-- The strings. -/
  | str {n : Nat} (t : Text) : Spellable (n + 1) (.str t)
  /-- The arrays of such values. -/
  | arr {n : Nat} {vs : List Json} (h : ∀ v ∈ vs, Spellable n v) : Spellable (n + 1) (.arr vs)
  /-- The objects of such values. -/
  | obj {n : Nat} {ms : List (Text × Json)} (h : ∀ m ∈ ms, Spellable n m.2) :
    Spellable (n + 1) (.obj ms)

variable [Alphabet]

/-- The items of an array are spelled if each of them is. -/
theorem exists_spelledItems_iff {n : Nat} {vs : List Json} :
    (∃ texts, spelledItems n vs = .ok texts) ↔ ∀ v ∈ vs, ∃ t, spelledWithin n v = .ok t := by
  induction vs with
  | nil => simp [spelledItems]
  | cons v vs ih =>
    rw [List.forall_mem_cons, ← ih, spelledItems]
    cases spelledWithin n v <;> cases spelledItems n vs <;>
      simp [bind, Except.bind, pure, Except.pure]

/-- The members of an object are spelled if the value of each of them is. -/
theorem exists_spelledMembers_iff {n : Nat} {ms : List (Text × Json)} :
    (∃ texts, spelledMembers n ms = .ok texts) ↔ ∀ m ∈ ms, ∃ t, spelledWithin n m.2 = .ok t := by
  induction ms with
  | nil => simp [spelledMembers]
  | cons m ms ih =>
    rw [List.forall_mem_cons, ← ih, spelledMembers]
    cases spelledWithin n m.2 <;> cases spelledMembers n ms <;>
      simp [bind, Except.bind, pure, Except.pure]

/-- An integer is spelled exactly if it has not too many digits. -/
theorem spelledWithin_int (n : Nat) (i : Int) : spelledWithin (n + 1) (.int i) =
    if i.natAbs < 10 ^ maxIntegerDigits then .ok (Text.ofInt i) else .error .integerTooLong := by
  have hpow : ∀ m : Nat, Nat.pow 10 m = 10 ^ m := fun _ => rfl
  rw [spelledWithin, hpow]

/-- Exactly the values that can be spelled are. -/
theorem exists_spelledWithin_iff {n : Nat} {v : Json} :
    (∃ t, spelledWithin n v = .ok t) ↔ Spellable n v := by
  induction n generalizing v with
  | zero =>
    refine iff_of_false ?_ nofun
    rw [spelledWithin]
    exact nofun
  | succ n ih =>
    cases v with
    | null => exact iff_of_true ⟨_, by rw [spelledWithin]⟩ .null
    | bool b => cases b <;> exact iff_of_true ⟨_, by rw [spelledWithin]⟩ (.bool _)
    | float x => exact iff_of_true ⟨_, by rw [spelledWithin]⟩ (.float x)
    | str t => exact iff_of_true ⟨_, by rw [spelledWithin]⟩ (.str t)
    | int i =>
      rw [spelledWithin_int]
      split
      · next h => exact iff_of_true ⟨_, rfl⟩ (.int h)
      · next h =>
        refine iff_of_false nofun fun hspell => ?_
        cases hspell with
        | int hi => exact h hi
    | arr vs =>
      rw [spelledWithin, exists_map_eq_ok_iff, exists_spelledItems_iff]
      constructor
      · exact fun h => .arr fun v hv => ih.mp (h v hv)
      · rintro ⟨⟩
        next h => exact fun v hv => ih.mpr (h v hv)
    | obj ms =>
      rw [spelledWithin, exists_map_eq_ok_iff, exists_spelledMembers_iff]
      constructor
      · exact fun h => .obj fun m hm => ih.mp (h m hm)
      · rintro ⟨⟩
        next h => exact fun m hm => ih.mpr (h m hm)

end Json

namespace Selector

variable [Platform]

/-- True of the selectors that can be spelled for a message. -/
def IsSpelled : Selector → Prop
  | kind _ | operation _ => True
  | value v => v.Spellable (Platform.maxSpelledDepth + 1)

/-- Exactly the selectors that can be spelled are. -/
theorem exists_spelled_iff {s : Selector} : (∃ t, s.spelled = .ok t) ↔ s.IsSpelled := by
  cases s with
  | kind k => exact iff_of_true ⟨_, rfl⟩ trivial
  | operation o => exact iff_of_true ⟨_, rfl⟩ trivial
  | value v => exact Json.exists_spelledWithin_iff

/-- Exactly the selectors that can be spelled have a text. -/
theorem exists_text_iff {s : Selector} : (∃ t, s.text = .ok t) ↔ s.IsSpelled := by
  cases s with
  | kind k => exact iff_of_true ⟨_, rfl⟩ trivial
  | operation o => exact iff_of_true ⟨_, rfl⟩ trivial
  | value v =>
    cases v with
    | str t => exact iff_of_true ⟨_, rfl⟩ (.str t)
    | _ => exact Json.exists_spelledWithin_iff

/-- What selects a kind can be spelled. -/
theorem isSpelled_of_kind? {s : Selector} {k : ContentKind} (h : s.kind? = some k) :
    s.IsSpelled := by
  cases s with
  | kind k => trivial
  | operation o => trivial
  | value v =>
    cases v with
    | str t => exact .str t
    | _ => cases h

/-- What selects an operation can be spelled. -/
theorem isSpelled_of_operation? {s : Selector} {o : Operation} (h : s.operation? = some o) :
    s.IsSpelled := by
  cases s with
  | kind k => trivial
  | operation o => trivial
  | value v =>
    cases v with
    | str t => exact .str t
    | _ => cases h

end Selector

end SourcePress
