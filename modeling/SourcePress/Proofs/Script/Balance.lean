import SourcePress.Proofs.Lexis.Reading
import SourcePress.Script.Balance

/-!
# Balanced code

Code is valid if its brackets, read one by one, leave none open and never close one that is not
the last open bracket of its kind, and if no string literal or block comment is left open. Blanks
have no part in this, so code is valid by its tokens alone.
-/

namespace SourcePress.Script

open Lexis

/-- The open brackets behind a code point; none if it closes a bracket that is not the last open
one. -/
def Bracket.step? (stack : List Bracket) (c : CodePoint) : Option (List Bracket) :=
  match Bracket.opened? c, Bracket.closed? c, stack with
  | some b, _, _ => some (b :: stack)
  | none, none, _ => some stack
  | none, some _, [] => none
  | none, some b, partner :: stack => if partner = b then some stack else none

/-- True if the brackets of a text close the open ones, the last one first, and leave none open. -/
def closesAll (stack : List Bracket) (t : Text) : Bool := t.foldlM Bracket.step? stack = some []

/-- Brackets are closed one code point after the other. -/
theorem closesAll_cons (stack : List Bracket) (c : CodePoint) (t : Text) :
    closesAll stack (c :: t) = (Bracket.step? stack c).any fun stack => closesAll stack t := by
  rw [closesAll, List.foldlM_cons]
  cases Bracket.step? stack c <;> rfl

/-- True of the six brackets. -/
def isBracket (c : CodePoint) : Bool :=
  (['(', ')', '[', ']', '{', '}'] : Text).contains c

/-- What is no bracket opens and closes nothing. -/
theorem Bracket.step?_of_not_isBracket {c : CodePoint} (hc : isBracket c = false)
    (stack : List Bracket) : Bracket.step? stack c = some stack := by
  have hopened : Bracket.opened? c = none := by
    refine Option.eq_none_iff_forall_ne_some.mpr fun b hb => ?_
    have hopener : b.opener = c := by simpa using List.find?_some hb
    rw [← hopener] at hc
    cases b <;> revert hc <;> decide
  have hclosed : Bracket.closed? c = none := by
    refine Option.eq_none_iff_forall_ne_some.mpr fun b hb => ?_
    have hcloser : b.closer = c := by simpa using List.find?_some hb
    rw [← hcloser] at hc
    cases b <;> revert hc <;> decide
  unfold Bracket.step?
  rw [hopened, hclosed]

/-- No bracket is blank. -/
theorem isBlank_of_isBracket {c : CodePoint} (hc : isBracket c = true) : c.isBlank = false := by
  simp only [isBracket, List.contains_eq_mem, List.mem_cons, List.not_mem_nil, or_false,
    decide_eq_true_eq] at hc
  rcases hc with rfl | rfl | rfl | rfl | rfl | rfl <;> decide

/-- Only brackets open and close anything, so all else may be left out. -/
theorem closesAll_filter {p : CodePoint → Bool} (hp : ∀ c, isBracket c = true → p c = true)
    (stack : List Bracket) (t : Text) : closesAll stack (t.filter p) = closesAll stack t := by
  induction t generalizing stack with
  | nil => rfl
  | cons c t ih =>
    cases hc : p c with
    | true =>
      rw [List.filter_cons_of_pos hc, closesAll_cons, closesAll_cons]
      simp only [ih]
    | false =>
      have hbracket : isBracket c = false :=
        Bool.eq_false_iff.mpr fun h => by simp [hp c h] at hc
      rw [List.filter_cons_of_neg (by simp [hc]), ih, closesAll_cons,
        Bracket.step?_of_not_isBracket hbracket, Option.any_some]

/-- Marks are in balance if their live code points close all brackets. -/
theorem imbalancesFrom_eq_nil_iff (code : Text) (stack : List (Bracket × Nat)) (offset : Nat)
    (ms : List Mark) :
    imbalancesFrom code stack offset ms = [] ↔
      closesAll (stack.map Prod.fst) (ms.filterMap Mark.live?) = true := by
  induction ms generalizing stack offset with
  | nil => simp [imbalancesFrom, closesAll]
  | cons m ms ih =>
    simp only [imbalancesFrom]
    cases hm : m.live? with
    | none =>
      rw [List.filterMap_cons_none hm]
      exact ih stack (offset + 1)
    | some c =>
      rw [List.filterMap_cons_some hm, closesAll_cons, Option.bind_some, Option.bind_some]
      unfold Bracket.step?
      cases Bracket.opened? c with
      | some b => exact ih ((b, offset) :: stack) (offset + 1)
      | none =>
        cases Bracket.closed? c with
        | none => exact ih stack (offset + 1)
        | some b =>
          cases stack with
          | nil => simp
          | cons top stack =>
            by_cases htop : top.1 = b
            · simp [htop, ih]
            · simp [htop]

/-- A code leaves no literal and no block comment open if it is terminated. -/
theorem unterminated_eq_nil_iff (code : Text) :
    unterminated code = [] ↔ isTerminated code = true := by
  rw [unterminated]
  split
  · next h => simp [h]
  · next h =>
    rw [Bool.not_eq_true] at h
    obtain ⟨s, hs, hunclosed⟩ := (isTerminated_eq_false_iff code).mp h
    have hopen : openStart? code = some s.start :=
      (openStart?_eq_some_iff code s.start).mpr ⟨s, hs, .inl hunclosed, rfl⟩
    simp [hopen, h]

/-- Code is valid if its significant code points close all brackets and it is terminated. -/
theorem validate_eq_ok_iff (code : Text) :
    validate code = .ok validMessage ↔
      closesAll [] (Repair.significant code) = true ∧ isTerminated code = true := by
  have hbrackets := imbalancesFrom_eq_nil_iff code [] 0 (scan code)
  rw [List.map_nil] at hbrackets
  rw [Repair.significant, closesAll_filter fun c hc => by simp [isBlank_of_isBracket hc],
    ← unterminated_eq_nil_iff, ← hbrackets, ← List.append_eq_nil_iff, ← imbalances, validate]
  split
  · next h => exact iff_of_true rfl h
  · next records h => exact iff_of_false (by simp) h

/-- Two codes with the same tokens are both valid or both not. -/
theorem validate_congr {code code' : Text} (h : tokens code' = tokens code) :
    validate code' = .ok validMessage ↔ validate code = .ok validMessage := by
  rw [validate_eq_ok_iff, validate_eq_ok_iff, significant_eq_tokens, significant_eq_tokens,
    isTerminated_eq, isTerminated_eq, h]

end SourcePress.Script
