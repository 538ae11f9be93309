import SourcePress.Proofs.Script.Balance

/-!
# Balanced words of brackets

A word of brackets is balanced if it is empty, or if it begins with an opening bracket, goes on
with a balanced word and the closing bracket of the same kind, and ends with a balanced word. Code
is valid exactly if the word of its live brackets is balanced and no string literal or block
comment is left open; else it is refused with at least one record.
-/

namespace SourcePress.Script

open Lexis

/-- The balanced words of brackets. -/
inductive IsBalanced : Text → Prop
  /-- The empty word is balanced. -/
  | nil : IsBalanced []
  /-- Two brackets of one kind stand around a balanced word and before another. -/
  | pair (b : Bracket) {inner rest : Text} (hinner : IsBalanced inner)
      (hrest : IsBalanced rest) : IsBalanced (b.opener :: (inner ++ b.closer :: rest))

/-- The words that close open brackets, the last one first: a balanced word stands before each
closing bracket and behind the last of them. -/
inductive ClosesWord : List Bracket → Text → Prop
  /-- Where no bracket is open, a balanced word follows. -/
  | nil {word : Text} (hword : IsBalanced word) : ClosesWord [] word
  /-- The last open bracket is closed behind a balanced word. -/
  | close (b : Bracket) {stack : List Bracket} {word rest : Text} (hword : IsBalanced word)
      (hrest : ClosesWord stack rest) : ClosesWord (b :: stack) (word ++ b.closer :: rest)

/-- The live brackets of a code in their order. -/
def liveBrackets (code : Text) : Text := ((scan code).filterMap Mark.live?).filter isBracket

namespace Bracket

/-- An opening bracket is open from then on. -/
theorem step?_opener (b : Bracket) (stack : List Bracket) :
    step? stack b.opener = some (b :: stack) := by
  cases b <;> rfl

/-- A closing bracket closes the last open one of its kind. -/
theorem step?_closer (b : Bracket) (stack : List Bracket) :
    step? (b :: stack) b.closer = some stack := by
  cases b <;> rfl

/-- What a bracket can do: it opens its kind, or it closes the last open bracket, which is of its
kind. -/
theorem step?_cases {c : CodePoint} (hc : isBracket c = true) {stack stack' : List Bracket}
    (h : step? stack c = some stack') :
    (∃ b, c = b.opener ∧ stack' = b :: stack) ∨ ∃ b, c = b.closer ∧ stack = b :: stack' := by
  have hkind : (∃ b : Bracket, c = b.opener) ∨ ∃ b : Bracket, c = b.closer := by
    simp only [isBracket, List.contains_eq_mem, List.mem_cons, List.not_mem_nil, or_false,
      decide_eq_true_eq] at hc
    rcases hc with rfl | rfl | rfl | rfl | rfl | rfl
    · exact .inl ⟨round, rfl⟩
    · exact .inr ⟨round, rfl⟩
    · exact .inl ⟨square, rfl⟩
    · exact .inr ⟨square, rfl⟩
    · exact .inl ⟨curly, rfl⟩
    · exact .inr ⟨curly, rfl⟩
  rcases hkind with ⟨b, rfl⟩ | ⟨b, rfl⟩
  · rw [step?_opener] at h
    exact .inl ⟨b, rfl, (Option.some.inj h).symm⟩
  · refine .inr ⟨b, rfl, ?_⟩
    have hopened : opened? b.closer = none := by cases b <;> rfl
    have hclosed : closed? b.closer = some b := by cases b <;> rfl
    unfold step? at h
    rw [hopened, hclosed] at h
    cases stack with
    | nil => cases h
    | cons partner stack =>
      dsimp only at h
      split at h
      · next hpartner => rw [hpartner, Option.some.inj h]
      · cases h

end Bracket

/-- A balanced word leaves open what was open before it. -/
theorem IsBalanced.closesAll_append {word : Text} (h : IsBalanced word) (stack : List Bracket)
    (rest : Text) : closesAll stack (word ++ rest) = closesAll stack rest := by
  induction h generalizing stack rest with
  | nil => rfl
  | @pair b inner after _ _ hinner hafter =>
    have hshape : b.opener :: (inner ++ b.closer :: after) ++ rest =
        b.opener :: (inner ++ b.closer :: (after ++ rest)) := by simp
    rw [hshape, closesAll_cons, Bracket.step?_opener, Option.any_some, hinner, closesAll_cons,
      Bracket.step?_closer, Option.any_some, hafter]

/-- An opening bracket in front of what closes it makes a word that closes the others. -/
theorem ClosesWord.cons_opener {b : Bracket} {stack : List Bracket} {t : Text}
    (h : ClosesWord (b :: stack) t) : ClosesWord stack (b.opener :: t) := by
  cases h with
  | close _ hword hrest =>
    cases hrest with
    | nil hafter => exact .nil (.pair b hword hafter)
    | @close b' stack after rest hafter hrest =>
      have hclose := ClosesWord.close b' (.pair b hword hafter) hrest
      simpa using hclose

/-- Brackets that close all open ones, the last one first, are balanced words between them. -/
theorem closesWord_of_closesAll {stack : List Bracket} {t : Text}
    (ht : ∀ c ∈ t, isBracket c = true) (h : closesAll stack t = true) : ClosesWord stack t := by
  induction t generalizing stack with
  | nil =>
    have hnil : stack = [] := by simpa [closesAll] using h
    rw [hnil]
    exact .nil .nil
  | cons c t ih =>
    obtain ⟨hc, ht⟩ := List.forall_mem_cons.mp ht
    rw [closesAll_cons, Option.any_eq_true] at h
    obtain ⟨stack', hstep, hrest⟩ := h
    have hword := ih ht hrest
    rcases Bracket.step?_cases hc hstep with ⟨b, rfl, rfl⟩ | ⟨b, rfl, rfl⟩
    · exact hword.cons_opener
    · exact .close b .nil hword

/-- Brackets close each other and leave none open if their word is balanced. -/
theorem closesAll_nil_iff {t : Text} (ht : ∀ c ∈ t, isBracket c = true) :
    closesAll [] t = true ↔ IsBalanced t := by
  constructor
  · intro h
    cases closesWord_of_closesAll ht h with
    | nil hword => exact hword
  · intro h
    have happend := h.closesAll_append [] []
    rw [List.append_nil] at happend
    rw [happend]
    rfl

/-- Validation decides balance: code is valid if the word of its live brackets is balanced and the
scan ends inside no string literal and no block comment, and all other code is refused with at
least one record. -/
theorem validate_decides_balance (code : Text) :
    (validate code = .ok validMessage ↔
      IsBalanced (liveBrackets code) ∧ isTerminated code = true) ∧
      ((∃ r records, validate code = .error (.problem (.unbalanced (r :: records)))) ↔
        ¬(IsBalanced (liveBrackets code) ∧ isTerminated code = true)) := by
  have hbrackets : ∀ c ∈ liveBrackets code, isBracket c = true := fun c hc =>
    (List.mem_filter.mp hc).2
  have hvalid : validate code = .ok validMessage ↔
      IsBalanced (liveBrackets code) ∧ isTerminated code = true := by
    rw [validate_eq_ok_iff, ← closesAll_nil_iff hbrackets, liveBrackets, Repair.significant,
      closesAll_filter fun c hc => by simp [isBlank_of_isBracket hc],
      closesAll_filter fun _ hc => hc]
  refine ⟨hvalid, ?_⟩
  rw [← hvalid, validate]
  cases imbalances code with
  | nil => simp
  | cons r records => simp

example : validate "f([\x7b\x7d], ')') // ]" = .ok validMessage := by rfl

end SourcePress.Script
