import Mathlib.Tactic
import SourcePress.Repair.Lexeme

/-!
# What key characters are not

Of ASCII the key characters are the letters, the digits, the low line and the dollar sign, whatever
the alphabet. So no control character, no quote and no mark of punctuation is one; and no blank is
one either.
-/

namespace SourcePress

/-- Different code points have different numbers. -/
theorem CodePoint.value_injective : Function.Injective CodePoint.value := by
  intro c d h
  have hrange : ∀ e : Char, ¬(0xD800 ≤ e.toNat ∧ e.toNat < 0xE000) := by
    intro e he
    have hv := e.valid
    simp only [UInt32.isValidChar, Nat.isValidChar] at hv
    change e.toNat < _ ∨ _ < e.toNat ∧ _ at hv
    omega
  cases c with
  | scalar c =>
    cases d with
    | scalar d => exact congrArg _ (Char.toNat_inj.mp h)
    | surrogate s =>
      have hs := s.isLt
      simp only [CodePoint.value] at h
      exact absurd ⟨by omega, by omega⟩ (hrange c)
  | surrogate s =>
    cases d with
    | scalar d =>
      have hs := s.isLt
      simp only [CodePoint.value] at h
      exact absurd ⟨by omega, by omega⟩ (hrange d)
    | surrogate s' =>
      simp only [CodePoint.value, Nat.add_left_cancel_iff] at h
      exact congrArg _ (Fin.ext h)

namespace Repair

/-- True of the key characters of ASCII. -/
def isAsciiKey (c : CodePoint) : Bool := c.isAsciiLetter || c.isAsciiDigit || c = '_' || c = '$'

/-- True of the other code points of ASCII. -/
def isAsciiMark (c : CodePoint) : Bool := c.value < 0x80 && !isAsciiKey c

variable [Alphabet] {c : CodePoint}

/-- In ASCII the key characters are the letters, the digits, the low line and the dollar sign. -/
theorem isKeyPoint_of_ascii (h : c.value < 0x80) : isKeyPoint c = isAsciiKey c := by
  rw [isKeyPoint, isAsciiKey, CodePoint.isLetter, CodePoint.isNumber,
    Alphabet.isLetter_of_ascii h, Alphabet.isNumber_of_ascii h]

/-- The key characters of ASCII are key characters. -/
theorem isKeyPoint_of_isAsciiKey (h : isAsciiKey c) : isKeyPoint c := by
  have hascii : c.value < 0x80 := by
    simp only [isAsciiKey, CodePoint.isAsciiLetter, CodePoint.isAsciiDigit, Bool.or_eq_true,
      Bool.and_eq_true, decide_eq_true_eq] at h
    rcases h with ((h | h) | rfl) | rfl
    · omega
    · omega
    · decide
    · decide
  rwa [isKeyPoint_of_ascii hascii]

/-- No mark of ASCII is a key character. -/
theorem isKeyPoint_of_isAsciiMark (h : isAsciiMark c) : isKeyPoint c = false := by
  rw [isAsciiMark, Bool.and_eq_true, decide_eq_true_eq, Bool.not_eq_true'] at h
  rw [isKeyPoint_of_ascii h.1, h.2]

/-- Nothing that is not seen is a key character. -/
theorem isKeyPoint_of_isUnseen (h : c.isUnseen) : isKeyPoint c = false := by
  have hunderscore : c ≠ '_' := fun hc => absurd h (by rw [hc]; decide)
  have hdollar : c ≠ '$' := fun hc => absurd h (by rw [hc]; decide)
  simp [isKeyPoint, CodePoint.isLetter, CodePoint.isNumber, Alphabet.isLetter_of_isUnseen h,
    Alphabet.isNumber_of_isUnseen h, hunderscore, hdollar]

/-- No blank is a key character. -/
theorem isKeyPoint_of_isBlank (h : c.isBlank) : isKeyPoint c = false :=
  isKeyPoint_of_isUnseen (by rw [CodePoint.isUnseen, h, Bool.true_or])

/-- Key characters come behind the control characters. -/
theorem lt_value_of_isKeyPoint (h : isKeyPoint c) : 0x1F < c.value := by
  by_contra hc
  have hkey : isAsciiKey c = false := by
    have hunderscore : c ≠ '_' := fun hv => hc (by rw [hv]; decide)
    have hdollar : c ≠ '$' := fun hv => hc (by rw [hv]; decide)
    simp only [isAsciiKey, CodePoint.isAsciiLetter, CodePoint.isAsciiDigit, hunderscore, hdollar,
      decide_false, Bool.or_false, Bool.or_eq_false_iff, Bool.and_eq_false_iff,
      decide_eq_false_iff_not]
    omega
  rw [isKeyPoint_of_ascii (by omega), hkey] at h
  cases h

/-- What is no key character begins no name. -/
theorem isNameStart_of_isKeyPoint_eq_false (h : isKeyPoint c = false) : isNameStart c = false := by
  simp only [isKeyPoint, Bool.or_eq_false_iff] at h
  simp [isNameStart, h]

/-- No digit of ASCII begins a name. -/
theorem isNameStart_of_isAsciiDigit (h : c.isAsciiDigit) : isNameStart c = false := by
  have hunderscore : c ≠ '_' := fun hc => absurd h (by rw [hc]; decide)
  have hdollar : c ≠ '$' := fun hc => absurd h (by rw [hc]; decide)
  simp only [CodePoint.isAsciiDigit, Bool.and_eq_true, decide_eq_true_eq] at h
  have hletter : c.isAsciiLetter = false := by
    simp only [CodePoint.isAsciiLetter, Bool.or_eq_false_iff, Bool.and_eq_false_iff,
      decide_eq_false_iff_not]
    omega
  simp [isNameStart, CodePoint.isLetter, Alphabet.isLetter_of_ascii (c := c) (by omega), hletter,
    hunderscore, hdollar]

/-- A key character is none of the other code points. -/
theorem ne_of_isKeyPoint_eq_false {d : CodePoint} (h : isKeyPoint c) (hd : isKeyPoint d = false) :
    c ≠ d := by
  rintro rfl
  rw [h] at hd
  cases hd

/-- A key character is none of the code points that the rules of repair and the scan look for. -/
theorem ne_of_isKeyPoint {d : CodePoint} (h : isKeyPoint c) (hd : isAsciiMark d) : c ≠ d :=
  ne_of_isKeyPoint_eq_false h (isKeyPoint_of_isAsciiMark hd)

end Repair

end SourcePress
