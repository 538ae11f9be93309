import SourcePress.Proofs.Repair.Closed

/-!
# The three shapes of a lexeme

A lexeme of a text is a live code point alone, a word of key characters or a construct. What the
rules of repair ask of a lexeme is settled by its shape.
-/

namespace SourcePress.Repair

open Lexis

/-- The shapes that lexemes have. -/
inductive Shape [Alphabet] : Lexeme → Prop
  /-- A live code point that is no key character. -/
  | point {c : CodePoint} (hkey : isKeyPoint c = false) : Shape [live c]
  /-- A word. -/
  | word {w : Text} (hne : w ≠ []) (hkey : ∀ c ∈ w, isKeyPoint c) : Shape (w.map live)
  /-- A string literal or a comment. -/
  | construct {r : Region} {c : CodePoint} {t : Text} (hr : r ≠ .code) :
    Shape (r.construct (c :: t))

/-- Each lexeme of a lexed sequence has a shape. -/
theorem Lexed.shape [Alphabet] {e : Bool} {ls : List Lexeme} (h : Lexed e ls) : ∀ l ∈ ls, Shape l := by
  induction h with
  | nil => simp
  | point hkey _ _ ih => exact List.forall_mem_cons.mpr ⟨.point hkey, ih⟩
  | word hne hkey _ _ ih => exact List.forall_mem_cons.mpr ⟨.word hne hkey, ih⟩
  | literal _ _ ih => exact List.forall_mem_cons.mpr ⟨.construct (by simp), ih⟩
  | line _ _ _ ih => exact List.forall_mem_cons.mpr ⟨.construct (by simp), ih⟩
  | block _ _ ih => exact List.forall_mem_cons.mpr ⟨.construct (by simp), ih⟩
  | unclosedLiteral => exact List.forall_mem_cons.mpr ⟨.construct (by simp), by simp⟩
  | unclosedBlock => exact List.forall_mem_cons.mpr ⟨.construct (by simp), by simp⟩

/-- The two classes of blanks that the rules pass over. -/
def IsBlankClass (blank : CodePoint → Bool) : Prop :=
  blank = CodePoint.isSpacing ∨ blank = CodePoint.isBlank

/-- What is blank for a rule is blank. -/
theorem IsBlankClass.isBlank {blank : CodePoint → Bool} (h : IsBlankClass blank) {c : CodePoint}
    (hc : blank c) : c.isBlank := by
  rcases h with rfl | rfl
  · exact CodePoint.isBlank_of_isSpacing hc
  · exact hc

/-- Spacing is blank for a rule. -/
theorem IsBlankClass.of_isSpacing {blank : CodePoint → Bool} (h : IsBlankClass blank)
    {c : CodePoint} (hc : c.isSpacing) : blank c := by
  rcases h with rfl | rfl
  · exact hc
  · exact CodePoint.isBlank_of_isSpacing hc

/-- What is not blank is blank for no rule. -/
theorem IsBlankClass.eq_false {blank : CodePoint → Bool} (h : IsBlankClass blank) {c : CodePoint}
    (hc : c.isBlank = false) : blank c = false := by
  refine Bool.eq_false_of_not_eq_true fun hb => ?_
  rw [h.isBlank hb] at hc
  cases hc

/-- No key character is blank for a rule. -/
theorem IsBlankClass.eq_false_of_isKeyPoint [Alphabet] {blank : CodePoint → Bool} (h : IsBlankClass blank)
    {c : CodePoint} (hc : isKeyPoint c) : blank c = false := by
  refine Bool.eq_false_of_not_eq_true fun hb => ?_
  rw [isKeyPoint_of_isBlank (h.isBlank hb)] at hc
  cases hc

namespace Lexeme

@[simp] theorem isBlank_point (blank : CodePoint → Bool) (c : CodePoint) :
    isBlank blank [live c] = blank c := rfl

@[simp] theorem front?_point (c : CodePoint) : front? [live c] = some c := rfl

@[simp] theorem back?_point (c : CodePoint) : back? [live c] = some c := rfl

@[simp] theorem isWord_point [Alphabet] (c : CodePoint) : isWord [live c] = isKeyPoint c := rfl

@[simp] theorem isSingleQuoted_point (c : CodePoint) : isSingleQuoted [live c] = false := rfl

@[simp] theorem front?_word (w : Text) : front? (w.map live) = w.head? := by
  cases w with
  | nil => rfl
  | cons c w => rfl

@[simp] theorem back?_word (w : Text) : back? (w.map live) = w.getLast? := by
  rw [back?, List.getLast?_map]
  cases w.getLast? <;> rfl

@[simp] theorem isSingleQuoted_word (w : Text) : isSingleQuoted (w.map live) = false := by
  cases w with
  | nil => rfl
  | cons c w => rfl

/-- A run of key characters is a word. -/
theorem isWord_word [Alphabet] {w : Text} (hne : w ≠ []) (hkey : ∀ c ∈ w, isKeyPoint c) :
    isWord (w.map live) = true := by
  obtain ⟨c, w, rfl⟩ := List.exists_cons_of_ne_nil hne
  exact hkey c List.mem_cons_self

/-- No word is blank. -/
theorem isBlank_word [Alphabet] {blank : CodePoint → Bool} (hblank : IsBlankClass blank) {w : Text}
    (hkey : ∀ c ∈ w, isKeyPoint c) : isBlank blank (w.map live) = false := by
  cases w with
  | nil => rfl
  | cons c w =>
    cases w with
    | nil => exact hblank.eq_false_of_isKeyPoint (hkey c List.mem_cons_self)
    | cons d w => rfl

/-- A mark outside live code has no live code point. -/
theorem live?_eq_none {m : Mark} (h : m.region ≠ .code) : m.live? = none := by
  rw [Mark.live?, if_neg]
  cases hm : m.region with
  | code => exact absurd hm h
  | _ => simp [Mark.isLive, hm, Region.isLive]

/-- No construct is live at its front. -/
theorem front?_construct {r : Region} (hr : r ≠ .code) (t : Text) :
    front? (r.construct t) = none := by
  cases t with
  | nil => rfl
  | cons c t => exact live?_eq_none hr

/-- No construct is live at its back. -/
theorem back?_construct {r : Region} (hr : r ≠ .code) (t : Text) :
    back? (r.construct t) = none := by
  rw [back?]
  cases hlast : (r.construct t).getLast? with
  | none => rfl
  | some m =>
    have hm := List.mem_of_getLast? hlast
    refine live?_eq_none fun hcode => hr ?_
    cases t with
    | nil => simp [Region.construct] at hm
    | cons c t =>
      have hregion : m.region = r := by
        rcases List.mem_cons.mp hm with rfl | hm
        · rfl
        · obtain ⟨_, _, rfl⟩ := List.mem_map.mp hm
          rfl
      rw [← hregion, hcode]

/-- No construct is blank. -/
theorem isBlank_construct (blank : CodePoint → Bool) {r : Region} (hr : r ≠ .code) (t : Text) :
    isBlank blank (r.construct t) = false := by
  cases t with
  | nil => rfl
  | cons c t =>
    cases t with
    | nil => cases r <;> simp_all [Region.construct, isBlank, Mark.isLive, Region.isLive]
    | cons d t => rfl

/-- No construct is a word. -/
theorem isWord_construct [Alphabet] {r : Region} (hr : r ≠ .code) (t : Text) :
    isWord (r.construct t) = false := by
  cases t with
  | nil => rfl
  | cons c t =>
    cases r <;> simp_all [Region.construct, isWord, isKeyMark, Mark.isLive, Region.isLive]

end Lexeme

end SourcePress.Repair
