import SourcePress.Proofs.Script.CompactMarks

/-!
# What compact code keeps and what it adds

Compact code has the kept characters of the code in their order and each of them once. All that it
adds is single spaces, each between two kept characters that were apart in the code and may not
stand side by side. A space takes the place of something that was left out, so compact code is not
larger than the code, and minified code is not larger than compact code.
-/

namespace SourcePress.Script

open Lexis

/-- True of a mark of a string literal, and of a live mark that is not blank. -/
def isKeptMark (m : Mark) : Bool := m.region.isString || (m.isLive && !m.point.isBlank)

/-- The kept ones of marks, each with its place, where the first mark has a given place. -/
def keptFrom (start : Nat) (ms : List Mark) : List (Mark × Nat) :=
  (ms.zipIdx start).filter fun m => isKeptMark m.1

/-- The kept marks of code, each with its place in the code. -/
def keptMarks (code : Text) : List (Mark × Nat) := keptFrom 0 (scan code)

/-- True of a code point and a mark that may not be brought side by side: two equal signs, the
second of them live, or two of which neither is punctuation. -/
def MayNotMeet (p : CodePoint) (m : Mark) : Prop :=
  (m.isLive = true ∧ p = m.point ∧ (p = .scalar '+' ∨ p = .scalar '-')) ∨
    (isPunctuation p = false ∧ ¬(m.isLive = true ∧ isPunctuation m.point = true))

/-- True of two marks with something in between that may not be brought side by side. -/
def NeedsGap (p m : Mark × Nat) : Prop := p.2 + 1 < m.2 ∧ MayNotMeet p.1.point m.1

/-- A character of compact code. -/
inductive Entry where
  /-- A kept mark of the code, with its place there. -/
  | kept (m : Mark × Nat)
  /-- A space that was put in. -/
  | space
  deriving DecidableEq

namespace Entry

/-- The code point of a character. -/
def point : Entry → CodePoint
  | kept m => m.1.point
  | space => .scalar ' '

/-- The mark of a kept character. -/
def kept? : Entry → Option (Mark × Nat)
  | kept m => some m
  | space => none

/-- True unless both characters are spaces that were put in. -/
def AreNotSpaces (a b : Entry) : Prop := ¬(a = space ∧ b = space)

end Entry

/-- Kept marks in their order, with one space between two neighbours that need a gap, and nothing
else. -/
inductive Spaced : List (Mark × Nat) → List Entry → Prop
  /-- Nothing is kept. -/
  | nil : Spaced [] []
  /-- The last one. -/
  | last (m : Mark × Nat) : Spaced [m] [.kept m]
  /-- One in front of a neighbour that it meets. -/
  | meeting {p m : Mark × Nat} {ms : List (Mark × Nat)} {es : List Entry} (hgap : ¬NeedsGap p m)
      (h : Spaced (m :: ms) es) : Spaced (p :: m :: ms) (.kept p :: es)
  /-- One in front of a space. -/
  | apart {p m : Mark × Nat} {ms : List (Mark × Nat)} {es : List Entry} (hgap : NeedsGap p m)
      (h : Spaced (m :: ms) es) : Spaced (p :: m :: ms) (.kept p :: .space :: es)

namespace Spaced

variable {ms : List (Mark × Nat)} {es : List Entry}

/-- Every mark is there once and in its order. -/
theorem filterMap_kept? (h : Spaced ms es) : es.filterMap Entry.kept? = ms := by
  induction h with
  | nil => rfl
  | last m => rfl
  | @meeting p m ms es _ _ ih =>
    have hp : (Entry.kept p).kept? = some p := rfl
    rw [List.filterMap_cons_some hp, ih]
  | @apart p m ms es _ _ ih =>
    have hp : (Entry.kept p).kept? = some p := rfl
    have hspace : Entry.space.kept? = none := rfl
    rw [List.filterMap_cons_some hp, List.filterMap_cons_none hspace, ih]

/-- The first mark is in front. -/
theorem exists_eq_cons {m : Mark × Nat} (h : Spaced (m :: ms) es) :
    ∃ rest, es = .kept m :: rest := by
  cases h with
  | last => exact ⟨_, rfl⟩
  | meeting => exact ⟨_, rfl⟩
  | apart => exact ⟨_, rfl⟩

/-- No space is in front. -/
theorem head?_ne (h : Spaced ms es) : es.head? ≠ some .space := by
  cases ms with
  | nil =>
    cases h
    exact nofun
  | cons m ms =>
    obtain ⟨rest, rfl⟩ := h.exists_eq_cons
    exact nofun

/-- No space is at the end. -/
theorem getLast?_ne (h : Spaced ms es) : es.getLast? ≠ some .space := by
  induction h with
  | nil => exact nofun
  | last m => exact nofun
  | meeting _ h ih =>
    obtain ⟨rest, rfl⟩ := h.exists_eq_cons
    rw [List.getLast?_cons_cons]
    exact ih
  | apart _ h ih =>
    obtain ⟨rest, rfl⟩ := h.exists_eq_cons
    rw [List.getLast?_cons_cons, List.getLast?_cons_cons]
    exact ih

/-- No two spaces are side by side. -/
theorem isChain (h : Spaced ms es) : es.IsChain Entry.AreNotSpaces := by
  have hkept : ∀ (m : Mark × Nat) (e : Entry),
      (Entry.kept m).AreNotSpaces e ∧ e.AreNotSpaces (.kept m) :=
    fun m e => ⟨fun h => Entry.noConfusion h.1, fun h => Entry.noConfusion h.2⟩
  induction h with
  | nil => exact .nil
  | last m => exact .singleton _
  | @meeting p m ms es _ h ih =>
    obtain ⟨rest, rfl⟩ := h.exists_eq_cons
    exact .cons_cons (hkept p _).1 ih
  | @apart p m ms es _ h ih =>
    obtain ⟨rest, rfl⟩ := h.exists_eq_cons
    exact .cons_cons (hkept p _).1 (.cons_cons (hkept m _).2 ih)

end Spaced

/-- The kept marks are those that are not left out. -/
theorem isKeptMark_eq (m : Mark) : isKeptMark m = !isDropped m := by
  rw [isKeptMark, isDropped, Mark.isLive, Mark.isComment]
  cases m.region <;> simp [Region.isString, Region.isLive, Region.isComment]

/-- A space stays where a code point and a mark may not meet. -/
theorem needsSpace_iff (p : CodePoint) (m : Mark) : needsSpace p m = true ↔ MayNotMeet p m := by
  have hsign : (m.isLive && (m.point = '+' || m.point = '-') && p = m.point) = true ↔
      m.isLive = true ∧ p = m.point ∧ (p = .scalar '+' ∨ p = .scalar '-') := by
    simp only [Bool.and_eq_true, Bool.or_eq_true, decide_eq_true_eq]
    constructor
    · rintro ⟨⟨hlive, hpoint⟩, rfl⟩
      exact ⟨hlive, rfl, hpoint⟩
    · rintro ⟨hlive, rfl, hpoint⟩
      exact ⟨⟨hlive, hpoint⟩, rfl⟩
  rw [needsSpace, MayNotMeet, ← hsign]
  split
  · next h => exact iff_of_true rfl (.inl h)
  · next h =>
    rw [or_iff_right h]
    cases isPunctuation p with
    | true => exact iff_of_false Bool.false_ne_true fun hp => Bool.false_ne_true hp.1.symm
    | false => rw [if_neg Bool.false_ne_true, eq_self, true_and, Bool.not_eq_true',
        ← Bool.not_eq_true, Bool.and_eq_true]

/-- Behind a kept mark, with a gap open if a mark was left out since, compact code is the rest of
the kept marks with the spaces that are needed. -/
theorem exists_spaced_cons (p : Mark × Nat) (start : Nat) (hp : p.2 < start) (ms : List Mark) :
    ∃ es, Spaced (p :: keptFrom start ms) (.kept p :: es) ∧
      compactFrom (some p.1.point) (p.2 + 1 < start) ms = es.map Entry.point := by
  induction ms generalizing p start with
  | nil => exact ⟨[], .last p, rfl⟩
  | cons m ms ih =>
    rw [keptFrom, List.zipIdx_cons, List.filter_cons, isKeptMark_eq, compactFrom]
    cases hm : isDropped m with
    | true =>
      obtain ⟨es, hes, htext⟩ := ih p (start + 1) (by omega)
      rw [decide_eq_true (by omega)] at htext
      exact ⟨es, hes, htext⟩
    | false =>
      obtain ⟨es, hes, htext⟩ := ih (m, start) (start + 1) (by simp)
      rw [decide_eq_false (by simp)] at htext
      rw [if_neg Bool.false_ne_true, htext, gapBefore]
      by_cases hgap : NeedsGap p (m, start)
      · refine ⟨.space :: .kept (m, start) :: es, .apart hgap hes, ?_⟩
        rw [decide_eq_true hgap.1, (needsSpace_iff _ _).mpr hgap.2]
        rfl
      · refine ⟨.kept (m, start) :: es, .meeting hgap hes, ?_⟩
        have hnone : (decide (p.2 + 1 < start) && needsSpace p.1.point m) = false := by
          rw [Bool.and_eq_false_imp]
          intro hapart
          rw [Bool.eq_false_iff, Ne, needsSpace_iff]
          exact fun hmeet => hgap ⟨of_decide_eq_true hapart, hmeet⟩
        rw [hnone]
        rfl

/-- Before the first kept mark nothing is put in. -/
theorem exists_spaced (start : Nat) (gap : Bool) (ms : List Mark) :
    ∃ es, Spaced (keptFrom start ms) es ∧ compactFrom none gap ms = es.map Entry.point := by
  induction ms generalizing start gap with
  | nil => exact ⟨[], .nil, rfl⟩
  | cons m ms ih =>
    rw [keptFrom, List.zipIdx_cons, List.filter_cons, isKeptMark_eq, compactFrom]
    cases hm : isDropped m with
    | true => exact ih (start + 1) true
    | false =>
      obtain ⟨es, hes, htext⟩ := exists_spaced_cons (m, start) (start + 1) (by simp) ms
      rw [decide_eq_false (by simp)] at htext
      refine ⟨.kept (m, start) :: es, hes, ?_⟩
      rw [if_neg Bool.false_ne_true, htext]
      rfl

/-- What is left of a text has no more bytes. -/
theorem byteLength_le_of_sublist {s t : Text} (h : s.Sublist t) : s.byteLength ≤ t.byteLength := by
  induction h with
  | slnil => exact le_rfl
  | cons c _ ih =>
    rw [Text.byteLength_cons]
    omega
  | cons_cons c _ ih =>
    rw [Text.byteLength_cons, Text.byteLength_cons]
    omega

/-- Compact code has no more bytes than what it is made from, with one more for a gap that is
open: the space in it stands for a mark that was left out. -/
theorem byteLength_compactFrom_le (previous : Option CodePoint) (gap : Bool) (ms : List Mark) :
    (compactFrom previous gap ms).byteLength ≤ (points ms).byteLength + gap.toNat := by
  induction ms generalizing previous gap with
  | nil => exact Nat.zero_le _
  | cons m ms ih =>
    rw [compactFrom, points_cons, Text.byteLength_cons]
    cases hm : isDropped m with
    | true =>
      have hrest := ih previous true
      have hpoint := m.point.byteLength_pos
      rw [if_pos rfl]
      rw [Bool.toNat_true] at hrest
      omega
    | false =>
      have hrest := ih (some m.point) false
      have hspace : CodePoint.byteLength (.scalar ' ') = 1 := rfl
      have hgap : (gapBefore previous gap m).byteLength ≤ gap.toNat := by
        rcases gapBefore_eq previous gap m with hnone | ⟨rfl, hone⟩
        · rw [hnone]
          exact Nat.zero_le _
        · rw [hone]
          exact le_rfl
      rw [if_neg Bool.false_ne_true, Text.byteLength_append, Text.byteLength_cons]
      rw [Bool.toNat_false] at hrest
      omega

/-- Compact code conserves the kept characters of the code: it has them all in their order, and
between them single spaces where neighbours with something left out between them may not meet.
Minified code is not larger than compact code, and compact code not larger than the code. -/
theorem compact_conserves (code : Text) :
    (∃ es, compact code = es.map Entry.point ∧ Spaced (keptMarks code) es ∧
      es.filterMap Entry.kept? = keptMarks code ∧ es.head? ≠ some .space ∧
      es.getLast? ≠ some .space ∧ es.IsChain Entry.AreNotSpaces) ∧
      (minify code).byteLength ≤ (compact code).byteLength ∧
      (compact code).byteLength ≤ code.byteLength := by
  obtain ⟨es, hes, htext⟩ := exists_spaced 0 false (scan code)
  refine ⟨⟨es, htext, hes, hes.filterMap_kept?, hes.head?_ne, hes.getLast?_ne, hes.isChain⟩,
    ?_, ?_⟩
  · have hminified : (minify code).Sublist (points (scan (compact code))) :=
      List.filter_sublist.map Mark.point
    rw [scan, points_scanFrom] at hminified
    exact byteLength_le_of_sublist hminified
  · have hbytes := byteLength_compactFrom_le none false (scan code)
    rw [scan, points_scanFrom] at hbytes
    exact hbytes

example : compact "a b /* c */ + +'d'e" = "a b+ +'d'e" := by decide

end SourcePress.Script
