import Mathlib.Data.List.TakeWhile
import SourcePress.Proofs.Json.Grammar

/-!
# Numbers: grammar and reader

The reader takes the longest part that fits at each step. What the grammar spells is read whole if
what follows could not go on with it, and what is read is spelled by the grammar.
-/

namespace SourcePress.Json

/-- True of a text that no number before it could go on with. -/
def Stops (t : Text) : Prop :=
  ∀ c ∈ t.head?, isDigit c = false ∧ c ≠ .scalar '.' ∧ isExponentMark c = false

/-- Digits are split from what follows them. -/
theorem span_digits {digits rest : Text} (hdigits : ∀ c ∈ digits, isDigit c)
    (hrest : ∀ c ∈ rest.head?, isDigit c = false) :
    (digits ++ rest).takeWhile isDigit = digits ∧ (digits ++ rest).dropWhile isDigit = rest := by
  rw [List.takeWhile_append_of_pos hdigits, List.dropWhile_append_of_pos hdigits]
  cases rest with
  | nil => exact ⟨List.append_nil digits, rfl⟩
  | cons c rest =>
    have hc : ¬isDigit c = true := by rw [hrest c rfl]; exact Bool.false_ne_true
    rw [List.takeWhile_cons_of_neg hc, List.dropWhile_cons_of_neg hc, List.append_nil]
    exact ⟨rfl, rfl⟩

/-- No digit is a sign or a point. -/
theorem ne_of_isDigit {c d : CodePoint} (h : isDigit c) (hd : isDigit d = false) : c ≠ d := by
  rintro rfl
  rw [hd] at h
  cases h

/-- The sign of a number is read off its front. -/
theorem numeralSign_eq (negative : Bool) {t : Text} (ht : ∀ c ∈ t.head?, isDigit c) :
    numeralSign ((if negative then [.scalar '-'] else []) ++ t) = (negative, t) := by
  cases negative with
  | true => rfl
  | false =>
    unfold numeralSign
    split
    · next heq => exact absurd (ht (.scalar '-') (congrArg List.head? heq)) (by decide)
    · rfl

/-- An integer part is read whole. -/
theorem wholePart_eq {whole rest : Text} (h : IsWhole whole)
    (hrest : ∀ c ∈ rest.head?, isDigit c = false) : wholePart (whole ++ rest) = (whole, rest) := by
  rcases h with rfl | ⟨⟨hne, hdigits⟩, hhead⟩
  · rfl
  · have hspan := span_digits hdigits hrest
    unfold wholePart
    split
    · next heq =>
      obtain ⟨c, whole, rfl⟩ := List.exists_cons_of_ne_nil hne
      exact absurd (congrArg some (List.cons.inj heq).1) hhead
    · rw [List.span_eq_takeWhile_dropWhile, hspan.1, hspan.2]

/-- A fraction is read whole. -/
theorem fractionPart_eq {digits fraction rest : Text} (h : SpellsFraction digits fraction)
    (hrest : ∀ c ∈ rest.head?, isDigit c = false ∧ c ≠ .scalar '.') :
    fractionPart (fraction ++ rest) = (digits, rest) := by
  rcases h with ⟨rfl, rfl⟩ | ⟨⟨hne, hdigits⟩, rfl⟩
  · unfold fractionPart
    split
    · next heq => exact absurd rfl (hrest (.scalar '.') (congrArg List.head? heq)).2
    · rfl
  · have hspan := span_digits hdigits fun c hc => (hrest c hc).1
    have hempty : digits.isEmpty = false := by simpa using hne
    rw [List.cons_append, fractionPart, List.span_eq_takeWhile_dropWhile, hspan.1, hspan.2, hempty,
      if_neg Bool.false_ne_true]

/-- The sign of an exponent is read off its front. -/
theorem exponentSign_eq {negative : Bool} {sign t : Text} (ht : ∀ c ∈ t.head?, isDigit c)
    (h : negative = true ∧ sign = [.scalar '-'] ∨
      negative = false ∧ (sign = [.scalar '+'] ∨ sign = [])) :
    exponentSign (sign ++ t) = (negative, t) := by
  rcases h with ⟨rfl, rfl⟩ | ⟨rfl, rfl | rfl⟩
  · rfl
  · rfl
  · unfold exponentSign
    split
    · next heq => exact absurd (ht (.scalar '-') (congrArg List.head? heq)) (by decide)
    · next heq => exact absurd (ht (.scalar '+') (congrArg List.head? heq)) (by decide)
    · rfl

/-- An exponent is read whole. -/
theorem exponentPart_eq {exponent : Option (Bool × Text)} {t rest : Text}
    (h : SpellsExponent exponent t)
    (hrest : ∀ c ∈ rest.head?, isDigit c = false ∧ isExponentMark c = false) :
    exponentPart (t ++ rest) = (exponent, rest) := by
  rcases h with ⟨rfl, rfl⟩ | ⟨mark, sign, negative, digits, rfl, ⟨hne, hdigits⟩, hmark, rfl, hsign⟩
  · cases rest with
    | nil => rfl
    | cons c rest =>
      have hc := (hrest c rfl).2
      rw [List.nil_append, exponentPart]
      simp [hc]
  · have hspan := span_digits hdigits fun c hc => (hrest c hc).1
    have hhead : ∀ c ∈ (digits ++ rest).head?, isDigit c := by
      obtain ⟨d, digits, rfl⟩ := List.exists_cons_of_ne_nil hne
      rintro c ⟨⟩
      exact hdigits d List.mem_cons_self
    have hempty : digits.isEmpty = false := by simpa using hne
    rw [List.cons_append, List.append_assoc, exponentPart, exponentSign_eq hhead hsign]
    dsimp only
    rw [hspan.1, hspan.2, hmark, hempty]
    rfl

/-- The digits of an integer part are digits. -/
theorem IsWhole.areDigits {t : Text} (h : IsWhole t) : AreDigits t := by
  rcases h with rfl | ⟨h, -⟩
  · exact ⟨by simp, by simp; decide⟩
  · exact h

/-- What the grammar spells is read as the number that it spells. -/
theorem readNumeral?_spells {n : Numeral} {t rest : Text} (h : SpellsNumeral n t)
    (hrest : Stops rest) : readNumeral? (t ++ rest) = some (n, rest) := by
  obtain ⟨fraction, exponent, hwhole, hfraction, hexponent, rfl⟩ := h
  obtain ⟨hne, hdigits⟩ := hwhole.areDigits
  have hempty : n.whole.isEmpty = false := by simpa using hne
  have hend : ∀ c ∈ (exponent ++ rest).head?, isDigit c = false ∧ c ≠ .scalar '.' := by
    intro c hc
    rcases hexponent with ⟨-, rfl⟩ | ⟨mark, _, _, _, -, -, hmark, rfl, -⟩
    · exact ⟨(hrest c hc).1, (hrest c hc).2.1⟩
    · cases hc
      simp only [isExponentMark, Bool.or_eq_true, decide_eq_true_eq] at hmark
      rcases hmark with rfl | rfl <;> exact ⟨by decide, by decide⟩
  have htail : ∀ c ∈ (fraction ++ (exponent ++ rest)).head?, isDigit c = false := by
    intro c hc
    rcases hfraction with ⟨-, rfl⟩ | ⟨-, rfl⟩
    · exact (hend c hc).1
    · cases hc
      decide
  have hfront : ∀ c ∈ (n.whole ++ (fraction ++ (exponent ++ rest))).head?, isDigit c := by
    obtain ⟨d, whole, hw⟩ := List.exists_cons_of_ne_nil hne
    rw [hw]
    rintro c ⟨⟩
    exact hdigits d (by rw [hw]; exact List.mem_cons_self)
  simp only [List.append_assoc]
  rw [readNumeral?, numeralSign_eq _ hfront]
  dsimp only
  rw [wholePart_eq hwhole htail]
  dsimp only
  rw [hempty, if_neg Bool.false_ne_true, fractionPart_eq hfraction hend]
  dsimp only
  rw [exponentPart_eq hexponent fun c hc => ⟨(hrest c hc).1, (hrest c hc).2.2⟩]

/-- What is read as a sign stood there. -/
theorem eq_of_numeralSign {negative : Bool} {t rest : Text} (h : numeralSign t = (negative, rest)) :
    t = (if negative then [.scalar '-'] else []) ++ rest := by
  unfold numeralSign at h
  split at h
  · cases h
    rfl
  · cases h
    rfl

/-- Digits taken from the front of a text are digits. -/
theorem areDigits_takeWhile {t : Text} (h : (t.takeWhile isDigit).isEmpty = false) :
    AreDigits (t.takeWhile isDigit) :=
  ⟨by simpa using h, fun _ hc => List.mem_takeWhile_imp hc⟩

/-- What is read as an integer part stood there. -/
theorem isWhole_of_wholePart {whole t rest : Text} (h : wholePart t = (whole, rest))
    (hne : whole.isEmpty = false) : t = whole ++ rest ∧ IsWhole whole := by
  unfold wholePart at h
  split at h
  · cases h
    exact ⟨rfl, .inl rfl⟩
  · next hnot =>
    rw [List.span_eq_takeWhile_dropWhile] at h
    cases h
    refine ⟨List.takeWhile_append_dropWhile.symm, .inr ⟨areDigits_takeWhile hne, ?_⟩⟩
    intro hhead
    cases t with
    | nil => cases hhead
    | cons c t =>
      refine hnot t ?_
      by_cases hc : isDigit c
      · rw [List.takeWhile_cons_of_pos hc, List.head?_cons] at hhead
        rw [Option.some.inj hhead]
      · rw [List.takeWhile_cons_of_neg hc] at hhead
        cases hhead

/-- What is read as a fraction stood there. -/
theorem spellsFraction_of_fractionPart {digits t rest : Text}
    (h : fractionPart t = (digits, rest)) :
    ∃ fraction, t = fraction ++ rest ∧ SpellsFraction digits fraction := by
  unfold fractionPart at h
  split at h
  · next behind =>
    split at h
    · cases h
      exact ⟨[], rfl, .inl ⟨rfl, rfl⟩⟩
    · next hne =>
      rw [List.span_eq_takeWhile_dropWhile] at h
      cases h
      refine ⟨_, ?_, .inr ⟨areDigits_takeWhile (Bool.eq_false_of_not_eq_true hne), rfl⟩⟩
      rw [List.cons_append, List.takeWhile_append_dropWhile]
  · cases h
    exact ⟨[], rfl, .inl ⟨rfl, rfl⟩⟩

/-- What is read as the sign of an exponent stood there. -/
theorem eq_of_exponentSign {negative : Bool} {t rest : Text}
    (h : exponentSign t = (negative, rest)) :
    ∃ sign, t = sign ++ rest ∧ (negative = true ∧ sign = [.scalar '-'] ∨
      negative = false ∧ (sign = [.scalar '+'] ∨ sign = [])) := by
  unfold exponentSign at h
  split at h
  · cases h
    exact ⟨_, rfl, .inl ⟨rfl, rfl⟩⟩
  · cases h
    exact ⟨_, rfl, .inr ⟨rfl, .inl rfl⟩⟩
  · cases h
    exact ⟨[], rfl, .inr ⟨rfl, .inr rfl⟩⟩

/-- What is read as an exponent stood there. -/
theorem spellsExponent_of_exponentPart {exponent : Option (Bool × Text)} {t rest : Text}
    (h : exponentPart t = (exponent, rest)) :
    ∃ written, t = written ++ rest ∧ SpellsExponent exponent written := by
  cases t with
  | nil =>
    cases h
    exact ⟨[], rfl, .inl ⟨rfl, rfl⟩⟩
  | cons c t =>
    rw [exponentPart] at h
    cases hsign : exponentSign t with
    | mk negative behind =>
      obtain ⟨sign, ht, hcases⟩ := eq_of_exponentSign hsign
      rw [hsign] at h
      dsimp only at h
      split at h
      · next hmark =>
        obtain ⟨hmark, hdigits⟩ := Bool.and_eq_true_iff.mp hmark
        cases h
        refine ⟨_, ?_, .inr ⟨c, sign, negative, _, rfl,
          areDigits_takeWhile (by simpa using hdigits), hmark, rfl, hcases⟩⟩
        rw [ht, List.cons_append, List.append_assoc, List.takeWhile_append_dropWhile]
      · cases h
        exact ⟨[], rfl, .inl ⟨rfl, rfl⟩⟩

/-- A number that is read is spelled by the grammar. -/
theorem spellsNumeral_of_readNumeral? {n : Numeral} {t rest : Text}
    (h : readNumeral? t = some (n, rest)) :
    ∃ written, t = written ++ rest ∧ SpellsNumeral n written := by
  unfold readNumeral? at h
  cases hsign : numeralSign t with
  | mk negative t1 =>
    cases hwhole : wholePart t1 with
    | mk whole t2 =>
      cases hfraction : fractionPart t2 with
      | mk fraction t3 =>
        cases hexponent : exponentPart t3 with
        | mk exponent t4 =>
          rw [hsign] at h
          dsimp only at h
          rw [hwhole] at h
          dsimp only at h
          split at h
          · cases h
          · next hne =>
            rw [hfraction] at h
            dsimp only at h
            rw [hexponent] at h
            cases h
            have ht := eq_of_numeralSign hsign
            obtain ⟨ht1, hiswhole⟩ :=
              isWhole_of_wholePart hwhole (Bool.eq_false_of_not_eq_true hne)
            obtain ⟨fraction', ht2, hspells⟩ := spellsFraction_of_fractionPart hfraction
            obtain ⟨exponent', ht3, hspells'⟩ := spellsExponent_of_exponentPart hexponent
            refine ⟨_, ?_, fraction', exponent', hiswhole, hspells, hspells', rfl⟩
            rw [ht, ht1, ht2, ht3]
            simp only [List.append_assoc]

/-- The value of a number is what the number denotes. -/
theorem denotes_iff {n : Numeral} {t rest : Text} {v : Json} :
    n.value t rest = .ok v ↔ Denotes n v := by
  unfold Numeral.value Denotes
  cases hinteger : n.isInteger with
  | true =>
    rw [if_pos rfl]
    by_cases hlimit : maxIntegerDigits < n.whole.length
    · rw [if_pos hlimit]
      simp [Nat.not_le_of_lt hlimit]
    · rw [if_neg hlimit]
      simp [Nat.le_of_not_lt hlimit, eq_comm]
  | false =>
    rw [if_neg Bool.false_ne_true]
    cases n.toBinary64? with
    | none => simp
    | some x => simp [eq_comm]

/-- A number begins with a digit or with a sign before one. -/
theorem SpellsNumeral.head {n : Numeral} {t : Text} (h : SpellsNumeral n t) :
    ∃ c t', t = c :: t' ∧
      (isDigit c = true ∨ c = .scalar '-' ∧ ∃ d t'', t' = d :: t'' ∧ isDigit d = true) := by
  obtain ⟨fraction, exponent, hwhole, -, -, rfl⟩ := h
  obtain ⟨hne, hdigits⟩ := hwhole.areDigits
  obtain ⟨d, whole, hw⟩ := List.exists_cons_of_ne_nil hne
  have hd : isDigit d := hdigits d (by rw [hw]; exact List.mem_cons_self)
  rw [hw]
  cases n.negative with
  | true => exact ⟨_, _, rfl, .inr ⟨rfl, d, _, rfl, hd⟩⟩
  | false => exact ⟨_, _, rfl, .inl hd⟩

/-- A text is no prefix of one that begins with another code point. -/
theorem isPrefixOf_cons_ne {c d : CodePoint} (h : c ≠ d) (s t : Text) :
    (c :: s).isPrefixOf? (d :: t) = none ∧ (c :: s).isPrefixOf (d :: t) = false := by
  constructor
  · rw [List.isPrefixOf?, if_neg (by simpa using h)]
  · rw [List.isPrefixOf, beq_eq_false_iff_ne.mpr h, Bool.false_and]

/-- A number in front is read as its value. -/
theorem readAtom_spells {n : Numeral} {t rest : Text} (ht : SpellsNumeral n t)
    (hrest : Stops rest) :
    readAtom (t ++ rest) = (n.value (t ++ rest) rest).map fun value => (value, rest) := by
  have hread := readNumeral?_spells ht hrest
  obtain ⟨c, t', hct, hc⟩ := ht.head
  have hletter : ∀ (d : CodePoint) (s : Text), isDigit d = false → d ≠ .scalar '-' →
      (d :: s).isPrefixOf? (t ++ rest) = none ∧ (d :: s).isPrefixOf (t ++ rest) = false := by
    intro d s hd hminus
    have hne : d ≠ c := by
      rcases hc with hc | ⟨rfl, -⟩
      · exact (ne_of_isDigit hc hd).symm
      · exact hminus
    rw [hct]
    exact isPrefixOf_cons_ne hne s _
  have hinfinity : (Text.ofString "-Infinity").isPrefixOf (t ++ rest) = false := by
    have hword : Text.ofString "-Infinity" =
      .scalar '-' :: .scalar 'I' :: Text.ofString "nfinity" := rfl
    rw [hct, hword]
    rcases hc with hc | ⟨rfl, d, t'', rfl, hd⟩
    · exact (isPrefixOf_cons_ne (ne_of_isDigit hc (by decide)).symm _ _).2
    · have hne : CodePoint.scalar 'I' ≠ d := (ne_of_isDigit hd (by decide)).symm
      exact (Bool.and_eq_false_iff.mpr (.inr (isPrefixOf_cons_ne hne _ _).2))
  have hnull := (hletter (.scalar 'n') (Text.ofString "ull") (by decide) (by decide)).1
  have htrue := (hletter (.scalar 't') (Text.ofString "rue") (by decide) (by decide)).1
  have hfalse := (hletter (.scalar 'f') (Text.ofString "alse") (by decide) (by decide)).1
  have hnan := (hletter (.scalar 'N') (Text.ofString "aN") (by decide) (by decide)).2
  have hinf := (hletter (.scalar 'I') (Text.ofString "nfinity") (by decide) (by decide)).2
  have hnull' : (Text.ofString "null").isPrefixOf? (t ++ rest) = none := hnull
  have htrue' : (Text.ofString "true").isPrefixOf? (t ++ rest) = none := htrue
  have hfalse' : (Text.ofString "false").isPrefixOf? (t ++ rest) = none := hfalse
  have hnan' : (Text.ofString "NaN").isPrefixOf (t ++ rest) = false := hnan
  have hinf' : (Text.ofString "Infinity").isPrefixOf (t ++ rest) = false := hinf
  unfold readAtom
  rw [hnull', htrue', hfalse', hnan', hinf', hinfinity, hread]
  simp only [Bool.false_eq_true, if_false]

/-- A number in front is read as the value that it denotes. -/
theorem readAtom_number {n : Numeral} {t rest : Text} {v : Json} (ht : SpellsNumeral n t)
    (hv : Denotes n v) (hrest : Stops rest) : readAtom (t ++ rest) = .ok (v, rest) := by
  have hvalue : n.value (t ++ rest) rest = .ok v := denotes_iff.mpr hv
  rw [readAtom_spells ht hrest, hvalue]
  rfl

/-- A text is a prefix of what it stands in front of. -/
theorem isPrefixOf?_append (s t : Text) : s.isPrefixOf? (s ++ t) = some t := by
  induction s with
  | nil => cases t <;> rfl
  | cons c s ih =>
    rw [List.cons_append, List.isPrefixOf?, if_pos (by simp), ih]

/-- A prefix of a text stands in front of what is left. -/
theorem eq_append_of_isPrefixOf? {s t rest : Text} (h : s.isPrefixOf? t = some rest) :
    t = s ++ rest := by
  induction s generalizing t with
  | nil =>
    rw [List.isPrefixOf?] at h
    cases h
    rfl
  | cons c s ih =>
    cases t with
    | nil => cases h
    | cons d t =>
      rw [List.isPrefixOf?] at h
      split at h
      · next heq =>
        rw [← eq_of_beq heq, List.cons_append, ← ih h]
      · cases h

/-- The null value in front is read. -/
theorem readAtom_null (rest : Text) :
    readAtom (Text.ofString "null" ++ rest) = .ok (.null, rest) := by
  unfold readAtom
  rw [isPrefixOf?_append]

/-- A truth value in front is read. -/
theorem readAtom_bool (b : Bool) (rest : Text) :
    readAtom ((if b then Text.ofString "true" else Text.ofString "false") ++ rest) =
      .ok (.bool b, rest) := by
  have hnull : ∀ (c : CodePoint) (s : Text), c ≠ .scalar 'n' →
      (Text.ofString "null").isPrefixOf? (c :: s) = none := fun c s hc =>
    (isPrefixOf_cons_ne hc.symm (Text.ofString "ull") s).1
  have htrue : ∀ (c : CodePoint) (s : Text), c ≠ .scalar 't' →
      (Text.ofString "true").isPrefixOf? (c :: s) = none := fun c s hc =>
    (isPrefixOf_cons_ne hc.symm (Text.ofString "rue") s).1
  unfold readAtom
  cases b with
  | true =>
    have hn := hnull (.scalar 't') (Text.ofString "rue" ++ rest) (by decide)
    have ht := isPrefixOf?_append (Text.ofString "true") rest
    simp only [if_true]
    rw [show (Text.ofString "null").isPrefixOf? (Text.ofString "true" ++ rest) = none from hn, ht]
  | false =>
    have hn := hnull (.scalar 'f') (Text.ofString "alse" ++ rest) (by decide)
    have ht := htrue (.scalar 'f') (Text.ofString "alse" ++ rest) (by decide)
    have hf := isPrefixOf?_append (Text.ofString "false") rest
    simp only [Bool.false_eq_true, if_false]
    rw [show (Text.ofString "null").isPrefixOf? (Text.ofString "false" ++ rest) = none from hn,
      show (Text.ofString "true").isPrefixOf? (Text.ofString "false" ++ rest) = none from ht, hf]

/-- What is read as an atom is one of the grammar. -/
theorem derives_of_readAtom [Alphabet] {t rest : Text} {v : Json} (h : readAtom t = .ok (v, rest))
    (s : Repair.Settings) (n : Nat) (nested : Bool) :
    ∃ text, t = text ++ rest ∧ Derives s n (.value nested v) [.atom text] := by
  unfold readAtom at h
  split at h
  · next hprefix =>
    cases h
    exact ⟨_, eq_append_of_isPrefixOf? hprefix, .null⟩
  · split at h
    · next hprefix =>
      cases h
      exact ⟨_, eq_append_of_isPrefixOf? hprefix, .bool true⟩
    · split at h
      · next hprefix =>
        cases h
        exact ⟨_, eq_append_of_isPrefixOf? hprefix, .bool false⟩
      · split_ifs at h
        split at h
        · cases h
        · next numeral rest' hread =>
          obtain ⟨value, hvalue, hread'⟩ := exists_of_map_eq_ok h
          cases hread'
          obtain ⟨written, ht, hspells⟩ := spellsNumeral_of_readNumeral? hread
          exact ⟨written, ht, .number hspells (denotes_iff.mp hvalue)⟩

end SourcePress.Json
