import SourcePress.Number.Notation
import SourcePress.Proofs.Json.Numbers
import SourcePress.Proofs.Number.Exact

/-!
# Numbers as they are written

An integer is written with its decimal digits, a binary64 number with its shortest digits, either in
place or with an exponent. Each of these texts is spelled by the grammar, and the number that it
spells has the value that was written.
-/

namespace SourcePress.Json

open Text

/-- The digit behind others. -/
theorem ofDigits_append_singleton (t : Text) (c : CodePoint) :
    ofDigits (t ++ [c]) = 10 * ofDigits t + (c.value - 0x30) := by
  rw [ofDigits, List.foldl_append]
  rfl

/-- Zeros behind digits. -/
theorem ofDigits_append_zeros (t : Text) (k : Nat) :
    ofDigits (t ++ zeros k) = ofDigits t * 10 ^ k := by
  induction k with
  | zero => rw [zeros, List.replicate_zero, List.append_nil, Nat.pow_zero, Nat.mul_one]
  | succ k ih =>
    have hzeros : zeros (k + 1) = zeros k ++ [.scalar '0'] := List.replicate_succ'
    rw [hzeros, ← List.append_assoc, ofDigits_append_singleton, ih, Nat.pow_succ, Nat.mul_comm,
      Nat.mul_assoc]
    rfl

/-- Zeros in front of digits. -/
theorem ofDigits_zeros_append (k : Nat) (t : Text) : ofDigits (zeros k ++ t) = ofDigits t := by
  induction k with
  | zero => rfl
  | succ k ih => exact ih

/-- The digits of a number are its decimal. -/
theorem ofDigits_ofNat (n : Nat) : ofDigits (Text.ofNat n) = n := by
  have hfold : ofDigits (Text.ofNat n) = Nat.ofDigitChars 10 (Nat.toDigits 10 n) 0 := by
    rw [ofDigits, Text.ofNat, List.foldl_map]
    rfl
  rw [hfold, Nat.ofDigitChars_ten_toDigits]

/-- A number is written with digits. -/
theorem areDigits_ofNat (n : Nat) : AreDigits (Text.ofNat n) := by
  refine ⟨by simp [Text.ofNat], fun c hc => ?_⟩
  obtain ⟨d, hd, rfl⟩ := List.mem_map.mp hc
  have hdigit := Nat.isDigit_of_mem_toDigits (by decide) (by decide) hd
  simp only [Char.isDigit, Bool.and_eq_true, decide_eq_true_eq] at hdigit
  exact Bool.and_eq_true_iff.mpr ⟨decide_eq_true hdigit.1, decide_eq_true hdigit.2⟩

/-- No positive number is written with a zero in front. -/
theorem head?_ofNat {n : Nat} (hn : 0 < n) : (Text.ofNat n).head? ≠ some (.scalar '0') := by
  have hchars : (Nat.toDigits 10 n).head? ≠ some '0' := by
    induction n using Nat.strong_induction_on with
    | _ n ih =>
      by_cases hsmall : n < 10
      · have hdigits : ∀ m < 10, 0 < m → m.digitChar ≠ '0' := by decide
        rw [Nat.toDigits_of_lt_base hsmall]
        simpa using hdigits n hsmall hn
      · rw [Nat.toDigits_of_base_le (by decide) (by omega),
          List.head?_append_of_ne_nil _ Nat.toDigits_ne_nil]
        exact ih (n / 10) (by omega) (by omega)
  rw [Text.ofNat, List.head?_map]
  intro h
  obtain ⟨c, hc, hzero⟩ := Option.map_eq_some_iff.mp h
  cases hzero
  exact hchars hc

/-- A number is written as an integer part. -/
theorem isWhole_ofNat (n : Nat) : IsWhole (Text.ofNat n) := by
  rcases Nat.eq_zero_or_pos n with rfl | hn
  · exact .inl rfl
  · exact .inr ⟨areDigits_ofNat n, head?_ofNat hn⟩

/-- An integer whose digits are within the limit is written as a number that denotes it. -/
theorem spells_ofInt {n : Int} (hn : n.natAbs < 10 ^ maxIntegerDigits) :
    ∃ numeral, SpellsNumeral numeral (Text.ofInt n) ∧ Denotes numeral (.int n) := by
  have hlength : ∀ m : Nat, m < 10 ^ maxIntegerDigits →
      (Text.ofNat m).length ≤ maxIntegerDigits := by
    intro m hm
    rw [Text.ofNat, List.length_map]
    exact (Nat.length_toDigits_le_iff (by decide) (by decide)).mpr hm
  cases n with
  | ofNat m =>
    refine ⟨⟨false, Text.ofNat m, [], none⟩, ⟨[], [], isWhole_ofNat m, .inl ⟨rfl, rfl⟩,
      .inl ⟨rfl, rfl⟩, by simp [Text.ofInt]⟩, .inl ⟨rfl, hlength m hn, ?_⟩⟩
    rw [Numeral.toInt, ofDigits_ofNat]
    rfl
  | negSucc m =>
    refine ⟨⟨true, Text.ofNat (m + 1), [], none⟩, ⟨[], [], isWhole_ofNat _, .inl ⟨rfl, rfl⟩,
      .inl ⟨rfl, rfl⟩, by simp [Text.ofInt]⟩, .inl ⟨rfl, hlength (m + 1) hn, ?_⟩⟩
    rw [Numeral.toInt, ofDigits_ofNat]
    rfl

/-- Digits without zeros at their two ends, as the shortest decimal of a number has them. -/
structure AreSignificant (t : Text) : Prop where
  /-- They are digits. -/
  areDigits : AreDigits t
  /-- The first one is no zero. -/
  head?_ne : t.head? ≠ some (.scalar '0')
  /-- They are the decimal of a positive number. -/
  pos : 0 < ofDigits t

/-- The digits of a positive number are its significant ones and zeros behind them. -/
theorem exists_zeros {n : Nat} (hn : 0 < n) :
    ∃ z, Text.ofNat n = significantDigits n ++ zeros z ∧ AreSignificant (significantDigits n) := by
  obtain ⟨trimmed, htrimmed⟩ :
      ∃ trimmed, trimmed = ((Nat.toDigits 10 n).reverse.dropWhile (· = '0')).reverse := ⟨_, rfl⟩
  obtain ⟨dropped, hdropped⟩ :
      ∃ dropped, dropped = ((Nat.toDigits 10 n).reverse.takeWhile (· = '0')).reverse := ⟨_, rfl⟩
  have hsplit : Nat.toDigits 10 n = trimmed ++ dropped := by
    rw [htrimmed, hdropped, ← List.reverse_append, List.takeWhile_append_dropWhile,
      List.reverse_reverse]
  have hzeros : dropped = List.replicate dropped.length '0' := by
    refine List.eq_replicate_of_mem fun c hc => ?_
    rw [hdropped, List.mem_reverse] at hc
    simpa using List.mem_takeWhile_imp hc
  have htext : Text.ofNat n = trimmed.map .scalar ++ zeros dropped.length := by
    rw [Text.ofNat, hsplit, List.map_append, hzeros, List.map_replicate, List.length_replicate]
    rfl
  have hhead := head?_ofNat hn
  have hdigits := areDigits_ofNat n
  have hvalue := ofDigits_ofNat n
  rw [htext] at hhead hdigits hvalue
  have hne : trimmed ≠ [] := by
    rintro rfl
    cases hlength : dropped.length with
    | zero =>
      rw [hlength] at hdigits
      exact hdigits.1 rfl
    | succ k =>
      rw [hlength] at hhead
      exact hhead rfl
  have hsignificant : significantDigits n = trimmed.map .scalar := by
    unfold significantDigits
    rw [← htrimmed, if_neg hne]
  have hmap : trimmed.map CodePoint.scalar ≠ [] := by simpa using hne
  refine ⟨dropped.length, by rw [hsignificant, htext], ?_⟩
  rw [hsignificant]
  refine ⟨⟨hmap, fun c hc => hdigits.2 c (List.mem_append_left _ hc)⟩, ?_, ?_⟩
  · rwa [List.head?_append_of_ne_nil _ hmap] at hhead
  · rw [ofDigits_append_zeros] at hvalue
    exact Nat.pos_of_ne_zero fun hzero => by rw [hzero, Nat.zero_mul] at hvalue; omega

/-- Zeros are digits. -/
theorem isDigit_of_mem_zeros {k : Nat} : ∀ c ∈ zeros k, isDigit c := by
  intro c hc
  rw [List.eq_of_mem_replicate hc]
  decide

/-- Digits put together are digits. -/
theorem AreDigits.append {s t : Text} (hs : AreDigits s) (ht : ∀ c ∈ t, isDigit c) :
    AreDigits (s ++ t) :=
  ⟨by simp [hs.1], List.forall_mem_append.mpr ⟨hs.2, ht⟩⟩

/-- What it is for a text behind its sign to spell a number that is no integer and has a value. -/
def SpellsDecimal (negative : Bool) (t : Text) (value : Option Binary64) : Prop :=
  ∃ numeral, SpellsNumeral numeral ((if negative then [.scalar '-'] else []) ++ t) ∧
    numeral.isInteger = false ∧ numeral.toBinary64? = value

/-- Digits before and behind a point. -/
theorem spellsDecimal_point {whole fraction : Text} (hwhole : IsWhole whole)
    (hfraction : AreDigits fraction) (negative : Bool) :
    SpellsDecimal negative (whole ++ .scalar '.' :: fraction)
      (Binary64.ofDecimal? negative (ofDigits (whole ++ fraction)) (-fraction.length)) := by
  refine ⟨⟨negative, whole, fraction, none⟩, ⟨_, [], hwhole, .inr ⟨hfraction, rfl⟩,
    .inl ⟨rfl, rfl⟩, by simp⟩, ?_, ?_⟩
  · simpa [Numeral.isInteger] using hfraction.1
  · rw [Numeral.toBinary64?, Numeral.power]
    simp

section InPlace

variable {t : Text} (ht : AreSignificant t) (negative : Bool)

include ht

/-- Significant digits behind the point, with zeros between. -/
theorem spellsDecimal_fraction (k : Nat) :
    SpellsDecimal negative (.scalar '0' :: .scalar '.' :: (zeros k ++ t))
      (Binary64.ofDecimal? negative (ofDigits t) (-(k : Int) - t.length)) := by
  have hdigits : AreDigits (zeros k ++ t) :=
    ⟨by simp [ht.areDigits.1], List.forall_mem_append.mpr ⟨isDigit_of_mem_zeros, ht.areDigits.2⟩⟩
  have h := spellsDecimal_point (.inl rfl) hdigits negative
  have hpower : (-((zeros k ++ t).length : Int)) = -(k : Int) - t.length := by
    rw [List.length_append, zeros, List.length_replicate]
    omega
  rw [hpower, show ([CodePoint.scalar '0'] : Text) = zeros 1 from rfl, ofDigits_zeros_append,
    ofDigits_zeros_append] at h
  exact h

/-- Significant digits and zeros before the point. -/
theorem spellsDecimal_whole (k : Nat) :
    SpellsDecimal negative (t ++ zeros k ++ .scalar '.' :: zeros 1)
      (Binary64.ofDecimal? negative (ofDigits t) k) := by
  have hwhole : AreDigits (t ++ zeros k) := ht.areDigits.append isDigit_of_mem_zeros
  have hhead : (t ++ zeros k).head? ≠ some (.scalar '0') := by
    rw [List.head?_append_of_ne_nil _ ht.areDigits.1]
    exact ht.head?_ne
  have hzero : AreDigits (zeros 1) := ⟨by simp [zeros], isDigit_of_mem_zeros⟩
  have h := spellsDecimal_point (.inr ⟨hwhole, hhead⟩) hzero negative
  rw [ofDigits_append_zeros, ofDigits_append_zeros, Nat.mul_assoc, ← Nat.pow_add,
    Binary64.ofDecimal?_mul_pow negative ht.pos] at h
  have hpower : (-((zeros 1).length : Int) + (k + 1 : Nat)) = k := by
    rw [zeros, List.length_replicate]
    omega
  rw [hpower] at h
  exact h

/-- Significant digits with the point among them. -/
theorem spellsDecimal_mixed {k : Nat} (hk : k + 1 < t.length) :
    SpellsDecimal negative (t.take (k + 1) ++ .scalar '.' :: t.drop (k + 1))
      (Binary64.ofDecimal? negative (ofDigits t) (k + 1 - t.length)) := by
  have hwhole : AreDigits (t.take (k + 1)) :=
    ⟨by simpa using ht.areDigits.1, fun c hc => ht.areDigits.2 c (List.mem_of_mem_take hc)⟩
  have hhead : (t.take (k + 1)).head? ≠ some (.scalar '0') := by
    rw [List.head?_take, if_neg (Nat.succ_ne_zero k)]
    exact ht.head?_ne
  have hne : t.drop (k + 1) ≠ [] := by
    rw [Ne, List.drop_eq_nil_iff]
    omega
  have hfraction : AreDigits (t.drop (k + 1)) :=
    ⟨hne, fun c hc => ht.areDigits.2 c (List.mem_of_mem_drop hc)⟩
  have h := spellsDecimal_point (.inr ⟨hwhole, hhead⟩) hfraction negative
  have hpower : (-((t.drop (k + 1)).length : Int)) = k + 1 - t.length := by
    rw [List.length_drop]
    omega
  rw [List.take_append_drop, hpower] at h
  exact h

/-- Significant digits in place are spelled, with the value that their power gives them. -/
theorem spellsDecimal_inPlace (power : Int) :
    SpellsDecimal negative (inPlace t power)
      (Binary64.ofDecimal? negative (ofDigits t) (power + 1 - t.length)) := by
  unfold inPlace
  by_cases hneg : power < 0
  · obtain ⟨k, hk⟩ := Int.eq_ofNat_of_zero_le (a := -power - 1) (by omega)
    have hpower : power + 1 - t.length = -(k : Int) - t.length := by omega
    rw [if_pos hneg, hk, hpower, List.append_assoc]
    exact spellsDecimal_fraction ht negative k
  · obtain ⟨k, hk⟩ := Int.eq_ofNat_of_zero_le (a := power) (by omega)
    rw [if_neg hneg, hk]
    dsimp only
    rw [Int.toNat_natCast]
    by_cases hshort : t.length ≤ k + 1
    · have hpower : ((k + 1 - t.length : Nat) : Int) = k + 1 - t.length := by omega
      rw [List.drop_eq_nil_of_le hshort, List.take_of_length_le hshort, if_pos rfl,
        List.append_assoc, ← hpower]
      exact spellsDecimal_whole ht negative _
    · have hnone : zeros (k + 1 - t.length) = [] := by
        rw [Nat.sub_eq_zero_of_le (by omega)]
        rfl
      have hne : t.drop (k + 1) ≠ [] := by
        rw [Ne, List.drop_eq_nil_iff]
        exact hshort
      rw [if_neg hne, hnone, List.append_nil, List.append_assoc]
      exact spellsDecimal_mixed ht negative (by omega)

end InPlace

/-- A power is spelled by its sign and the digits of its magnitude. -/
theorem spellsExponent_power {digits : Text} (hdigits : AreDigits digits) (power : Int) :
    SpellsExponent (some (decide (power < 0), digits))
      (.scalar 'e' :: ([if power < 0 then .scalar '-' else .scalar '+'] ++ digits)) := by
  refine .inr ⟨_, _, _, _, rfl, hdigits, by decide, rfl, ?_⟩
  by_cases hneg : power < 0
  · exact .inl ⟨decide_eq_true hneg, by rw [if_pos hneg]⟩
  · exact .inr ⟨decide_eq_false hneg, .inl (by rw [if_neg hneg])⟩

/-- The power of a number with one digit before the point and the digits of a power behind. -/
theorem power_withExponent (negative : Bool) (c : CodePoint) (rest : Text) {digits : Text}
    {power : Int} (hdigits : ofDigits digits = power.natAbs) :
    Numeral.power ⟨negative, [c], rest, some (decide (power < 0), digits)⟩ =
      power + 1 - (c :: rest).length := by
  rw [Numeral.power, List.length_cons]
  dsimp only
  rw [hdigits]
  by_cases hneg : power < 0
  · rw [if_pos (decide_eq_true hneg)]
    omega
  · rw [if_neg (by simpa using hneg)]
    omega

/-- Significant digits with an exponent are spelled, with the value that their power gives them. -/
theorem spellsDecimal_withExponent {t : Text} (ht : AreSignificant t) (negative : Bool)
    (style : NumberStyle) (power : Int) :
    SpellsDecimal negative (withExponent style t power)
      (Binary64.ofDecimal? negative (ofDigits t) (power + 1 - t.length)) := by
  obtain ⟨c, rest, rfl⟩ := List.exists_cons_of_ne_nil ht.areDigits.1
  obtain ⟨digits, hdigits⟩ : ∃ digits, digits =
      zeros (style.exponentWidth - (ofNat power.natAbs).length) ++ ofNat power.natAbs := ⟨_, rfl⟩
  have hc : AreDigits [c] :=
    ⟨by simp, by simpa using ht.areDigits.2 c List.mem_cons_self⟩
  have hwhole : IsWhole [c] := .inr ⟨hc, ht.head?_ne⟩
  have hfraction : SpellsFraction rest (if rest = [] then [] else .scalar '.' :: rest) := by
    by_cases hrest : rest = []
    · exact .inl ⟨hrest, if_pos hrest⟩
    · exact .inr ⟨⟨hrest, fun d hd => ht.areDigits.2 d (List.mem_cons_of_mem c hd)⟩,
        if_neg hrest⟩
  have hare : AreDigits digits := by
    have hnat := areDigits_ofNat power.natAbs
    rw [hdigits]
    exact ⟨by simp [hnat.1], List.forall_mem_append.mpr ⟨isDigit_of_mem_zeros, hnat.2⟩⟩
  have hvalue : ofDigits digits = power.natAbs := by
    rw [hdigits, ofDigits_zeros_append, ofDigits_ofNat]
  refine ⟨⟨negative, [c], rest, some (decide (power < 0), digits)⟩,
    ⟨_, _, hwhole, hfraction, spellsExponent_power hare power, ?_⟩, by simp [Numeral.isInteger], ?_⟩
  · rw [withExponent, hdigits]
    simp
  · rw [Numeral.toBinary64?, power_withExponent negative c rest hvalue]
    rfl

/-- A number is written as one that denotes it. -/
theorem spells_ofBinary64 (x : Binary64) :
    ∃ numeral, SpellsNumeral numeral (Text.ofBinary64 .usual x) ∧ Denotes numeral (.float x) := by
  have hread := Binary64.read?_shortest x
  suffices h : ∃ body,
      Text.ofBinary64 .usual x = (if x.negative then .scalar '-' :: body else body) ∧
      SpellsDecimal x.negative body (x.shortest.read? x.negative) by
    obtain ⟨body, htext, numeral, hspells, hinteger, hvalue⟩ := h
    refine ⟨numeral, ?_, .inr ⟨hinteger, x, hvalue.trans hread, rfl⟩⟩
    have hsign : Text.ofBinary64 .usual x =
        (if x.negative then [.scalar '-'] else []) ++ body := by
      rw [htext]
      cases x.negative <;> rfl
    rw [hsign]
    exact hspells
  refine ⟨_, rfl, ?_⟩
  by_cases hzero : x.shortest.digits = 0
  · have h := @spellsDecimal_point (zeros 1) (zeros 1) (.inl rfl)
      ⟨by simp [zeros], isDigit_of_mem_zeros⟩ x.negative
    rw [Decimal.read?, hzero, if_pos rfl, if_pos (by decide)]
    exact h
  -- zeros at the end are not written, and the exponent grows by their number
  · obtain ⟨z, htext, hsignificant⟩ := exists_zeros (Nat.pos_of_ne_zero hzero)
    have hdigits : x.shortest.digits = ofDigits (significantDigits x.shortest.digits) * 10 ^ z := by
      rw [← ofDigits_append_zeros, ← htext, ofDigits_ofNat]
    have hlength : (Nat.toDigits 10 x.shortest.digits).length =
        (significantDigits x.shortest.digits).length + z := by
      have h := congrArg List.length htext
      rw [Text.ofNat, List.length_map, List.length_append, zeros, List.length_replicate] at h
      exact h
    have hvalue : x.shortest.read? x.negative = Binary64.ofDecimal? x.negative
        (ofDigits (significantDigits x.shortest.digits)) (x.shortest.exponent + z) := by
      rw [Decimal.read?, hdigits, Binary64.ofDecimal?_mul_pow _ hsignificant.pos, ← hdigits]
    have hpower : x.shortest.exponent + z = x.shortest.exponent +
        (Nat.toDigits 10 x.shortest.digits).length - 1 + 1 -
          (significantDigits x.shortest.digits).length := by
      rw [hlength]
      omega
    rw [if_neg hzero, hvalue, hpower]
    split
    · exact spellsDecimal_inPlace hsignificant _ _
    · exact spellsDecimal_withExponent hsignificant _ _ _

end SourcePress.Json
