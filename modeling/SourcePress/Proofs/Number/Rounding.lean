import SourcePress.Proofs.Number.Exact

/-!
# How near a rounded result is

A ratio is rounded to the nearest number of the format, so the two differ by half a unit of the
last place at most. This bounds the error of each operation on numbers of an ordinary size, and
such an operation has a result. What is compared or taken down to an integer is the number itself,
without any error.
-/

namespace SourcePress

/-- A quotient that is not above a number is not rounded above it. -/
theorem roundQuotient_le {n d m : Nat} (hd : 0 < d) (h : n ≤ m * d) : roundQuotient n d ≤ m := by
  have hdivision := Nat.div_add_mod n d
  have hquotient : n / d ≤ m := Nat.div_le_of_le_mul (by rw [Nat.mul_comm]; exact h)
  unfold roundQuotient
  dsimp only
  split
  · next hup =>
    rcases Nat.lt_or_eq_of_le hquotient with hlt | heq
    · exact hlt
    · -- at the number itself there is no rest that could be rounded up
      rw [heq, Nat.mul_comm] at hdivision
      omega
  · exact hquotient

/-- A quotient that is not below a number is not rounded below it. -/
theorem le_roundQuotient {n d m : Nat} (hd : 0 < d) (h : m * d ≤ n) : m ≤ roundQuotient n d := by
  have hquotient : m ≤ n / d := (Nat.le_div_iff_mul_le hd).mpr h
  unfold roundQuotient
  dsimp only
  split
  · exact Nat.le_succ_of_le hquotient
  · exact hquotient

/-- A rounded quotient differs from the quotient by a half at most. -/
theorem abs_roundQuotient_sub_le {d : Nat} (hd : 0 < d) (n : Nat) :
    |(roundQuotient n d : ℚ) - n / d| ≤ 1 / 2 := by
  have hdpos : (0 : ℚ) < d := Nat.cast_pos.mpr hd
  have hdivision : (n : ℚ) = d * (n / d : Nat) + (n % d : Nat) := by
    exact_mod_cast (Nat.div_add_mod n d).symm
  have hrest : (n % d : Nat) < (d : ℚ) := Nat.cast_lt.mpr (Nat.mod_lt n hd)
  have hrestNonneg : (0 : ℚ) ≤ (n % d : Nat) := Nat.cast_nonneg _
  have hquotient : (n : ℚ) / d = (n / d : Nat) + (n % d : Nat) / d := by
    rw [div_eq_iff hdpos.ne', add_mul, div_mul_cancel₀ _ hdpos.ne', mul_comm _ (d : ℚ)]
    exact hdivision
  rw [hquotient, abs_le]
  unfold roundQuotient
  dsimp only
  split
  · next hup =>
    have hhalf : (1 / 2 : ℚ) ≤ (n % d : Nat) / d := by
      rw [div_le_div_iff₀ two_pos hdpos]
      have htwice : d ≤ 2 * (n % d) := by omega
      have hcast : (d : ℚ) ≤ 2 * (n % d : Nat) := by exact_mod_cast htwice
      linarith
    have hone : ((n % d : Nat) : ℚ) / d ≤ 1 := (div_le_one hdpos).mpr hrest.le
    push_cast
    constructor <;> linarith
  · next hdown =>
    have hhalf : ((n % d : Nat) : ℚ) / d ≤ 1 / 2 := by
      rw [div_le_div_iff₀ hdpos two_pos]
      have htwice : 2 * (n % d) ≤ d := by omega
      have hcast : (2 * (n % d : Nat) : ℚ) ≤ d := by exact_mod_cast htwice
      linarith
    have hzero : 0 ≤ ((n % d : Nat) : ℚ) / d := div_nonneg hrestNonneg hdpos.le
    constructor <;> linarith

namespace Binary64

/-- A magnitude with a sign. -/
def withSign (negative : Bool) (q : ℚ) : ℚ := if negative then -q else q

/-- A number with its sign. -/
def toRat (x : Binary64) : ℚ := withSign x.negative x.magnitude

/-- How far a rounded result may be from the exact one. -/
def roundingError (q : ℚ) : ℚ := (1 + |q|) / 2 ^ 53

/-- Up to this bound, half of the largest power of two of the format, every result has a place
in the format. -/
def resultBound : ℚ := 2 ^ (1022 : Int)

/-- Powers of two of an ordinary size are below the bound. -/
theorem le_resultBound {q : ℚ} {k : Nat} (hk : k ≤ 1022) (h : q ≤ 2 ^ k) : q ≤ resultBound := by
  rw [← zpow_natCast] at h
  exact h.trans (zpow_le_zpow_right₀ one_le_two (by omega))

/-- No error is negative. -/
theorem roundingError_nonneg (q : ℚ) : 0 ≤ roundingError q :=
  div_nonneg (add_nonneg zero_le_one (abs_nonneg q)) (by positivity)

/-- Zero has no sign. -/
theorem withSign_zero (negative : Bool) : withSign negative 0 = 0 := by
  cases negative <;> simp [withSign]

/-- Magnitudes with one sign are as far apart as without it. -/
theorem abs_withSign_sub (negative : Bool) (p q : ℚ) :
    |withSign negative p - withSign negative q| = |p - q| := by
  cases negative with
  | false => rfl
  | true =>
    change |-p - -q| = |p - q|
    rw [neg_sub_neg, abs_sub_comm]

/-- The signs of a product are put together. -/
theorem withSign_mul (b c : Bool) (p q : ℚ) :
    withSign b p * withSign c q = withSign (b != c) (p * q) := by
  cases b <;> cases c <;> simp [withSign]

/-- A number is its absolute value with its sign. -/
theorem withSign_abs (q : ℚ) : withSign (decide (q < 0)) |q| = q := by
  rcases lt_or_ge q 0 with hneg | hnonneg
  · rw [decide_eq_true hneg, abs_of_neg hneg]
    exact neg_neg q
  · rw [decide_eq_false hnonneg.not_gt, abs_of_nonneg hnonneg]
    rfl

/-- What is near a magnitude is, with the sign of the number, near the number. -/
theorem abs_toRat_sub_of_magnitude {x : Binary64} {q ε : ℚ} (h : |x.magnitude - q| ≤ ε) :
    |x.toRat - withSign x.negative q| ≤ ε := by
  rw [toRat, abs_withSign_sub]
  exact h

/-- The sign makes no difference to the error. -/
theorem roundingError_abs (q : ℚ) : roundingError |q| = roundingError q := by
  rw [roundingError, roundingError, abs_abs]

/-- The sign makes no difference to the error. -/
theorem roundingError_withSign (negative : Bool) (q : ℚ) :
    roundingError (withSign negative q) = roundingError q := by
  rw [roundingError, roundingError, withSign]
  split
  · rw [abs_neg]
  · rfl

/-- No magnitude is negative. -/
theorem magnitude_nonneg (x : Binary64) : 0 ≤ x.magnitude :=
  mul_nonneg (Nat.cast_nonneg _) (zpow_pos two_pos _).le

/-- No magnitude is beyond the largest power of two of the format. -/
theorem magnitude_le (x : Binary64) : x.magnitude ≤ 2 ^ 1024 := by
  obtain ⟨hbits, -, hgreatest, -⟩ := x.canonical
  have hmantissa : (x.mantissa : ℚ) ≤ 2 ^ (53 : Int) := by exact_mod_cast hbits.le
  have hscale : (2 : ℚ) ^ x.exponent ≤ 2 ^ (971 : Int) :=
    zpow_le_zpow_right₀ one_le_two hgreatest
  calc x.magnitude ≤ 2 ^ (53 : Int) * 2 ^ (971 : Int) :=
        mul_le_mul hmantissa hscale (zpow_pos two_pos _).le (zpow_pos two_pos _).le
    _ = 2 ^ 1024 := by
        rw [← zpow_add₀ two_ne_zero]
        exact zpow_natCast 2 1024

/-- A number without a minus sign is its magnitude. -/
theorem toRat_of_not_negative {x : Binary64} (hx : x.negative = false) : x.toRat = x.magnitude := by
  rw [toRat, hx]
  rfl

/-- Without its sign a number is its magnitude. -/
theorem abs_toRat (x : Binary64) : |x.toRat| = x.magnitude := by
  have h := abs_withSign_sub x.negative x.magnitude 0
  rwa [withSign_zero, sub_zero, sub_zero, abs_of_nonneg x.magnitude_nonneg] at h

/-- The opposite number has the opposite value. -/
theorem toRat_neg (x : Binary64) : x.neg.toRat = -x.toRat := by
  have hmagnitude : x.neg.magnitude = x.magnitude := rfl
  have hnegative : x.neg.negative = !x.negative := rfl
  rw [toRat, toRat, hmagnitude, hnegative]
  cases x.negative <;> simp [withSign]

/-- A zero of either sign has the value zero. -/
theorem toRat_zero (negative : Bool) : (zero negative).toRat = 0 := by
  have hmagnitude : (zero negative).magnitude = 0 := by
    rw [magnitude, zero, Nat.cast_zero, zero_mul]
  rw [toRat, hmagnitude, withSign_zero]

/-- A bound on a scaled ratio as a bound on its numerator. -/
theorem scaled_le_iff {n d : Nat} (hd : 0 < d) (e : Int) (m : Nat) :
    (scaled n d e).1 ≤ m * (scaled n d e).2 ↔ (n : ℚ) / d * 2 ^ (-e) ≤ m := by
  rw [← div_scaled, div_le_iff₀ (Nat.cast_pos.mpr (scaled_pos hd n e))]
  norm_cast

/-- A bound under a scaled ratio as a bound under its numerator. -/
theorem le_scaled_iff {n d : Nat} (hd : 0 < d) (e : Int) (m : Nat) :
    m * (scaled n d e).2 ≤ (scaled n d e).1 ↔ (m : ℚ) ≤ n / d * 2 ^ (-e) := by
  rw [← div_scaled, le_div_iff₀ (Nat.cast_pos.mpr (scaled_pos hd n e))]
  norm_cast

/-- What a rounded mantissa with its exponent gives has their magnitude. A carry into a further bit
goes to the exponent. -/
theorem magnitude_of_ofParts? {negative : Bool} {m : Nat} {e : Int} {x : Binary64}
    (h : (if m = Nat.pow 2 53 then ofParts? negative (Nat.pow 2 52) (e + 1)
      else ofParts? negative m e) = some x) :
    x.negative = negative ∧ x.magnitude = m * 2 ^ e := by
  have hparts : ∀ {m' : Nat} {e' : Int}, ofParts? negative m' e' = some x →
      x.negative = negative ∧ x.magnitude = m' * 2 ^ e' := by
    intro m' e' h
    unfold ofParts? at h
    split at h
    · cases h
      exact ⟨rfl, rfl⟩
    · cases h
  split at h
  · next hfull =>
    obtain ⟨hnegative, hmagnitude⟩ := hparts h
    refine ⟨hnegative, ?_⟩
    rw [hmagnitude, hfull, zpow_add₀ two_ne_zero]
    push_cast
    ring
  · exact hparts h

/-- A rounded mantissa with its exponent gives a number, unless the exponent is too large. -/
theorem exists_ofParts? (negative : Bool) {m : Nat} {e : Int} (hm : m ≤ 2 ^ 53)
    (hleast : -1074 ≤ e) (hgreatest : e ≤ 970) (hnormal : 2 ^ 52 ≤ m ∨ e = -1074) :
    ∃ x, (if m = Nat.pow 2 53 then ofParts? negative (Nat.pow 2 52) (e + 1)
      else ofParts? negative m e) = some x := by
  split
  · have hcarry : IsCanonical (Nat.pow 2 52) (e + 1) :=
      ⟨by decide, by omega, by omega, .inl le_rfl⟩
    exact ⟨⟨negative, _, _, hcarry⟩, by rw [ofParts?, dif_pos hcarry]⟩
  · next hfull =>
    have hbits : m < Nat.pow 2 53 := lt_of_le_of_ne hm hfull
    have hcanonical : IsCanonical m e := ⟨hbits, hleast, by omega, hnormal⟩
    exact ⟨⟨negative, m, e, hcanonical⟩, by rw [ofParts?, dif_pos hcanonical]⟩

/-- What is scaled down and up again is what it was. -/
theorem rescale_eq (q : ℚ) (e : Int) : q * 2 ^ (-e) * 2 ^ e = q := by
  rw [mul_assoc, ← zpow_add₀ two_ne_zero, neg_add_cancel, zpow_zero, mul_one]

/-- A scaled ratio that is rounded and scaled back is off by half of the scale at most. -/
theorem abs_rescaled_sub_le {n d : Nat} (hd : 0 < d) (e : Int) :
    |(roundQuotient (scaled n d e).1 (scaled n d e).2 : ℚ) * 2 ^ e - n / d| ≤ 2 ^ e / 2 := by
  have hscale : (0 : ℚ) < 2 ^ e := zpow_pos two_pos e
  have hround := abs_roundQuotient_sub_le (scaled_pos hd n e) (scaled n d e).1
  have hback : (n : ℚ) / d = n / d * 2 ^ (-e) * 2 ^ e := (rescale_eq _ e).symm
  rw [div_scaled] at hround
  rw [hback, ← sub_mul, abs_mul, abs_of_pos hscale]
  calc |(roundQuotient (scaled n d e).1 (scaled n d e).2 : ℚ) - n / d * 2 ^ (-e)| * 2 ^ e
      ≤ 1 / 2 * 2 ^ e := mul_le_mul_of_nonneg_right hround hscale.le
    _ = 2 ^ e / 2 := by ring

/-- The rounded mantissa of a ratio has no more bits than the format, or it is the first number with
one more. -/
theorem roundQuotient_exponentOf_le {n d : Nat} (hn : 0 < n) (hd : 0 < d) :
    roundQuotient (scaled n d (exponentOf n d)).1 (scaled n d (exponentOf n d)).2 ≤ 2 ^ 53 := by
  obtain ⟨least, hexponent, -, hhigh⟩ := exponentOf_bounds hn hd
  have hratio : (0 : ℚ) ≤ n / d := by positivity
  refine roundQuotient_le (scaled_pos hd n _) ((scaled_le_iff hd _ _).mpr ?_)
  have hmono : (2 : ℚ) ^ (-exponentOf n d) ≤ 2 ^ (-least) :=
    zpow_le_zpow_right₀ one_le_two (by omega)
  exact (mul_le_mul_of_nonneg_left hmono hratio).trans (by exact_mod_cast hhigh.le)

/-- The rounded mantissa of a ratio has all bits of the format, unless the exponent is the least
one. -/
theorem le_roundQuotient_exponentOf {n d : Nat} (hn : 0 < n) (hd : 0 < d) :
    2 ^ 52 ≤ roundQuotient (scaled n d (exponentOf n d)).1 (scaled n d (exponentOf n d)).2 ∨
      exponentOf n d = -1074 := by
  obtain ⟨least, hexponent, hlow, -⟩ := exponentOf_bounds hn hd
  rcases max_cases (-1074) least with ⟨hmax, -⟩ | ⟨hmax, -⟩
  · exact .inr (hexponent.trans hmax)
  · refine .inl (le_roundQuotient (scaled_pos hd n _) ((le_scaled_iff hd _ _).mpr ?_))
    rw [hexponent, hmax]
    exact_mod_cast hlow

/-- Half a unit in the last place of a ratio is within the rounding error. -/
theorem half_unit_le_roundingError {n d : Nat} (hn : 0 < n) (hd : 0 < d) :
    (2 : ℚ) ^ exponentOf n d / 2 ≤ roundingError (n / d) := by
  obtain ⟨least, hexponent, hlow, -⟩ := exponentOf_bounds hn hd
  have hratio : (0 : ℚ) ≤ n / d := by positivity
  rw [roundingError, abs_of_nonneg hratio]
  rcases max_cases (-1074) least with ⟨hmax, -⟩ | ⟨hmax, -⟩
  -- under the least exponent the mantissa may be short, and the unit of its last place is tiny
  · have htiny : (2 : ℚ) ^ (-1074 : Int) ≤ 2 ^ (-52 : Int) :=
      zpow_le_zpow_right₀ one_le_two (by decide)
    have hunit : (2 : ℚ) ^ (-52 : Int) / 2 = 1 / 2 ^ 53 := by norm_num
    rw [hexponent, hmax]
    calc (2 : ℚ) ^ (-1074 : Int) / 2 ≤ 1 / 2 ^ 53 := by rw [← hunit]; gcongr
      _ ≤ (1 + n / d) / 2 ^ 53 := by gcongr; exact le_add_of_nonneg_right hratio
  -- else the ratio has all bits in front of that place
  · have hunit : (2 : ℚ) ^ (52 : Int) * 2 ^ least ≤ n / d := by
      rw [← rescale_eq (n / d) least]
      exact mul_le_mul_of_nonneg_right hlow (zpow_pos two_pos least).le
    rw [hexponent, hmax, div_le_div_iff₀ two_pos (by positivity)]
    norm_num at hunit ⊢
    linarith

/-- The exponent of a ratio that is not far too large is one of the format. -/
theorem exponentOf_le_of_le {n d : Nat} (hn : 0 < n) (hd : 0 < d)
    (h : (n : ℚ) / d ≤ resultBound) : exponentOf n d ≤ 970 := by
  obtain ⟨least, hexponent, hlow, -⟩ := exponentOf_bounds hn hd
  have hbound : (2 : ℚ) ^ (52 : Int) ≤ 2 ^ (1022 + -least) := by
    rw [zpow_add₀ two_ne_zero]
    exact hlow.trans (mul_le_mul_of_nonneg_right h (zpow_pos two_pos _).le)
  have hpower := (zpow_le_zpow_iff_right₀ one_lt_two).mp hbound
  omega

/-- A positive ratio is rounded to a mantissa with an exponent that are near it. Unless the ratio is
far too large, the exponent is one of the format. -/
theorem ofReduced?_eq (negative : Bool) {n d : Nat} (hn : 0 < n) (hd : 0 < d) :
    ∃ (m : Nat) (e : Int),
      ofReduced? negative n d = (if m = Nat.pow 2 53 then ofParts? negative (Nat.pow 2 52) (e + 1)
        else ofParts? negative m e) ∧
      m ≤ 2 ^ 53 ∧ -1074 ≤ e ∧ (2 ^ 52 ≤ m ∨ e = -1074) ∧
      |(m : ℚ) * 2 ^ e - n / d| ≤ roundingError (n / d) ∧
      ((n : ℚ) / d ≤ resultBound → e ≤ 970) := by
  obtain ⟨least, hexponent, -, -⟩ := exponentOf_bounds hn hd
  have hleast : -1074 ≤ exponentOf n d := by omega
  exact ⟨_, exponentOf n d, rfl, roundQuotient_exponentOf_le hn hd, hleast,
    le_roundQuotient_exponentOf hn hd,
    (abs_rescaled_sub_le hd _).trans (half_unit_le_roundingError hn hd),
    exponentOf_le_of_le hn hd⟩

/-- The number of a ratio is a zero or that of the ratio in lowest terms. -/
theorem ofRatio?_cases (negative : Bool) (n : Nat) {d : Nat} (hd : 0 < d) :
    n = 0 ∧ ofRatio? negative n d = some (zero negative) ∨
      ∃ n' d' : Nat, 0 < n' ∧ 0 < d' ∧ (n' : ℚ) / d' = n / d ∧
        ofRatio? negative n d = ofReduced? negative n' d' := by
  unfold ofRatio?
  split
  · next hn => exact .inl ⟨hn, rfl⟩
  · next hn =>
    have hcommon : 0 < n.gcd d := Nat.gcd_pos_of_pos_right n hd
    refine .inr ⟨n / n.gcd d, d / n.gcd d,
      Nat.div_pos (Nat.le_of_dvd (Nat.pos_of_ne_zero hn) (Nat.gcd_dvd_left n d)) hcommon,
      Nat.div_pos (Nat.le_of_dvd hd (Nat.gcd_dvd_right n d)) hcommon, ?_, rfl⟩
    rw [Nat.cast_div (Nat.gcd_dvd_left n d) (Nat.cast_ne_zero.mpr hcommon.ne'),
      Nat.cast_div (Nat.gcd_dvd_right n d) (Nat.cast_ne_zero.mpr hcommon.ne'),
      div_div_div_cancel_right₀ (Nat.cast_ne_zero.mpr hcommon.ne')]

/-- The number of a ratio is near it. -/
theorem near_of_ofRatio? {negative : Bool} {n d : Nat} (hd : 0 < d) {x : Binary64}
    (h : ofRatio? negative n d = some x) :
    x.negative = negative ∧ |x.magnitude - n / d| ≤ roundingError (n / d) := by
  rcases ofRatio?_cases negative n hd with ⟨hn, hzero⟩ | ⟨n', d', hn', hd', hratio, hreduced⟩
  · rw [hzero] at h
    cases h
    refine ⟨rfl, ?_⟩
    rw [magnitude, zero, hn, Nat.cast_zero, zero_mul, zero_div, sub_zero, abs_zero]
    exact roundingError_nonneg 0
  · obtain ⟨m, e, hparts, -, -, -, hnear, -⟩ := ofReduced?_eq negative hn' hd'
    obtain ⟨hnegative, hmagnitude⟩ :=
      magnitude_of_ofParts? (hparts.symm.trans (hreduced.symm.trans h))
    rw [hmagnitude, ← hratio]
    exact ⟨hnegative, hnear⟩

/-- A ratio that is not far too large is rounded to a number near it. -/
theorem exists_ofRatio? (negative : Bool) {n d : Nat} (hd : 0 < d) (h : (n : ℚ) / d ≤ resultBound) :
    ∃ x, ofRatio? negative n d = some x ∧ x.negative = negative ∧
      |x.magnitude - n / d| ≤ roundingError (n / d) := by
  have hexists : ∃ x, ofRatio? negative n d = some x := by
    rcases ofRatio?_cases negative n hd with ⟨-, hzero⟩ | ⟨n', d', hn', hd', hratio, hreduced⟩
    · exact ⟨_, hzero⟩
    · obtain ⟨m, e, hparts, hbits, hleast, hnormal, -, hgreatest⟩ := ofReduced?_eq negative hn' hd'
      rw [hreduced, hparts]
      rw [← hratio] at h
      exact exists_ofParts? negative hbits hleast (hgreatest h) hnormal
  obtain ⟨x, hx⟩ := hexists
  exact ⟨x, hx, near_of_ofRatio? hd hx⟩

/-- A natural number is read as a number near it, or as the largest one if it is far too large. -/
theorem natCast_cases (n : Nat) :
    |(n : Binary64).toRat - n| ≤ roundingError n ∨
      resultBound < n ∧ (n : Binary64) = largest false := by
  have hread : (n : Binary64) = (ofRatio? false n 1).getD (largest false) := by
    change ((ofRatio? (decide ((n : Int) < 0)) (n : Int).natAbs 1).getD (largest false)) = _
    rw [decide_eq_false (by omega), Int.natAbs_natCast]
  rw [hread]
  cases h : ofRatio? false n 1 with
  | some x =>
    left
    obtain ⟨hnegative, hnear⟩ := near_of_ofRatio? Nat.one_pos h
    rw [← toRat_of_not_negative hnegative, Nat.cast_one, div_one] at hnear
    exact hnear
  | none =>
    refine .inr ⟨not_le.mp fun hle => ?_, rfl⟩
    obtain ⟨x, hx, -⟩ := exists_ofRatio? false Nat.one_pos (n := n)
      (by rwa [Nat.cast_one, div_one])
    rw [h] at hx
    cases hx

/-- A decimal literal of a few digits is read as a number near it. -/
theorem abs_toRat_literal_sub_le {digits places : Nat} (hdigits : digits < 10 ^ 16)
    (hplaces : places ≤ 16) :
    |(OfScientific.ofScientific digits true places : Binary64).toRat - digits / 10 ^ places| ≤
      roundingError (digits / 10 ^ places) := by
  by_cases hzero : digits = 0
  · subst hzero
    have hread : (OfScientific.ofScientific 0 true places : Binary64) = zero false := rfl
    rw [hread, toRat_zero, Nat.cast_zero, zero_div, sub_zero, abs_zero]
    exact roundingError_nonneg 0
  · have hlength := (Nat.length_toDigits_le_iff (b := 10) (by decide) (by decide)).mpr hdigits
    have hratio : (⟨digits, -places⟩ : Decimal).read? false =
        ofRatio? false digits (10 ^ places) := by
      rw [read?_eq_ofRatio? false hzero (by dsimp only; omega) (by dsimp only; omega)]
      simp [Decimal.numerator, Decimal.denominator]
    have hbound : (digits : ℚ) / (10 ^ places : Nat) ≤ resultBound := by
      have hpower : (1 : ℚ) ≤ (10 ^ places : Nat) := by exact_mod_cast Nat.pow_pos (by decide)
      have hlarge : (digits : ℚ) ≤ 2 ^ 54 := by exact_mod_cast hdigits.le.trans (by decide)
      exact le_resultBound (k := 54) (by decide)
        ((div_le_self (Nat.cast_nonneg _) hpower).trans hlarge)
    obtain ⟨x, hx, hnegative, hnear⟩ := exists_ofRatio? false (Nat.pow_pos (by decide)) hbound
    have hread : (OfScientific.ofScientific digits true places : Binary64) = x := by
      change ((⟨digits, -places⟩ : Decimal).read? false).getD _ = x
      rw [hratio, hx]
      rfl
    rw [hread, toRat_of_not_negative hnegative]
    rwa [Nat.cast_pow, Nat.cast_ofNat] at hnear

/-- A mantissa with a power of two is rounded to a number near it. -/
theorem exists_ofDyadic? (negative : Bool) {m : Nat} {e : Int} (h : (m : ℚ) * 2 ^ e ≤ resultBound) :
    ∃ x, ofDyadic? negative m e = some x ∧ x.negative = negative ∧
      |x.magnitude - m * 2 ^ e| ≤ roundingError (m * 2 ^ e) := by
  have hratio : ((scaled m 1 (-e)).1 : ℚ) / (scaled m 1 (-e)).2 = m * 2 ^ e := by
    rw [div_scaled, neg_neg, Nat.cast_one, div_one]
  rw [← hratio] at h ⊢
  exact exists_ofRatio? negative (scaled_pos Nat.one_pos m (-e)) h

/-- A signed mantissa at an exponent is the number. -/
theorem signedAt_mul (x : Binary64) {e : Int} (he : e ≤ x.exponent) :
    (x.signedAt e : ℚ) * 2 ^ e = x.toRat := by
  have hshift : ((x.mantissa * Nat.pow 2 (x.exponent - e).toNat : Nat) : ℚ) * 2 ^ e =
      x.magnitude := by
    have hnat : x.exponent = ((x.exponent - e).toNat : Int) + e := by omega
    rw [magnitude, Nat.pow_eq]
    conv_rhs => rw [hnat, zpow_add₀ two_ne_zero, zpow_natCast]
    push_cast
    ring
  rw [signedAt, toRat, withSign, ← hshift]
  split
  · push_cast
    ring
  · push_cast
    ring

/-- A sum is rounded to a number near it. -/
theorem exists_add? {x y : Binary64} (h : |x.toRat + y.toRat| ≤ resultBound) :
    ∃ z, x.add? y = some z ∧
      |z.toRat - (x.toRat + y.toRat)| ≤ roundingError (x.toRat + y.toRat) := by
  obtain ⟨e, he⟩ : ∃ e, min x.exponent y.exponent = e := ⟨_, rfl⟩
  obtain ⟨sum, hsum⟩ : ∃ sum, x.signedAt e + y.signedAt e = sum := ⟨_, rfl⟩
  have hscale : (0 : ℚ) < 2 ^ e := zpow_pos two_pos e
  have hvalue : x.toRat + y.toRat = sum * 2 ^ e := by
    rw [← hsum, ← x.signedAt_mul (e := e) (by omega), ← y.signedAt_mul (e := e) (by omega)]
    push_cast
    ring
  have habs : ((sum.natAbs : Nat) : ℚ) * 2 ^ e = |(sum : ℚ) * 2 ^ e| := by
    rw [Nat.cast_natAbs, abs_mul, abs_of_pos hscale, Int.cast_abs]
  unfold add?
  dsimp only
  rw [he, hsum, hvalue]
  rw [hvalue] at h
  split
  · next hzero =>
    refine ⟨zero (x.negative && y.negative), rfl, ?_⟩
    rw [toRat_zero, hzero, Int.cast_zero, zero_mul, sub_zero, abs_zero]
    exact roundingError_nonneg 0
  · obtain ⟨z, hz, hnegative, hnear⟩ := exists_ofDyadic? (sum < 0) (m := sum.natAbs) (e := e)
      (by rw [habs]; exact h)
    have hsign : decide (sum < 0) = decide ((sum : ℚ) * 2 ^ e < 0) :=
      decide_eq_decide.mpr (by rw [mul_neg_iff, Int.cast_lt_zero]; simp [hscale, hscale.not_gt])
    refine ⟨z, hz, ?_⟩
    have hsigned := abs_toRat_sub_of_magnitude hnear
    rwa [hnegative, habs, hsign, withSign_abs, roundingError_abs] at hsigned

/-- A sum that is taken as a number of the format is near the exact one. -/
theorem abs_toRat_add_sub_le {x y : Binary64} (h : |x.toRat + y.toRat| ≤ resultBound) :
    |(x + y).toRat - (x.toRat + y.toRat)| ≤ roundingError (x.toRat + y.toRat) := by
  obtain ⟨z, hz, hnear⟩ := exists_add? h
  have hresult : x + y = z := by
    change (x.add? y).getD _ = z
    rw [hz]
    rfl
  rw [hresult]
  exact hnear

/-- A difference is rounded to a number near it. -/
theorem exists_sub? {x y : Binary64} (h : |x.toRat - y.toRat| ≤ resultBound) :
    ∃ z, x.sub? y = some z ∧
      |z.toRat - (x.toRat - y.toRat)| ≤ roundingError (x.toRat - y.toRat) := by
  rw [sub_eq_add_neg, ← toRat_neg] at h ⊢
  exact exists_add? h

/-- A product is rounded to a number near it. -/
theorem exists_mul? {x y : Binary64} (h : |x.toRat * y.toRat| ≤ resultBound) :
    ∃ z, x.mul? y = some z ∧
      |z.toRat - x.toRat * y.toRat| ≤ roundingError (x.toRat * y.toRat) := by
  have hproduct : ((x.mantissa * y.mantissa : Nat) : ℚ) * 2 ^ (x.exponent + y.exponent) =
      x.magnitude * y.magnitude := by
    rw [magnitude, magnitude, zpow_add₀ two_ne_zero]
    push_cast
    ring
  have hvalue : x.toRat * y.toRat =
      withSign (x.negative != y.negative) (x.magnitude * y.magnitude) := withSign_mul _ _ _ _
  have hbound : x.magnitude * y.magnitude ≤ resultBound := by
    have habs := abs_withSign_sub (x.negative != y.negative) (x.magnitude * y.magnitude) 0
    rw [withSign_zero, sub_zero, sub_zero, ← hvalue] at habs
    exact (le_abs_self _).trans (habs.symm.le.trans h)
  obtain ⟨z, hz, hnegative, hnear⟩ :=
    exists_ofDyadic? (x.negative != y.negative) (m := x.mantissa * y.mantissa)
      (e := x.exponent + y.exponent) (by rw [hproduct]; exact hbound)
  refine ⟨z, hz, ?_⟩
  have hsigned := abs_toRat_sub_of_magnitude hnear
  rwa [hnegative, hproduct, ← roundingError_withSign (x.negative != y.negative), ← hvalue]
    at hsigned

/-- A product that is taken as a number of the format is near the exact one. -/
theorem abs_toRat_mul_sub_le {x y : Binary64} (h : |x.toRat * y.toRat| ≤ resultBound) :
    |(x * y).toRat - x.toRat * y.toRat| ≤ roundingError (x.toRat * y.toRat) := by
  obtain ⟨z, hz, hnear⟩ := exists_mul? h
  have hresult : x * y = z := by
    change (x.mul? y).getD _ = z
    rw [hz]
    rfl
  rw [hresult]
  exact hnear

/-- Numbers are compared by their values. -/
theorem lt_iff (x y : Binary64) : x.lt y = true ↔ x.toRat < y.toRat := by
  obtain ⟨e, he⟩ : ∃ e, min x.exponent y.exponent = e := ⟨_, rfl⟩
  have hscale : (0 : ℚ) < 2 ^ e := zpow_pos two_pos e
  unfold lt
  dsimp only
  rw [he, decide_eq_true_iff, ← x.signedAt_mul (e := e) (by omega),
    ← y.signedAt_mul (e := e) (by omega), mul_lt_mul_iff_of_pos_right hscale, Int.cast_lt]

/-- Numbers are compared by their values. -/
theorem le_iff (x y : Binary64) : x.le y = true ↔ x.toRat ≤ y.toRat := by
  rw [le, Bool.not_eq_true', ← Bool.not_eq_true, lt_iff, not_lt]

/-- A number is taken down to the greatest integer that is not above it. -/
theorem floor_eq (x : Binary64) : x.floor = ⌊x.toRat⌋ := by
  have hratio : ((scaled x.mantissa 1 (-x.exponent)).1 : ℚ) /
      (scaled x.mantissa 1 (-x.exponent)).2 = x.magnitude := by
    rw [div_scaled, neg_neg, Nat.cast_one, div_one, magnitude]
  obtain ⟨n, d, hscaled⟩ : ∃ n d, scaled x.mantissa 1 (-x.exponent) = (n, d) := ⟨_, _, rfl⟩
  rw [hscaled] at hratio
  unfold floor
  rw [hscaled, toRat, withSign, ← hratio]
  dsimp only
  split
  · have hfloor := Rat.floor_intCast_div_natCast (-(n : Int)) d
    rw [Int.cast_neg, Int.cast_natCast, neg_div] at hfloor
    exact hfloor.symm
  · have hfloor := Rat.floor_intCast_div_natCast (n : Int) d
    rw [Int.cast_natCast] at hfloor
    exact hfloor.symm

end Binary64

end SourcePress
