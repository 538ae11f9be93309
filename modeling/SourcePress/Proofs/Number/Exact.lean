import Mathlib.Tactic
import SourcePress.Number.Shortest

/-!
# Numbers of the format are read exactly

A ratio that is a number of the format is rounded to this number, and a decimal may take zeros at
its end into its power of ten. So the shortest decimal of a number reads back as the number.
-/

namespace SourcePress

namespace Binary64

/-- The magnitude of a number. -/
def magnitude (x : Binary64) : ℚ := x.mantissa * (2 : ℚ) ^ x.exponent

/-- A ratio that is scaled is divided by a power of two. -/
theorem div_scaled (n d : Nat) (e : Int) :
    ((scaled n d e).1 : ℚ) / (scaled n d e).2 = n / d * (2 : ℚ) ^ (-e) := by
  rcases Int.eq_nat_or_neg e with ⟨k, rfl | rfl⟩
  · rw [zpow_neg, zpow_natCast]
    simp [scaled, div_eq_mul_inv, mul_comm, mul_assoc]
  · rw [neg_neg, zpow_natCast]
    simp [scaled, div_eq_mul_inv, mul_right_comm]

/-- The denominator of a scaled ratio is positive. -/
theorem scaled_pos {d : Nat} (hd : 0 < d) (n : Nat) (e : Int) : 0 < (scaled n d e).2 :=
  Nat.mul_pos hd (Nat.pow_pos Nat.two_pos)

/-- A quotient without a rest is rounded to itself. -/
theorem roundQuotient_mul {d : Nat} (hd : 0 < d) (m : Nat) : roundQuotient (m * d) d = m := by
  have hmod : m * d % d = 0 := Nat.mul_mod_left m d
  have hdiv : m * d / d = m := Nat.mul_div_cancel m hd
  simp [roundQuotient, hmod, hdiv, hd.ne]

/-- The powers of two around a ratio. -/
theorem two_zpow_bounds {n d : Nat} (hn : 0 < n) (hd : 0 < d) :
    (2 : ℚ) ^ ((n.log2 : Int) - d.log2 - 1) < n / d ∧
      (n : ℚ) / d < 2 ^ ((n.log2 : Int) - d.log2 + 1) := by
  have hn1 : ((2 ^ n.log2 : Nat) : ℚ) ≤ n := Nat.cast_le.mpr (Nat.log2_self_le hn.ne')
  have hn2 : (n : ℚ) < (2 ^ (n.log2 + 1) : Nat) := Nat.cast_lt.mpr Nat.lt_log2_self
  have hd1 : ((2 ^ d.log2 : Nat) : ℚ) ≤ d := Nat.cast_le.mpr (Nat.log2_self_le hd.ne')
  have hd2 : (d : ℚ) < (2 ^ (d.log2 + 1) : Nat) := Nat.cast_lt.mpr Nat.lt_log2_self
  have hnpos : (0 : ℚ) < n := Nat.cast_pos.mpr hn
  have hdpos : (0 : ℚ) < d := Nat.cast_pos.mpr hd
  constructor
  · have hsplit : (2 : ℚ) ^ ((n.log2 : Int) - d.log2 - 1) =
        (2 ^ n.log2 : Nat) / (2 ^ (d.log2 + 1) : Nat) := by
      rw [sub_sub, zpow_sub₀ two_ne_zero]
      norm_cast
    rw [hsplit]
    exact div_lt_div₀' hn1 hd2 hnpos hdpos
  · have hsplit : (2 : ℚ) ^ ((n.log2 : Int) - d.log2 + 1) =
        (2 ^ (n.log2 + 1) : Nat) / (2 ^ d.log2 : Nat) := by
      rw [sub_add_eq_add_sub, zpow_sub₀ two_ne_zero]
      norm_cast
    rw [hsplit]
    exact div_lt_div₀ hn2 hd1 (Nat.cast_nonneg _) (Nat.cast_pos.mpr (Nat.pow_pos Nat.two_pos))

/-- Under its exponent a ratio has 53 bits before the point, or fewer under the least exponent. -/
theorem exponentOf_bounds {n d : Nat} (hn : 0 < n) (hd : 0 < d) :
    ∃ e : Int, exponentOf n d = max (-1074) e ∧
      (2 : ℚ) ^ (52 : Int) ≤ n / d * 2 ^ (-e) ∧ (n : ℚ) / d * 2 ^ (-e) < 2 ^ (53 : Int) := by
  obtain ⟨hlow, hhigh⟩ := two_zpow_bounds hn hd
  have hscale : ∀ k : Int, (0 : ℚ) < 2 ^ k := fun k => zpow_pos two_pos k
  have hmul : ∀ j k : Int, (2 : ℚ) ^ j * 2 ^ k = 2 ^ (j + k) :=
    fun j k => (zpow_add₀ two_ne_zero j k).symm
  obtain ⟨low, hlowdef⟩ : ∃ low : Int, low = (n.log2 : Int) - d.log2 - 53 := ⟨_, rfl⟩
  have hexp : exponentOf n d = max (-1074)
      (if (scaled n d low).1 / (scaled n d low).2 < Nat.pow 2 53 then low else low + 1) := by
    rw [hlowdef]
    rfl
  have hlow' : (2 : ℚ) ^ (52 : Int) < n / d * 2 ^ (-low) := by
    have h := mul_lt_mul_of_pos_right hlow (hscale (-low))
    rw [hmul, show (n.log2 : Int) - d.log2 - 1 + -low = 52 by omega] at h
    exact h
  have hhigh' : (n : ℚ) / d * 2 ^ (-low) < 2 ^ (54 : Int) := by
    have h := mul_lt_mul_of_pos_right hhigh (hscale (-low))
    rw [hmul, show (n.log2 : Int) - d.log2 + 1 + -low = 54 by omega] at h
    exact h
  -- the first guess is right or too small by one, and the scaled ratio tells which
  have hcut : (scaled n d low).1 / (scaled n d low).2 < Nat.pow 2 53 ↔
      (n : ℚ) / d * 2 ^ (-low) < 2 ^ (53 : Int) := by
    have hpos := scaled_pos hd n low
    rw [← div_scaled, Nat.div_lt_iff_lt_mul hpos, div_lt_iff₀ (Nat.cast_pos.mpr hpos)]
    norm_cast
  rw [hexp]
  split
  · next hlt => exact ⟨low, rfl, hlow'.le, hcut.mp hlt⟩
  · next hge =>
    have hhalf : (n : ℚ) / d * 2 ^ (-(low + 1)) = n / d * 2 ^ (-low) * 2 ^ (-1 : Int) := by
      rw [mul_assoc, hmul, neg_add]
    have hge' : (2 : ℚ) ^ (53 : Int) ≤ n / d * 2 ^ (-low) := not_lt.mp (mt hcut.mpr hge)
    refine ⟨low + 1, rfl, ?_, ?_⟩
    · have h := mul_le_mul_of_nonneg_right hge' (hscale (-1)).le
      rw [hmul] at h
      rw [hhalf]
      exact h
    · have h := mul_lt_mul_of_pos_right hhigh' (hscale (-1))
      rw [hmul] at h
      rw [hhalf]
      exact h

/-- The exponent of a ratio that is a number of the format is that of the number. -/
theorem exponentOf_eq {n d : Nat} (hd : 0 < d) {x : Binary64} (hx : x.mantissa ≠ 0)
    (h : (n : ℚ) / d = x.magnitude) : exponentOf n d = x.exponent := by
  have hscale : ∀ k : Int, (0 : ℚ) < 2 ^ k := fun k => zpow_pos two_pos k
  have hpos : 0 < n := by
    refine Nat.pos_of_ne_zero fun hn => ?_
    have hzero : x.magnitude = 0 := by rw [← h, hn, Nat.cast_zero, zero_div]
    exact (mul_ne_zero (Nat.cast_ne_zero.mpr hx) (hscale _).ne') hzero
  obtain ⟨hbits, hleast, -, hnormal⟩ := x.canonical
  obtain ⟨e, hexp, hlow, hhigh⟩ := exponentOf_bounds hpos hd
  have hratio : (n : ℚ) / d * 2 ^ (-e) = x.mantissa * 2 ^ (x.exponent - e) := by
    rw [h, magnitude, mul_assoc, ← zpow_add₀ two_ne_zero, sub_eq_add_neg]
  rw [hratio] at hlow hhigh
  have hle : e ≤ x.exponent := by
    have hm : (x.mantissa : ℚ) < 2 ^ (53 : Int) := by exact_mod_cast hbits
    have hlt := lt_of_le_of_lt hlow (mul_lt_mul_of_pos_right hm (hscale (x.exponent - e)))
    rw [← zpow_add₀ two_ne_zero, zpow_lt_zpow_iff_right₀ one_lt_two] at hlt
    omega
  have hge : Nat.pow 2 52 ≤ x.mantissa → x.exponent ≤ e := by
    intro hbig
    have hm : (2 : ℚ) ^ (52 : Int) ≤ x.mantissa := by exact_mod_cast hbig
    have hlt := lt_of_le_of_lt (mul_le_mul_of_nonneg_right hm (hscale (x.exponent - e)).le) hhigh
    rw [← zpow_add₀ two_ne_zero, zpow_lt_zpow_iff_right₀ one_lt_two] at hlt
    omega
  rw [hexp]
  rcases hnormal with hbig | hexponent
  · have heq := hge hbig
    omega
  · omega

/-- A ratio in lowest terms that is a number of the format is rounded to it. -/
theorem ofReduced?_exact {n d : Nat} (hd : 0 < d) {x : Binary64} (hx : x.mantissa ≠ 0)
    (h : (n : ℚ) / d = x.magnitude) : ofReduced? x.negative n d = some x := by
  have hexp := exponentOf_eq hd hx h
  have hpos := scaled_pos hd n x.exponent
  have hvalue : ((scaled n d x.exponent).1 : ℚ) / (scaled n d x.exponent).2 = x.mantissa := by
    rw [div_scaled, h, magnitude, mul_assoc, ← zpow_add₀ two_ne_zero, add_neg_cancel, zpow_zero,
      mul_one]
  have hexact : (scaled n d x.exponent).1 = x.mantissa * (scaled n d x.exponent).2 := by
    rw [div_eq_iff (Nat.cast_ne_zero.mpr hpos.ne')] at hvalue
    exact_mod_cast hvalue
  have hround : roundQuotient (scaled n d x.exponent).1 (scaled n d x.exponent).2 = x.mantissa := by
    rw [hexact, roundQuotient_mul hpos]
  have hbits : x.mantissa ≠ Nat.pow 2 53 := x.canonical.1.ne
  unfold ofReduced?
  rw [hexp]
  dsimp only
  rw [hround, if_neg hbits, ofParts?, dif_pos x.canonical]

/-- A ratio that is a number of the format is read as it. -/
theorem ofRatio?_exact {n d : Nat} (hd : 0 < d) {x : Binary64} (hx : x.mantissa ≠ 0)
    (h : (n : ℚ) / d = x.magnitude) : ofRatio? x.negative n d = some x := by
  have hn : n ≠ 0 := by
    intro hn
    have hzero : x.magnitude = 0 := by rw [← h, hn, Nat.cast_zero, zero_div]
    exact mul_ne_zero (Nat.cast_ne_zero.mpr hx) (zpow_pos two_pos _).ne' hzero
  have hgcd : 0 < n.gcd d := Nat.gcd_pos_of_pos_right n hd
  have hreduced : ((n / n.gcd d : Nat) : ℚ) / (d / n.gcd d : Nat) = x.magnitude := by
    rw [Nat.cast_div (Nat.gcd_dvd_left n d) (Nat.cast_ne_zero.mpr hgcd.ne'),
      Nat.cast_div (Nat.gcd_dvd_right n d) (Nat.cast_ne_zero.mpr hgcd.ne'),
      div_div_div_cancel_right₀ (Nat.cast_ne_zero.mpr hgcd.ne'), h]
  have hd' : 0 < d / n.gcd d := Nat.div_pos (Nat.le_of_dvd hd (Nat.gcd_dvd_right n d)) hgcd
  rw [ofRatio?, if_neg hn]
  exact ofReduced?_exact hd' hx hreduced

/-- A ratio may be expanded. -/
theorem ofRatio?_mul (negative : Bool) (n d : Nat) {c : Nat} (hc : 0 < c) :
    ofRatio? negative (n * c) (d * c) = ofRatio? negative n d := by
  unfold ofRatio?
  by_cases hn : n = 0
  · rw [if_pos hn, if_pos (by rw [hn, Nat.zero_mul])]
  · rw [if_neg hn, if_neg (Nat.mul_ne_zero hn hc.ne')]
    dsimp only
    rw [Nat.gcd_mul_right, Nat.mul_div_mul_right _ _ hc, Nat.mul_div_mul_right _ _ hc]

/-- A positive number has one digit more when it is taken ten times. -/
theorem length_toDigits_mul_ten {n : Nat} (hn : 0 < n) :
    (Nat.toDigits 10 (n * 10)).length = (Nat.toDigits 10 n).length + 1 := by
  have happend := Nat.toDigits_append_toDigits (b := 10) (d := 0) (by decide) hn (by decide)
  rw [Nat.mul_comm, ← Nat.add_zero (10 * n), ← happend, List.length_append]
  rfl

/-- A decimal may take a zero at its end into its power of ten. -/
theorem ofDecimal?_mul_ten (negative : Bool) {digits : Nat} (hdigits : 0 < digits)
    (exponent : Int) :
    ofDecimal? negative (digits * 10) exponent = ofDecimal? negative digits (exponent + 1) := by
  have hlength := length_toDigits_mul_ten hdigits
  have hmagnitude : exponent + ((Nat.toDigits 10 (digits * 10)).length : Int) =
      exponent + 1 + (Nat.toDigits 10 digits).length := by omega
  have hzero : digits * 10 = 0 ↔ digits = 0 := by omega
  unfold ofDecimal?
  dsimp only
  rw [hmagnitude]
  simp only [hzero]
  split
  · rfl
  · split
    · rfl
    · rcases lt_or_ge exponent 0 with hneg | hnonneg
      · have h1 : exponent.toNat = 0 := by omega
        have h2 : (exponent + 1).toNat = 0 := by omega
        have h3 : (-exponent).toNat = (-(exponent + 1)).toNat + 1 := by omega
        rw [h1, h2, h3, Nat.pow_eq, Nat.pow_eq, Nat.pow_eq, Nat.pow_zero, Nat.mul_one,
          Nat.mul_one, Nat.pow_succ]
        exact ofRatio?_mul negative digits _ (by decide)
      · have h1 : (exponent + 1).toNat = exponent.toNat + 1 := by omega
        have h2 : (-exponent).toNat = 0 := by omega
        have h3 : (-(exponent + 1)).toNat = 0 := by omega
        rw [h1, h2, h3]
        simp only [Nat.pow_eq, Nat.pow_succ, Nat.mul_assoc, Nat.mul_comm 10]

/-- A decimal may take zeros at its end into its power of ten. -/
theorem ofDecimal?_mul_pow (negative : Bool) {digits : Nat} (hdigits : 0 < digits)
    (exponent : Int) (k : Nat) :
    ofDecimal? negative (digits * 10 ^ k) exponent = ofDecimal? negative digits (exponent + k) := by
  induction k generalizing exponent with
  | zero => rw [Nat.pow_zero, Nat.mul_one, Nat.cast_zero, add_zero]
  | succ k ih =>
    have hpos : 0 < digits * 10 ^ k := Nat.mul_pos hdigits (Nat.pow_pos (by decide))
    rw [Nat.pow_succ, ← Nat.mul_assoc, ofDecimal?_mul_ten negative hpos, ih, Nat.cast_succ,
      add_assoc, add_comm (1 : Int)]

/-- A decimal with no digit but zero is a zero. -/
theorem ofDecimal?_zero (negative : Bool) (exponent : Int) :
    ofDecimal? negative 0 exponent = some (zero negative) := rfl

/-- The only numbers without a mantissa are the zeros. -/
theorem eq_zero_of_mantissa {x : Binary64} (h : x.mantissa = 0) : x = zero x.negative := by
  obtain ⟨negative, mantissa, exponent, canonical⟩ := x
  dsimp only at h
  subst h
  have hexponent : exponent = -1074 := by
    rcases canonical.2.2.2 with hbig | hleast
    · exact absurd hbig (by decide)
    · exact hleast
  subst hexponent
  rfl

/-- A decimal that is looked for reads back as the number. -/
theorem read?_withDigits {x : Binary64} {count : Nat} {decimal : Decimal}
    (h : x.withDigits? count = some decimal) : decimal.read? x.negative = some x := by
  unfold withDigits? at h
  dsimp only at h
  split at h
  · next hlower hupper =>
    split at h
    · cases h
      exact eq_of_beq hlower
    · cases h
      exact eq_of_beq hupper
  · next hlower _ =>
    cases h
    exact eq_of_beq hlower
  · next _ hupper =>
    cases h
    exact eq_of_beq hupper
  · cases h

/-- A decimal whose power of ten is not far outside the format is read as its ratio. -/
theorem read?_eq_ofRatio? (negative : Bool) {d : Decimal} (hdigits : d.digits ≠ 0)
    (hlow : -330 ≤ d.exponent + (Nat.toDigits 10 d.digits).length)
    (hhigh : d.exponent + (Nat.toDigits 10 d.digits).length ≤ 310) :
    d.read? negative = ofRatio? negative d.numerator d.denominator := by
  unfold Decimal.read? ofDecimal?
  dsimp only
  rw [if_neg (by omega), if_neg (by omega)]
  rfl

/-- A number of at least one is read from all its digits. -/
theorem read?_allDigits_of_nonneg {x : Binary64} (hx : x.mantissa ≠ 0) (he : 0 ≤ x.exponent) :
    x.allDigits.read? x.negative = some x := by
  obtain ⟨hbits, -, hgreatest, -⟩ := x.canonical
  obtain ⟨k, hk⟩ := Int.eq_ofNat_of_zero_le he
  have hall : x.allDigits = ⟨x.mantissa * 2 ^ k, 0⟩ := by
    rw [allDigits, if_pos he, hk]
    rfl
  have hlength : (Nat.toDigits 10 (x.mantissa * 2 ^ k)).length ≤ 310 := by
    rw [Nat.length_toDigits_le_iff (by decide) (by decide)]
    calc x.mantissa * 2 ^ k < 2 ^ 53 * 2 ^ k := Nat.mul_lt_mul_of_pos_right hbits (by positivity)
      _ ≤ 2 ^ 53 * 2 ^ 971 := Nat.mul_le_mul_left _ (Nat.pow_le_pow_right (by decide) (by omega))
      _ < 10 ^ 310 := by decide +kernel
  rw [read?_eq_ofRatio? _ (by rw [hall]; positivity) (by rw [hall]; dsimp only; omega)
    (by rw [hall]; dsimp only; omega), hall]
  refine ofRatio?_exact Nat.one_pos hx ?_
  rw [magnitude, hk]
  simp [Decimal.numerator]

/-- A number with binary digits behind the point is read from all its digits. -/
theorem read?_allDigits_of_neg {x : Binary64} (hx : x.mantissa ≠ 0) (he : x.exponent < 0) :
    x.allDigits.read? x.negative = some x := by
  obtain ⟨hbits, hleast, -, -⟩ := x.canonical
  obtain ⟨k, hk⟩ := Int.eq_ofNat_of_zero_le (a := -x.exponent) (by omega)
  have hexponent : x.exponent = -k := by omega
  -- a mantissa over two to a power is five to that power times as much over ten to it
  have hall : x.allDigits = ⟨x.mantissa * 5 ^ k, -k⟩ := by
    rw [allDigits, if_neg (by omega), hk, hexponent]
    rfl
  have hbound : k ≤ 1074 := by omega
  have hpos : 0 < x.mantissa * 5 ^ k := by positivity
  have hmantissa : x.mantissa ≤ 10 ^ 16 := hbits.le.trans (by norm_num)
  have hfive : 5 ^ k ≤ 10 ^ k := Nat.pow_le_pow_left (by decide) k
  have hhigh : (Nat.toDigits 10 (x.mantissa * 5 ^ k)).length ≤ 17 + k := by
    rw [Nat.length_toDigits_le_iff (by decide) (by omega)]
    calc x.mantissa * 5 ^ k ≤ 10 ^ 16 * 10 ^ k := Nat.mul_le_mul hmantissa hfive
      _ < 10 ^ (17 + k) := by
        rw [← pow_add]
        exact Nat.pow_lt_pow_right (by decide) (by omega)
  -- fewer digits would make the power of two larger than the format has it
  have hlow : k ≤ (Nat.toDigits 10 (x.mantissa * 5 ^ k)).length + 330 := by
    by_contra hshort
    have hlt := (Nat.length_toDigits_le_iff (b := 10) (by decide)
      (Nat.length_toDigits_pos (n := x.mantissa * 5 ^ k))).mp le_rfl
    have hten : 10 ^ 331 * 5 ^ k < 2 ^ k * 5 ^ k := by
      calc 10 ^ 331 * 5 ^ k ≤ 10 ^ 331 * (x.mantissa * 5 ^ k) :=
            Nat.mul_le_mul_left _ (Nat.le_mul_of_pos_left _ (Nat.pos_of_ne_zero hx))
        _ < 10 ^ 331 * 10 ^ (Nat.toDigits 10 (x.mantissa * 5 ^ k)).length :=
            Nat.mul_lt_mul_of_pos_left hlt (by positivity)
        _ ≤ 10 ^ k := by
            rw [← pow_add]
            exact Nat.pow_le_pow_right (by decide) (by omega)
        _ = 2 ^ k * 5 ^ k := Nat.mul_pow 2 5 k
    have htwo : 2 ^ k ≤ 2 ^ 1074 := pow_le_pow_right₀ one_le_two hbound
    have hfar : 2 ^ 1074 < 10 ^ 331 := by decide +kernel
    exact lt_irrefl _ (((Nat.lt_of_mul_lt_mul_right hten).trans_le htwo).trans hfar)
  rw [read?_eq_ofRatio? _ (by rw [hall]; exact hpos.ne') (by rw [hall]; dsimp only; omega)
    (by rw [hall]; dsimp only; omega), hall]
  refine ofRatio?_exact (Nat.pow_pos (by decide)) hx ?_
  have hten : (10 : ℚ) ^ k = 2 ^ k * 5 ^ k := by rw [← mul_pow]; norm_num
  rw [magnitude, hexponent, zpow_neg, zpow_natCast]
  simp only [Decimal.numerator, Int.neg_neg, Int.toNat_natCast,
    Int.toNat_neg_natCast, Nat.pow_eq, Nat.pow_zero, Nat.mul_one, Nat.cast_mul, Nat.cast_pow,
    Nat.cast_ofNat]
  rw [hten]
  field_simp

/-- A number is read from all its digits. -/
theorem read?_allDigits {x : Binary64} (hx : x.mantissa ≠ 0) :
    x.allDigits.read? x.negative = some x := by
  rcases lt_or_ge x.exponent 0 with hneg | hnonneg
  · exact read?_allDigits_of_neg hx hneg
  · exact read?_allDigits_of_nonneg hx hnonneg

/-- The shortest decimal of a number reads back as the number. -/
theorem read?_shortest (x : Binary64) : x.shortest.read? x.negative = some x := by
  unfold shortest
  split
  · next hx =>
    rw [Decimal.read?, ofDecimal?_zero, ← eq_zero_of_mantissa hx]
  · next hx =>
    cases hfind : (List.range' 1 17).findSome? x.withDigits? with
    | none => exact read?_allDigits hx
    | some decimal =>
      obtain ⟨count, -, hcount⟩ := List.exists_of_findSome?_eq_some hfind
      exact read?_withDigits hcount

end Binary64

end SourcePress
