import SourcePress.Measure.Size
import SourcePress.Proofs.Json.WrittenNumbers
import SourcePress.Proofs.Number.Rounding

/-!
# Sizes told in units

A size below the fifth power of a thousand and twenty-four is a number of the format, and so is its
quotient by each of these powers, so the unit is chosen without any error: it is the largest one
that the size fills. The number of units is then rounded to hundredths and told as a decimal
without needless zeros. Just below the next unit it is rounded up to a full thousand and
twenty-four, for which there is no larger unit any more.
-/

namespace SourcePress.Measure

open Binary64

/-- True of the text of a decimal without needless zeros and of its value: a whole part without a
zero in front, and a fraction without one at its end. -/
def IsPlainDecimal (t : Text) (x : ℚ) : Prop :=
  ∃ whole digits fraction, Json.IsWhole whole ∧ Json.SpellsFraction digits fraction ∧
    digits.getLast? ≠ some (.scalar '0') ∧ t = whole ++ fraction ∧
    x = Json.ofDigits whole + Json.ofDigits digits / 10 ^ digits.length

/-- The digits of hundredths behind the point. -/
def fractionDigits (hundredths : Nat) : Text :=
  if hundredths = 0 then []
  else if hundredths % 10 = 0 then Text.ofNat (hundredths / 10)
  else if hundredths < 10 then .scalar '0' :: Text.ofNat hundredths
  else Text.ofNat hundredths

/-- The digits behind the point are digits, the last of them is not zero, and their value is that
of the hundredths. -/
theorem fractionDigits_spec :
    ∀ f < 100, (∀ c ∈ fractionDigits f, Json.isDigit c) ∧
      (fractionDigits f).getLast? ≠ some (.scalar '0') ∧
      Json.ofDigits (fractionDigits f) * 100 = f * 10 ^ (fractionDigits f).length := by
  decide

/-- The fraction stands behind a point if there is one. -/
theorem decimalOfHundredths_eq (n : Nat) :
    decimalOfHundredths n = Text.ofNat (n / 100) ++
      if fractionDigits (n % 100) = [] then [] else .scalar '.' :: fractionDigits (n % 100) := by
  have hdigits : ∀ k, Text.ofNat k ≠ [] := fun k => (Json.areDigits_ofNat k).1
  unfold decimalOfHundredths fractionDigits
  dsimp only
  split_ifs <;> simp_all

/-- Hundredths are told as a decimal without needless zeros. -/
theorem isPlainDecimal_decimalOfHundredths (n : Nat) :
    IsPlainDecimal (decimalOfHundredths n) (n / 100) := by
  obtain ⟨hdigits, hlast, hvalue⟩ := fractionDigits_spec (n % 100) (Nat.mod_lt n (by decide))
  have hvalueRat : (Json.ofDigits (fractionDigits (n % 100)) : ℚ) /
      10 ^ (fractionDigits (n % 100)).length = (n % 100 : Nat) / 100 := by
    rw [div_eq_div_iff (by positivity) (by norm_num)]
    exact_mod_cast hvalue
  have hwhole : (n : ℚ) = 100 * (n / 100 : Nat) + (n % 100 : Nat) := by
    exact_mod_cast (Nat.div_add_mod n 100).symm
  refine ⟨Text.ofNat (n / 100), fractionDigits (n % 100), _, Json.isWhole_ofNat _, ?_, hlast,
    decimalOfHundredths_eq n, ?_⟩
  · split
    · next hnil => exact .inl ⟨hnil, rfl⟩
    · next hne => exact .inr ⟨⟨hne, hdigits⟩, rfl⟩
  · rw [hvalueRat, Json.ofDigits_ofNat, hwhole]
    ring

/-- A number of at least one has all bits of its mantissa. -/
theorem exponent_of_one_le {x : Binary64} (h : 1 ≤ x.magnitude) :
    Nat.pow 2 52 ≤ x.mantissa ∧ -53 < x.exponent := by
  obtain ⟨hbits, -, -, hnormal⟩ := x.canonical
  have hexponent : -53 < x.exponent := by
    have hmantissa : (x.mantissa : ℚ) < 2 ^ (53 : Int) := by exact_mod_cast hbits
    have hscale : (0 : ℚ) < 2 ^ x.exponent := zpow_pos two_pos _
    have hlt := h.trans_lt (mul_lt_mul_of_pos_right hmantissa hscale)
    rw [← zpow_add₀ two_ne_zero, ← zpow_zero (2 : ℚ),
      zpow_lt_zpow_iff_right₀ one_lt_two] at hlt
    omega
  exact ⟨hnormal.resolve_right (by omega), hexponent⟩

/-- A number of at least one is divided by a power of two without an error. -/
theorem dividedByTwoPow_exact {x : Binary64} (h : 1 ≤ x.magnitude) {power : Nat}
    (hpower : power ≤ 1000) :
    (dividedByTwoPow x power).negative = x.negative ∧
      (dividedByTwoPow x power).magnitude * 2 ^ power = x.magnitude := by
  obtain ⟨hnormal, hexponent⟩ := exponent_of_one_le h
  obtain ⟨hbits, -, hgreatest, -⟩ := x.canonical
  let y : Binary64 :=
    ⟨x.negative, x.mantissa, x.exponent - power, hbits, by omega, by omega, .inl hnormal⟩
  have hne : y.mantissa ≠ 0 := (Nat.lt_of_lt_of_le (by decide) hnormal).ne'
  have hratio : ((scaled x.mantissa 1 (-(x.exponent - power))).1 : ℚ) /
      (scaled x.mantissa 1 (-(x.exponent - power))).2 = y.magnitude := by
    rw [div_scaled, neg_neg, Nat.cast_one, div_one]
    rfl
  have hexact : dividedByTwoPow x power = y := by
    have hround := ofRatio?_exact (scaled_pos Nat.one_pos _ _) hne hratio
    rw [dividedByTwoPow, ofDyadic?]
    exact congrArg (fun z => Option.getD z x) hround
  rw [hexact]
  refine ⟨rfl, ?_⟩
  change (x.mantissa : ℚ) * 2 ^ (x.exponent - power) * 2 ^ power = x.mantissa * 2 ^ x.exponent
  rw [mul_assoc, ← zpow_natCast, ← zpow_add₀ two_ne_zero, sub_add_cancel]

/-- A thousand and twenty-four as a rational number. -/
theorem toRat_kilo : (1024.0 : Binary64).toRat = 1024 := by
  have hkilo : (1024.0 : Binary64) = ⟨false, 2 ^ 52, -42, by decide⟩ := by decide +kernel
  rw [hkilo]
  norm_num [toRat, withSign, magnitude]

/-- A size is told in one of the units: divided by the power of it, it is below the next unit if
there is a next one, and at least one unless the unit is the first one. -/
theorem inUnit_spec {us : List Text} (hus : us ≠ []) {x : Binary64} (hx : x.negative = false) :
    ∃ e unit, us[e]? = some unit ∧ (inUnit x us).2 = unit ∧
      (inUnit x us).1.magnitude * 1024 ^ e = x.magnitude ∧
      (e + 1 < us.length → (inUnit x us).1.magnitude < 1024) ∧
      (e ≠ 0 → 1 ≤ (inUnit x us).1.magnitude) := by
  induction us generalizing x with
  | nil => exact absurd rfl hus
  | cons unit us ih =>
    cases us with
    | nil => exact ⟨0, unit, rfl, rfl, by rw [pow_zero, mul_one]; rfl, by simp, nofun⟩
    | cons next more =>
      rw [inUnit]
      split
      · next hle =>
        rw [le_iff, toRat_kilo, toRat_of_not_negative hx] at hle
        obtain ⟨hsign, hdivided⟩ :=
          dividedByTwoPow_exact (le_trans (by norm_num) hle) (by decide : 10 ≤ 1000)
        obtain ⟨e, unit', hunit, htold, hvalue, hbelow, habove⟩ :=
          ih (List.cons_ne_nil next more) (hsign.trans hx)
        refine ⟨e + 1, unit', hunit, htold, ?_, fun h => hbelow (by simpa using h), fun _ => ?_⟩
        · rw [← hdivided, ← hvalue]
          ring
        · by_cases he : e = 0
          · rw [he, pow_zero, mul_one] at hvalue
            rw [hvalue]
            linarith
          · exact habove he
      · next hlt =>
        rw [le_iff, toRat_kilo, toRat_of_not_negative hx, not_le] at hlt
        exact ⟨0, unit, rfl, rfl, by rw [pow_zero, mul_one], fun _ => hlt, nofun⟩

/-- Hundredths are off by half a hundredth at most. -/
theorem abs_hundredths_sub_le (x : Binary64) :
    |(hundredths x : ℚ) - 100 * x.magnitude| ≤ 1 / 2 := by
  have hround := abs_roundQuotient_sub_le (scaled_pos Nat.one_pos x.mantissa (-x.exponent))
    (100 * (scaled x.mantissa 1 (-x.exponent)).1)
  rwa [Nat.cast_mul, mul_div_assoc, div_scaled, neg_neg, Nat.cast_one, div_one] at hround

/-- An integer of at most 53 bits is a number of the format. -/
theorem exists_ofInt?_exact {n : Int} (hpos : 0 < n) (hbits : n < 2 ^ 53) :
    ∃ x, ofInt? n = some x ∧ x.negative = false ∧ x.magnitude = n := by
  lift n to Nat using hpos.le
  have hn : 0 < n := by exact_mod_cast hpos
  have hlow := Nat.log2_self_le hn.ne'
  have hhigh : n < 2 ^ (n.log2 + 1) := Nat.lt_log2_self
  have hlog : n.log2 < 53 := (Nat.log2_lt hn.ne').mpr (by exact_mod_cast hbits)
  obtain ⟨k, hk⟩ : ∃ k, n.log2 + k = 52 := ⟨52 - n.log2, by omega⟩
  have hcanonical : IsCanonical (n * 2 ^ k) (-k) := by
    refine ⟨?_, by omega, by omega, .inl ?_⟩
    · calc n * 2 ^ k < 2 ^ (n.log2 + 1) * 2 ^ k := Nat.mul_lt_mul_of_pos_right hhigh (by positivity)
        _ = 2 ^ 53 := by rw [← pow_add, show n.log2 + 1 + k = 53 by omega]
    · calc 2 ^ 52 = 2 ^ n.log2 * 2 ^ k := by rw [← pow_add, hk]
        _ ≤ n * 2 ^ k := Nat.mul_le_mul_right _ hlow
  let x : Binary64 := ⟨false, n * 2 ^ k, -k, hcanonical⟩
  have hmagnitude : x.magnitude = n := by
    change ((n * 2 ^ k : Nat) : ℚ) * 2 ^ (-(k : Int)) = n
    rw [zpow_neg, zpow_natCast]
    push_cast
    field_simp
  have hmantissa : x.mantissa ≠ 0 := Nat.mul_ne_zero hn.ne' (by positivity)
  refine ⟨x, ?_, rfl, by rw [hmagnitude, Int.cast_natCast]⟩
  have hnegative : decide ((n : Int) < 0) = x.negative := decide_eq_false (by omega)
  rw [ofInt?, hnegative, Int.natAbs_natCast]
  exact ofRatio?_exact Nat.one_pos hmantissa (by rw [hmagnitude, Nat.cast_one, div_one])

/-- A size is told in the largest unit that it fills: the number of these units is worked out
without an error, and its hundredths are told with the unit. -/
theorem exists_tellSize_eq {n : Int} (hpos : 0 < n) (hlarge : n < 2 ^ 50) :
    ∃ e unit, ∃ y : Binary64, units[e]? = some unit ∧
      tellSize n = .ok (decimalOfHundredths (hundredths y) ++ .scalar ' ' :: unit) ∧
      y.magnitude * 1024 ^ e = n ∧ 1 ≤ y.magnitude ∧ y.magnitude < 1024 := by
  obtain ⟨x, hx, hsign, hvalue⟩ := exists_ofInt?_exact hpos (hlarge.trans (by decide))
  have hunits : units ≠ [] := List.cons_ne_nil _ _
  obtain ⟨e, unit, hunit, htold, hexact, hbelow, habove⟩ := inUnit_spec hunits hsign
  rw [hvalue] at hexact
  refine ⟨e, unit, (inUnit x units).1, hunit, ?_, hexact, ?_, ?_⟩
  · rw [tellSize, if_neg (by omega), hx]
    dsimp only
    rw [htold]
  · by_cases hzero : e = 0
    · rw [hzero, pow_zero, mul_one] at hexact
      rw [hexact]
      exact_mod_cast hpos
    · exact habove hzero
  · have hlength : e < units.length := (List.getElem?_eq_some_iff.mp hunit).1
    rw [show units.length = 5 from rfl] at hlength hbelow
    by_cases hlast : e = 4
    · -- behind the last unit there is none, but the size is below what the next one would be
      have hcast : (n : ℚ) < 2 ^ 50 := by exact_mod_cast hlarge
      rw [← hexact, hlast] at hcast
      norm_num at hcast
      linarith
    · exact hbelow (by omega)

/-- The hundredths of a number between one and a thousand and twenty-four: they stay between these
bounds, and the upper one is met from half a hundredth below it. -/
theorem hundredths_bounds {y : Binary64} (hone : 1 ≤ y.magnitude) (hnext : y.magnitude < 1024) :
    100 ≤ hundredths y ∧ hundredths y ≤ 102400 ∧
      |(hundredths y : ℚ) / 100 - y.magnitude| ≤ 5 / 1000 ∧
      (hundredths y < 102400 → y.magnitude ≤ 1024 - 5 / 1000) ∧
      (y.magnitude < 1024 - 5 / 1000 → hundredths y < 102400) := by
  have hround := abs_hundredths_sub_le y
  obtain ⟨h, hh⟩ : ∃ h, hundredths y = h := ⟨_, rfl⟩
  rw [hh, abs_le] at hround
  rw [hh]
  refine ⟨?_, ?_, ?_, fun hlt => ?_, fun hlt => ?_⟩
  · have hcast : (99 : ℚ) < h := by linarith
    exact_mod_cast hcast
  · have hcast : (h : ℚ) < 102401 := by linarith
    exact Nat.le_of_lt_succ (by exact_mod_cast hcast)
  · rw [abs_le]
    constructor <;> linarith
  · have hcast : (h : ℚ) + 1 ≤ 102400 := by exact_mod_cast hlt
    linarith
  · have hcast : (h : ℚ) < 102400 := by linarith
    exact_mod_cast hcast

/-- No size is halfway between the last hundredth below the next unit and that unit: two hundred
times the size would be 204799 times a power of two, which twenty-five does not divide. -/
theorem ne_halfway {e : Nat} (he : e < 5) (n : Int) :
    (n : ℚ) ≠ (1024 - 5 / 1000) * 1024 ^ e := by
  intro hhalf
  have hint : 200 * n = 204799 * 1024 ^ e := by
    have hrat : (200 : ℚ) * n = 204799 * 1024 ^ e := by
      rw [hhalf]
      ring
    exact_mod_cast hrat
  interval_cases e <;> omega

/-- A size below the fifth power of a thousand and twenty-four is told in the largest unit that it
fills, as a decimal without needless zeros that is off by half a hundredth of the unit at most. The
decimal is at least one, and it is below a thousand and twenty-four unless the size is within half
a hundredth of a unit from the next unit. -/
theorem tellSize_accurate {n : Int} (hpos : 0 < n) (hlarge : n < 2 ^ 50) :
    ∃ e unit t x, units[e]? = some unit ∧ tellSize n = .ok (t ++ .scalar ' ' :: unit) ∧
      IsPlainDecimal t x ∧ (1024 : ℚ) ^ e ≤ n ∧ (n : ℚ) < 1024 ^ (e + 1) ∧ 1 ≤ x ∧ x ≤ 1024 ∧
      |x * 1024 ^ e - n| ≤ 5 / 1000 * 1024 ^ e ∧
      (x < 1024 ↔ (n : ℚ) < (1024 - 5 / 1000) * 1024 ^ e) := by
  obtain ⟨e, unit, y, hunit, htold, hexact, hone, hnext⟩ := exists_tellSize_eq hpos hlarge
  obtain ⟨hleast, hgreatest, hnear, hbelow, hfar⟩ := hundredths_bounds hone hnext
  have hscale : (0 : ℚ) < 1024 ^ e := by positivity
  have hbound : ∀ k : Nat, (hundredths y : ℚ) / 100 < k ↔ hundredths y < k * 100 := by
    intro k
    rw [div_lt_iff₀ (by norm_num)]
    exact_mod_cast Iff.rfl
  refine ⟨e, unit, _, _, hunit, htold, isPlainDecimal_decimalOfHundredths _, ?_, ?_, ?_, ?_, ?_, ?_⟩
  · rw [← hexact]
    exact le_mul_of_one_le_left hscale.le hone
  · rw [← hexact, pow_succ']
    exact mul_lt_mul_of_pos_right hnext hscale
  · rw [le_div_iff₀ (by norm_num)]
    exact_mod_cast hleast
  · rw [div_le_iff₀ (by norm_num)]
    exact_mod_cast hgreatest
  · rw [← hexact, ← sub_mul, abs_mul, abs_of_pos hscale]
    exact mul_le_mul_of_nonneg_right hnear hscale.le
  · have hlength : e < 5 := (List.getElem?_eq_some_iff.mp hunit).1
    have hhalf := ne_halfway hlength n
    rw [← hexact, Ne, mul_left_inj' hscale.ne'] at hhalf
    rw [← hexact, mul_lt_mul_iff_of_pos_right hscale]
    refine (hbound 1024).trans ⟨fun hlt => ?_, hfar⟩
    exact lt_of_le_of_ne (hbelow hlt) hhalf

/-- One and a half units. -/
theorem tellSize_accurate_sample :
    ((0 : Int) < 1536 ∧ (1536 : Int) < 2 ^ 50) ∧ tellSize 1536 = .ok "1.5 KB" ∧
      ∃ e unit t x, units[e]? = some unit ∧ tellSize 1536 = .ok (t ++ .scalar ' ' :: unit) ∧
        IsPlainDecimal t x ∧ (1024 : ℚ) ^ e ≤ (1536 : Int) ∧
        ((1536 : Int) : ℚ) < 1024 ^ (e + 1) ∧ 1 ≤ x ∧ x ≤ 1024 ∧
        |x * 1024 ^ e - (1536 : Int)| ≤ 5 / 1000 * 1024 ^ e ∧
        (x < 1024 ↔ ((1536 : Int) : ℚ) < (1024 - 5 / 1000) * 1024 ^ e) :=
  ⟨by decide, by decide +kernel, tellSize_accurate (by decide) (by decide)⟩

/-- A decimal that is written without a point is an integer. -/
theorem IsPlainDecimal.eq_ofDigits {t : Text} {x : ℚ} (h : IsPlainDecimal t x)
    (hpoint : .scalar '.' ∉ t) : x = Json.ofDigits t := by
  obtain ⟨whole, digits, fraction, -, hfraction, -, rfl, rfl⟩ := h
  rcases hfraction with ⟨rfl, rfl⟩ | ⟨-, rfl⟩
  · simp [Json.ofDigits]
  · exact absurd (List.mem_append_right _ List.mem_cons_self) hpoint

/-- Just below a unit a size is told as a thousand and twenty-four of the unit before it, and
there is no other way to read what is told. -/
theorem tellSize_meets_next_unit :
    tellSize 1048575 = .ok "1024 KB" ∧ ¬∃ (e : Nat) (unit t : Text) (x : ℚ),
      units[e]? = some unit ∧ tellSize 1048575 = .ok (t ++ .scalar ' ' :: unit) ∧
      IsPlainDecimal t x ∧ x < 1024 := by
  have htold : tellSize 1048575 = .ok "1024 KB" := by decide +kernel
  refine ⟨htold, ?_⟩
  rintro ⟨e, unit, t, x, hunit, htext, hdecimal, hlt⟩
  rw [htold] at htext
  have happend : (Text.ofString "1024 KB") = t ++ .scalar ' ' :: unit := Except.ok.inj htext
  have hother : ∀ u ∈ units, u ≠ "KB" → ¬(.scalar ' ' :: u) <:+ Text.ofString "1024 KB" := by
    decide
  have hkilo : unit = "KB" := by
    by_contra hne
    exact hother unit (List.mem_of_getElem? hunit) hne ⟨t, happend.symm⟩
  have hnumber : t = "1024" := by
    rw [hkilo] at happend
    have hfront : Text.ofString "1024" ++ Text.ofString " KB" = t ++ Text.ofString " KB" := happend
    exact (List.append_cancel_right hfront).symm
  have hvalue := hdecimal.eq_ofDigits (by rw [hnumber]; decide)
  rw [hnumber, show Json.ofDigits "1024" = 1024 from rfl] at hvalue
  rw [hvalue] at hlt
  norm_num at hlt

end SourcePress.Measure
