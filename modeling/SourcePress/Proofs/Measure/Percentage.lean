import SourcePress.Measure.Size
import SourcePress.Proofs.Number.Rounding

/-!
# The percentage that was saved

The percentage is worked out in four rounded operations and then taken down to an integer. It is the
exact percentage rounded half up wherever the exact one is not within the error of the operations
from a place halfway between two integers: for all sizes that are met in practice, wherever it is
not exactly halfway. There it may be rounded down. What did not grow has a percentage that is not
negative.
-/

namespace SourcePress.Measure

open Binary64

/-- The percentage that was saved, as a rational number. -/
def exactPercent (before after : Int) : ℚ := 100 * (before - after) / before

/-- How far the percentage may be off before it is taken down to an integer. -/
def percentError (before after : Int) : ℚ := (1 + after / before) / 2 ^ 44

/-- The numbers that the percentage is worked out with, as mantissas with powers of two. -/
theorem eq_constants :
    (1.0 : Binary64) = ⟨false, 2 ^ 52, -52, by decide⟩ ∧
      (100.0 : Binary64) = ⟨false, 25 * 2 ^ 48, -46, by decide⟩ ∧
      (0.5 : Binary64) = ⟨false, 2 ^ 52, -53, by decide⟩ := by
  decide +kernel

/-- The numbers that the percentage is worked out with, as rational numbers. -/
theorem toRat_constants :
    (1.0 : Binary64).toRat = 1 ∧ (100.0 : Binary64).toRat = 100 ∧
      (0.5 : Binary64).toRat = 1 / 2 := by
  obtain ⟨hone, hhundred, hhalf⟩ := eq_constants
  rw [hone, hhundred, hhalf]
  norm_num [toRat, withSign, magnitude]

/-- A percentage is worked out of a share that is near a ratio, and it is near the percentage of
the ratio. -/
theorem exists_percentage {one hundred half share : Binary64} {q : ℚ} (hone : one.toRat = 1)
    (hhundred : hundred.toRat = 100) (hhalf : half.toRat = 1 / 2) (hq : 0 ≤ q)
    (hlarge : q ≤ 2 ^ 1000) (hshare : |share.toRat - q| ≤ roundingError q) :
    ∃ saved hundredfold result, one.sub? share = some saved ∧
      saved.mul? hundred = some hundredfold ∧ hundredfold.add? half = some result ∧
      |result.toRat - (100 * (1 - q) + 1 / 2)| ≤ (1 + q) / 2 ^ 44 := by
  -- of each operation first the exact result is bounded, so that it gives a number, and then the
  -- error of that number is one part of the budget
  have hbound : ∀ p : ℚ, p ≤ 2 ^ 9 * (1 + q) → p ≤ resultBound := by
    intro p hp
    refine le_resultBound (k := 1010) (by decide) (hp.trans ?_)
    have hpower : (2 : ℚ) ^ 1010 = 2 ^ 10 * 2 ^ 1000 := by rw [← pow_add]
    have hone : (1 : ℚ) ≤ 2 ^ 1000 := one_le_pow₀ one_le_two
    rw [hpower]
    generalize (2 : ℚ) ^ 1000 = large at hlarge hone ⊢
    linarith
  rw [roundingError, abs_of_nonneg hq] at hshare
  have hsub : |one.toRat - share.toRat| ≤ (1 + q) * (1 + 1 / 2 ^ 53) := by
    rw [hone]
    rw [abs_le] at hshare ⊢
    constructor <;> linarith
  obtain ⟨saved, hsaved, hsavedNear⟩ := exists_sub? (hsub.trans (hbound _ (by linarith)))
  rw [hone, roundingError] at hsavedNear
  rw [hone] at hsub
  have hmul : |saved.toRat * hundred.toRat| ≤ 100 * ((1 + q) * (1 + 1 / 2 ^ 50)) := by
    rw [hhundred, abs_mul, mul_comm]
    refine mul_le_mul (by norm_num) ?_ (abs_nonneg _) (by norm_num)
    have htriangle := abs_sub_le saved.toRat (1 - share.toRat) 0
    rw [sub_zero, sub_zero] at htriangle
    linarith
  obtain ⟨hundredfold, hhundredfold, hhundredfoldNear⟩ :=
    exists_mul? (hmul.trans (hbound _ (by linarith)))
  rw [hhundred, roundingError] at hhundredfoldNear
  rw [hhundred] at hmul
  have hadd : |hundredfold.toRat + half.toRat| ≤ 101 * ((1 + q) * (1 + 1 / 2 ^ 49)) := by
    have htriangle := abs_sub_le hundredfold.toRat (saved.toRat * 100) 0
    have hhalfTriangle := abs_add_le hundredfold.toRat half.toRat
    have hhalfAbs : |half.toRat| = 1 / 2 := by
      rw [hhalf]
      norm_num
    rw [sub_zero, sub_zero] at htriangle
    linarith
  obtain ⟨result, hresult, hresultNear⟩ := exists_add? (hadd.trans (hbound _ (by linarith)))
  rw [hhalf, roundingError] at hresultNear
  rw [hhalf] at hadd
  refine ⟨saved, hundredfold, result, hsaved, hhundredfold, hresult, ?_⟩
  rw [abs_le] at hshare hsavedNear hhundredfoldNear hresultNear ⊢
  constructor <;> linarith

/-- The percentage of two sizes, if none of its operations leaves the format. -/
theorem savedPercent_of_steps {before after : Nat} {share saved hundredfold result : Binary64}
    (hbefore : 0 < before) (hshare : ofRatio? false after before = some share)
    (hsub : (1.0 : Binary64).sub? share = some saved)
    (hmul : saved.mul? 100.0 = some hundredfold) (hadd : hundredfold.add? 0.5 = some result) :
    savedPercent before after = .ok result.floor := by
  have hne : (before : Int) ≠ 0 := by omega
  have hsigns : (decide ((before : Int) < 0) != decide ((after : Int) < 0)) = false := by
    rw [decide_eq_false (by omega), decide_eq_false (by omega)]
    rfl
  have hpercentage : (do
      let saved ← (1.0 : Binary64).sub? share
      let hundredfold ← saved.mul? 100.0
      hundredfold.add? 0.5) = some result := by
    rw [hsub, Option.bind_eq_bind, Option.bind_some, hmul, Option.bind_some, hadd]
  unfold savedPercent
  rw [if_neg hne, Int.natAbs_natCast, Int.natAbs_natCast]
  dsimp only
  rw [hsigns, hshare]
  dsimp only
  rw [hpercentage]
  rfl

/-- The percentage is a number near the exact percentage and a half, taken down to an integer. -/
theorem exists_savedPercent_near {before after : Int} (hbefore : 0 < before) (hafter : 0 ≤ after)
    (hlarge : after ≤ 2 ^ 1000 * before) :
    ∃ y : ℚ, savedPercent before after = .ok ⌊y⌋ ∧
      |y - (exactPercent before after + 1 / 2)| ≤ percentError before after := by
  lift before to Nat using hbefore.le
  lift after to Nat using hafter
  have hpos : 0 < before := by exact_mod_cast hbefore
  have hposRat : (0 : ℚ) < before := Nat.cast_pos.mpr hpos
  have hnonneg : (0 : ℚ) ≤ after / before := by positivity
  have hratio : (after : ℚ) / before ≤ 2 ^ 1000 := by
    rw [div_le_iff₀ hposRat]
    exact_mod_cast hlarge
  obtain ⟨share, hshare, hsign, hnear⟩ :=
    exists_ofRatio? false hpos (le_resultBound (by decide) hratio)
  rw [← toRat_of_not_negative hsign] at hnear
  obtain ⟨hone, hhundred, hhalf⟩ := toRat_constants
  obtain ⟨saved, hundredfold, result, hsub, hmul, hadd, hresult⟩ :=
    exists_percentage hone hhundred hhalf hnonneg hratio hnear
  have hexact : exactPercent before after = 100 * (1 - after / before) := by
    rw [exactPercent, Int.cast_natCast, Int.cast_natCast]
    field_simp
  refine ⟨result.toRat, ?_, ?_⟩
  · rw [savedPercent_of_steps hpos hshare hsub hmul hadd, floor_eq]
  · rw [hexact, percentError, Int.cast_natCast, Int.cast_natCast]
    exact hresult

/-- What does not grow has a percentage, and it is not negative. -/
theorem exists_savedPercent {before after : Nat} (h : after ≤ before) :
    ∃ percent, savedPercent before after = .ok percent ∧ 0 ≤ percent := by
  rcases Nat.eq_zero_or_pos before with rfl | hbefore
  · exact ⟨0, rfl, le_rfl⟩
  have hposRat : (0 : ℚ) < before := Nat.cast_pos.mpr hbefore
  have hcast : (after : ℚ) ≤ before := Nat.cast_le.mpr h
  have hle : (after : Int) ≤ before := by exact_mod_cast h
  have hpower : (before : Int) ≤ 2 ^ 1000 * before :=
    le_mul_of_one_le_left (Int.natCast_nonneg _) (one_le_pow₀ one_le_two)
  have hpositive : (0 : Int) < before := by exact_mod_cast hbefore
  obtain ⟨y, hpercent, hnear⟩ :=
    exists_savedPercent_near hpositive (Int.natCast_nonneg after) (hle.trans hpower)
  refine ⟨⌊y⌋, hpercent, Int.floor_nonneg.mpr ?_⟩
  have hexact : 0 ≤ exactPercent before after := by
    rw [exactPercent, Int.cast_natCast, Int.cast_natCast]
    exact div_nonneg (mul_nonneg (by norm_num) (sub_nonneg.mpr hcast)) hposRat.le
  have herror : percentError before after ≤ 1 / 2 := by
    have hshare : (after : ℚ) / before ≤ 1 := (div_le_one hposRat).mpr hcast
    rw [percentError, Int.cast_natCast, Int.cast_natCast]
    linarith
  have hlow := (abs_le.mp hnear).1
  linarith

/-- The report on a transform that does not make a text larger shows no loss. -/
theorem exists_report {before after : Text} (h : after.byteLength ≤ before.byteLength)
    (elapsed : Int) (countLines : Bool) :
    ∃ r, report before after elapsed countLines = .ok r ∧ 0 ≤ r.savedPercent := by
  obtain ⟨percent, hpercent, hnonneg⟩ := exists_savedPercent h
  rw [report, hpercent]
  exact ⟨_, rfl, hnonneg⟩

/-- Two near numbers are taken down to one integer if no integer is near. -/
theorem floor_eq_floor_of_far {y z ε : ℚ} (hnear : |y - z| ≤ ε) (hfar : ∀ k : Int, ε < |z - k|) :
    ⌊y⌋ = ⌊z⌋ := by
  have hbelow := hfar ⌊z⌋
  have habove := hfar (⌊z⌋ + 1)
  have hfloor := Int.floor_le z
  have hnext := Int.lt_floor_add_one z
  rw [abs_of_nonneg (by linarith)] at hbelow
  push_cast at habove
  rw [abs_of_nonpos (by linarith)] at habove
  rw [abs_le] at hnear
  rw [Int.floor_eq_iff]
  constructor <;> linarith

/-- An exact percentage that is not halfway between two integers is at least half a share of the
size before away from there. -/
theorem one_le_abs_halfway {before after k : Int} (hbefore : 0 < before)
    (h : exactPercent before after + 1 / 2 ≠ k) :
    1 / (2 * before) ≤ |exactPercent before after + 1 / 2 - k| := by
  have hpos : (0 : ℚ) < before := Int.cast_pos.mpr hbefore
  have hparts : exactPercent before after + 1 / 2 - k =
      ((200 * (before - after) + before - 2 * before * k : Int) : ℚ) / (2 * before) := by
    rw [exactPercent]
    push_cast
    field_simp
    ring
  rw [← sub_ne_zero, hparts] at h
  have hnumerator : 200 * (before - after) + before - 2 * before * k ≠ 0 :=
    fun hzero => h (by rw [hzero, Int.cast_zero, zero_div])
  rw [hparts, abs_div, abs_of_pos (by positivity : (0 : ℚ) < 2 * before)]
  gcongr
  rw [← Int.cast_abs]
  exact_mod_cast Int.one_le_abs hnumerator

/-- The percentage of two sizes is the exact percentage rounded half up wherever no place halfway
between two integers is within the error. For sizes below eight tebibytes together that is so
unless the exact percentage is halfway itself, and there it is rounded up or down. -/
theorem savedPercent_near_exactPercent {before after : Int} (hbefore : 0 < before)
    (hafter : 0 ≤ after) (hlarge : after ≤ 2 ^ 1000 * before) :
    ∃ percent, savedPercent before after = .ok percent ∧
      |percent - exactPercent before after| ≤ 1 / 2 + percentError before after ∧
      ((∀ k : Int, percentError before after < |exactPercent before after + 1 / 2 - k|) →
        percent = ⌊exactPercent before after + 1 / 2⌋) ∧
      (before + after < 2 ^ 43 → (∀ k : Int, exactPercent before after + 1 / 2 ≠ k) →
        percent = ⌊exactPercent before after + 1 / 2⌋) ∧
      (before + after < 2 ^ 43 → ∀ k : Int, exactPercent before after + 1 / 2 = k →
        percent = k ∨ percent = k - 1) := by
  obtain ⟨y, hpercent, hnear⟩ := exists_savedPercent_near hbefore hafter hlarge
  have hpos : (0 : ℚ) < before := Int.cast_pos.mpr hbefore
  have hsmall : before + after < 2 ^ 43 → percentError before after < 1 / (2 * before) := by
    intro hsum
    have hcast : (before : ℚ) + after < 2 ^ 43 := by exact_mod_cast hsum
    have hparts : percentError before after = (before + after) / (2 ^ 43 * (2 * before)) := by
      rw [percentError]
      field_simp
    rw [hparts, div_lt_div_iff₀ (by positivity) (by positivity), one_mul]
    exact mul_lt_mul_of_pos_right hcast (by positivity)
  refine ⟨⌊y⌋, hpercent, ?_, floor_eq_floor_of_far hnear, fun hsum hhalf => ?_,
    fun hsum k hk => ?_⟩
  · have hfloor := Int.floor_le y
    have hnext := Int.lt_floor_add_one y
    rw [abs_le] at hnear ⊢
    constructor <;> linarith
  · exact floor_eq_floor_of_far hnear fun k =>
      (hsmall hsum).trans_le (one_le_abs_halfway hbefore (hhalf k))
  · have hone : (1 : ℚ) ≤ before := by exact_mod_cast hbefore
    have herror : percentError before after < 1 := (hsmall hsum).trans_le <| by
      rw [div_le_one (by positivity)]
      linarith
    rw [hk, abs_le] at hnear
    rcases le_or_gt (k : ℚ) y with hup | hdown
    · left
      rw [Int.floor_eq_iff]
      constructor <;> linarith
    · right
      rw [Int.floor_eq_iff]
      push_cast
      constructor <;> linarith

/-- A third is saved of three bytes of which two are left, and it is rounded to thirty-three
percent. -/
theorem savedPercent_near_exactPercent_sample :
    ((0 : Int) < 3 ∧ (0 : Int) ≤ 2 ∧ (2 : Int) ≤ 2 ^ 1000 * 3) ∧ ∃ percent,
      savedPercent 3 2 = .ok percent ∧ percent = ⌊exactPercent 3 2 + 1 / 2⌋ ∧ percent = 33 := by
  have hlarge : (2 : Int) ≤ 2 ^ 1000 * 3 := by decide +kernel
  obtain ⟨percent, hpercent, -, -, hexact, -⟩ :=
    savedPercent_near_exactPercent (by decide) (by decide) hlarge
  have hthird : exactPercent 3 2 + 1 / 2 = 203 / 6 := by norm_num [exactPercent]
  have hfloor : ⌊exactPercent 3 2 + 1 / 2⌋ = 33 := by
    rw [hthird]
    norm_num [Int.floor_eq_iff]
  have hnotHalf : ∀ k : Int, exactPercent 3 2 + 1 / 2 ≠ k := by
    intro k hk
    rw [hthird, div_eq_iff (by norm_num)] at hk
    have hint : (203 : Int) = k * 6 := by exact_mod_cast hk
    omega
  have hpercent' := hexact (by decide) hnotHalf
  exact ⟨⟨by decide, by decide, hlarge⟩, percent, hpercent, hpercent', hpercent'.trans hfloor⟩

/-- Of forty bytes of which seventeen are left exactly fifty-seven and a half percent are saved,
and the half is rounded down. -/
theorem savedPercent_rounds_half_down :
    exactPercent 40 17 = 115 / 2 ∧ ⌊exactPercent 40 17 + 1 / 2⌋ = 58 ∧
      savedPercent 40 17 = .ok 57 := by
  have hhalf : exactPercent 40 17 = 115 / 2 := by norm_num [exactPercent]
  refine ⟨hhalf, ?_, by decide +kernel⟩
  rw [hhalf]
  norm_num

end SourcePress.Measure
