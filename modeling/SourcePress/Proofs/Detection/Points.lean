import SourcePress.Detection.Verdict
import SourcePress.Measure.Size
import SourcePress.Proofs.Number.Rounding

/-!
# Scores in points

The weights of the features are hundredths, and a point is one of them. A score is summed with a
rounding at each step, so it is off its points, but by much less than a point: of two scores the one
with more points is the greater number. Only where the points are equal does the rounding decide.
-/

namespace SourcePress.Detection

open Binary64

/-- True of a number that is worth so many points, up to so many slips of rounding. -/
def IsWorth (x : Binary64) (points : Int) (slips : Nat) : Prop :=
  |x.toRat - points / 100| ≤ slips / 2 ^ 50

namespace IsWorth

variable {x y : Binary64} {p q : Int} {j k : Nat}

/-- More slips may be allowed. -/
theorem mono (h : IsWorth x p j) (hjk : j ≤ k) : IsWorth x p k := by
  refine h.trans ?_
  gcongr

/-- The opposite number is worth the opposite points. -/
theorem neg (h : IsWorth x p j) : IsWorth x.neg (-p) j := by
  rw [IsWorth, toRat_neg, Int.cast_neg, neg_div, neg_sub_neg, abs_sub_comm]
  exact h

/-- A sum of a few points has one slip more than its two parts. -/
theorem add (hx : IsWorth x p j) (hy : IsWorth y q k) (hpoints : |p + q| ≤ 600)
    (hslips : j + k ≤ 1000) : IsWorth (x + y) (p + q) (j + k + 1) := by
  have hpointsRat : |((p : ℚ) + q)| ≤ 600 := by exact_mod_cast hpoints
  have hslipsRat : (j : ℚ) + k ≤ 1000 := by exact_mod_cast hslips
  rw [IsWorth] at hx hy
  have hsum : |x.toRat + y.toRat| ≤ 7 := by
    rw [abs_le] at hx hy hpointsRat ⊢
    constructor <;> linarith
  have hnear :=
    abs_toRat_add_sub_le (hsum.trans (le_resultBound (k := 3) (by decide) (by norm_num)))
  rw [roundingError] at hnear
  rw [IsWorth]
  push_cast
  rw [abs_le] at hx hy hnear ⊢
  constructor <;> linarith

/-- A difference of a few points has one slip more than its two parts. -/
theorem sub (hx : IsWorth x p j) (hy : IsWorth y q k) (hpoints : |p - q| ≤ 600)
    (hslips : j + k ≤ 1000) : IsWorth (x - y) (p - q) (j + k + 1) :=
  hx.add hy.neg hpoints hslips

/-- The lesser of two numbers is worth the lesser points. -/
theorem lesser (hx : IsWorth x p j) (hy : IsWorth y q j) :
    IsWorth (lesser x y) (min p q) j := by
  have hmin : (Detection.lesser x y).toRat = min x.toRat y.toRat := by
    rw [Detection.lesser]
    split
    · next hlt => rw [min_eq_right ((lt_iff y x).mp hlt).le]
    · next hle => rw [min_eq_left (not_lt.mp (mt (lt_iff y x).mpr hle))]
  rw [IsWorth, hmin, Int.cast_min, ← min_div_div_right (by norm_num)]
  exact (abs_min_sub_min_le_max _ _ _ _).trans (max_le hx hy)

/-- Of two numbers the one that is worth more points is the greater one. -/
theorem toRat_lt (hx : IsWorth x p j) (hy : IsWorth y q k) (hpq : p < q) (hslips : j + k ≤ 1000) :
    x.toRat < y.toRat := by
  have hpqRat : (p : ℚ) + 1 ≤ q := by exact_mod_cast hpq
  have hslipsRat : (j : ℚ) + k ≤ 1000 := by exact_mod_cast hslips
  rw [IsWorth, abs_le] at hx hy
  linarith

end IsWorth

/-- A decimal of up to a hundred points is read as a number that is worth them. -/
theorem isWorth_literal {digits places points : Nat}
    (h : points * 10 ^ places = 100 * digits ∧ points ≤ 100 ∧ places ≤ 2) :
    IsWorth (OfScientific.ofScientific digits true places) points 1 := by
  obtain ⟨hvalue, hpoints, hplaces⟩ := h
  have hpower : 10 ^ places ≤ 10 ^ 2 := Nat.pow_le_pow_right (by decide) hplaces
  have hdigits : digits < 10 ^ 16 := by
    have hproduct := Nat.mul_le_mul hpoints hpower
    omega
  have hquotient : (digits : ℚ) / 10 ^ places = points / 100 := by
    rw [div_eq_div_iff (by positivity) (by norm_num)]
    exact_mod_cast (by linarith : digits * 100 = points * 10 ^ places)
  have hnonneg : (0 : ℚ) ≤ points / 100 := by positivity
  have hone : (points : ℚ) / 100 ≤ 1 := by
    rw [div_le_one (by norm_num)]
    exact_mod_cast hpoints
  have hnear := abs_toRat_literal_sub_le hdigits (hplaces.trans (by decide))
  rw [hquotient, roundingError, abs_of_nonneg hnonneg] at hnear
  rw [IsWorth, Int.cast_natCast, Nat.cast_one]
  refine hnear.trans ?_
  rw [div_le_div_iff₀ (by positivity) (by positivity)]
  linarith

/-- A few times a weight is worth so many times its points. -/
theorem isWorth_natCast_mul {n p : Nat} {w : Binary64} (hw : IsWorth w p 1) (hp : p ≤ 10)
    (hn : n ≤ 10) : IsWorth ((n : Binary64) * w) (p * n : Nat) 13 := by
  have hpRat : (p : ℚ) ≤ 10 := by exact_mod_cast hp
  have hnRat : (n : ℚ) ≤ 10 := by exact_mod_cast hn
  have hpNonneg : (0 : ℚ) ≤ p := Nat.cast_nonneg p
  have hnNonneg : (0 : ℚ) ≤ n := Nat.cast_nonneg n
  have hcount : |(n : Binary64).toRat - n| ≤ 2 / 2 ^ 50 := by
    rcases natCast_cases n with hnear | ⟨hlarge, -⟩
    · rw [roundingError, abs_of_nonneg hnNonneg] at hnear
      refine hnear.trans ?_
      rw [div_le_div_iff₀ (by positivity) (by positivity)]
      linarith
    · exact absurd (le_resultBound (k := 4) (by decide) (by norm_num; linarith)) hlarge.not_ge
  rw [IsWorth, Int.cast_natCast, Nat.cast_one] at hw
  have hweight : |w.toRat| ≤ 1 := by
    rw [abs_le] at hw ⊢
    constructor <;> linarith
  have hexact : |(n : Binary64).toRat * w.toRat - p * n / 100| ≤ 12 / 2 ^ 50 := by
    have hparts : (n : Binary64).toRat * w.toRat - p * n / 100 =
        ((n : Binary64).toRat - n) * w.toRat + n * (w.toRat - p / 100) := by ring
    rw [hparts]
    refine (abs_add_le _ _).trans ?_
    rw [abs_mul, abs_mul, abs_of_nonneg hnNonneg]
    have hfirst := mul_le_mul hcount hweight (abs_nonneg _) (by positivity)
    have hsecond := mul_le_mul hnRat hw (abs_nonneg _) (by norm_num)
    linarith
  have hproduct : |(n : Binary64).toRat * w.toRat| ≤ 2 := by
    have hpn := mul_le_mul hpRat hnRat hnNonneg (by norm_num)
    have hpnNonneg := mul_nonneg hpNonneg hnNonneg
    rw [abs_le] at hexact ⊢
    constructor <;> linarith
  have hnear :=
    abs_toRat_mul_sub_le (hproduct.trans (le_resultBound (k := 1) (by decide) (by norm_num)))
  rw [roundingError] at hnear
  rw [IsWorth]
  push_cast
  rw [abs_le] at hexact hnear ⊢
  constructor <;> linarith

/-- Many times a weight is worth more than ten points. -/
theorem lt_natCast_mul {n p : Nat} {w : Binary64} (hw : IsWorth w p 1) (hone : 1 ≤ p)
    (hp : p ≤ 10) (hn : 10 < n) : 21 / 200 < ((n : Binary64) * w).toRat := by
  have honeRat : (1 : ℚ) ≤ p := by exact_mod_cast hone
  have hpRat : (p : ℚ) ≤ 10 := by exact_mod_cast hp
  have hnRat : (11 : ℚ) ≤ n := by exact_mod_cast hn
  have hcount : 109 / 10 ≤ (n : Binary64).toRat := by
    rcases natCast_cases n with hnear | ⟨-, hlargest⟩
    · rw [roundingError, abs_of_nonneg (by linarith : (0 : ℚ) ≤ n), abs_le] at hnear
      linarith
    · have hpower : (1 : ℚ) ≤ 2 ^ (971 : Int) := one_le_zpow₀ one_le_two (by decide)
      rw [hlargest, toRat_of_not_negative rfl, magnitude, largest]
      generalize (2 : ℚ) ^ (971 : Int) = power at hpower ⊢
      push_cast
      linarith
  have hbound : (n : Binary64).toRat ≤ 2 ^ 1024 :=
    (le_abs_self _).trans ((abs_toRat _).le.trans (magnitude_le _))
  rw [IsWorth, Int.cast_natCast, Nat.cast_one, abs_le] at hw
  obtain ⟨product, hvalue⟩ : ∃ product, (n : Binary64).toRat * w.toRat = product := ⟨_, rfl⟩
  have hlow : 108 / 1000 ≤ product := by
    rw [← hvalue]
    have hleast := mul_le_mul hcount (by linarith : (999 / 100000 : ℚ) ≤ w.toRat) (by norm_num)
      (by linarith)
    linarith
  -- a count beyond the format stands for the largest number, and a tenth of it is in the format
  have hhigh : |product| ≤ resultBound := by
    have hquarter : (2 : ℚ) ^ 1024 * (1 / 4) = resultBound := by
      rw [resultBound, ← zpow_natCast, show (1 / 4 : ℚ) = 2 ^ (-2 : Int) by norm_num,
        ← zpow_add₀ two_ne_zero]
      rfl
    rw [abs_of_nonneg (by linarith), ← hvalue, ← hquarter]
    exact mul_le_mul hbound (by linarith) (by linarith) (by positivity)
  rw [← hvalue] at hhigh
  have hnear := abs_toRat_mul_sub_le hhigh
  rw [hvalue, roundingError, abs_of_nonneg (by linarith : 0 ≤ product), abs_le] at hnear
  linarith

/-- So many times a weight, but at most ten points. -/
theorem isWorth_capped {p : Nat} {w : Binary64} (hw : IsWorth w p 1) (hone : 1 ≤ p) (hp : p ≤ 10)
    (n : Nat) : IsWorth (lesser 0.1 ((n : Binary64) * w)) (min 10 (p * n) : Nat) 13 := by
  have hten : IsWorth 0.1 10 1 := isWorth_literal (by decide)
  rcases Nat.lt_or_ge 10 n with hmany | hfew
  · have hpoints : min 10 (p * n) = 10 := by
      have hproduct := Nat.mul_le_mul hone hmany.le
      omega
    have hle : ¬((n : Binary64) * w).lt 0.1 := by
      have hlow := lt_natCast_mul hw hone hp hmany
      rw [IsWorth, abs_le] at hten
      rw [lt_iff, not_lt]
      push_cast at hten
      linarith
    rw [lesser, if_neg hle, hpoints]
    exact hten.mono (by decide)
  · rw [Nat.cast_min]
    exact (hten.mono (by decide)).lesser (isWorth_natCast_mul hw hp hfew)

/-- A number brought between nought and one is worth its points brought between nought and a
hundred. -/
theorem IsWorth.clamp {x : Binary64} {p : Int} {k : Nat} (hx : IsWorth x p k) (hk : 1 ≤ k) :
    IsWorth (clamp x) (max 0 (min 100 p)) k := by
  have hone : IsWorth 1.0 100 1 := isWorth_literal (by decide)
  have hzero : IsWorth 0.0 0 1 := isWorth_literal (by decide)
  have hcapped := (hone.mono hk).lesser hx
  have hmax : (Detection.clamp x).toRat =
      max (0.0 : Binary64).toRat (Detection.lesser 1.0 x).toRat := by
    rw [Detection.clamp]
    split
    · next hlt => rw [max_eq_right ((lt_iff _ _).mp hlt).le]
    · next hle => rw [max_eq_left (not_lt.mp (mt (lt_iff _ _).mpr hle))]
  rw [IsWorth, hmax, Int.cast_max, ← max_div_div_right (by norm_num)]
  exact (abs_max_sub_max_le_max _ _ _ _).trans (max_le (hzero.mono hk) hcapped)

/-- The sum of the score of a container as JSON, from all that it depends on. -/
def containerSum (hasFeatures : Bool) (constructs : Nat) : Binary64 :=
  let root : Binary64 := 0.0 + 0.6 + 0.2
  let sum := if hasFeatures then root + 0.3 else root
  if constructs = 0 then sum else sum - (constructs : Binary64) * 0.1

/-- Each construct that JSON has not takes ten points away. -/
theorem isWorth_withoutConstructs {x : Binary64} {p : Int} {k n : Nat} (hx : IsWorth x p k)
    (hp : 0 ≤ p) (hpoints : p ≤ 500) (hslips : k ≤ 500) (hn : n ≤ 10) :
    IsWorth (if n = 0 then x else x - (n : Binary64) * 0.1) (p - (10 * n : Nat)) (k + 14) := by
  have hten : IsWorth 0.1 10 1 := isWorth_literal (by decide)
  split
  · next hnone =>
    rw [hnone, Nat.mul_zero, Nat.cast_zero, sub_zero]
    exact hx.mono (by omega)
  · exact hx.sub (isWorth_natCast_mul hten (by decide) hn) (by rw [abs_le]; omega) (by omega)

/-- The sum is worth the points of the container. -/
theorem isWorth_containerSum (hasFeatures : Bool) {n : Nat} (hn : n ≤ 10) :
    IsWorth (containerSum hasFeatures n)
      (80 + (if hasFeatures then 30 else 0) - (10 * n : Nat)) 21 := by
  have hzero : IsWorth 0.0 0 1 := isWorth_literal (by decide)
  have hparses : IsWorth 0.6 60 1 := isWorth_literal (by decide)
  have hroot : IsWorth 0.2 20 1 := isWorth_literal (by decide)
  have hbonus : IsWorth 0.3 30 1 := isWorth_literal (by decide)
  have hbase := (hzero.add hparses (by decide) (by decide)).add hroot (by decide) (by decide)
  have hfull := hbase.add hbonus (by decide) (by decide)
  cases hasFeatures with
  | false =>
    have hsum := isWorth_withoutConstructs hbase (by decide) (by decide) (by decide) hn
    exact hsum.mono (by decide)
  | true =>
    have hsum := isWorth_withoutConstructs hfull (by decide) (by decide) (by decide) hn
    exact hsum

/-- The score of a container as JSON is decisive from seventy points on. -/
theorem decisive_containerSum (hasFeatures : Bool) {n : Nat} (hn : n ≤ 10) :
    decisive.lt (clamp (containerSum hasFeatures n)) = true ↔
      70 ≤ 80 + (if hasFeatures then 30 else 0) - 10 * n := by
  -- the points alone do not decide at seventy, so each of the few sums is worked out
  have hall : ∀ hasFeatures : Bool, ∀ n < 11,
      decisive.lt (clamp (containerSum hasFeatures n)) =
        decide (70 ≤ 80 + (if hasFeatures then 30 else 0) - 10 * n) := by
    decide +kernel
  rw [hall hasFeatures n (by omega), decide_eq_true_iff]

/-- What is counted adds so many times its points to a score, but at most ten. -/
theorem isWorth_counted {s : Score} {q : Int} {k p : Nat} {w : Binary64} (hs : IsWorth s.sum q k)
    (hq : 0 ≤ q) (hpoints : q ≤ 500) (hslips : k ≤ 500) (hw : IsWorth w p 1) (hone : 1 ≤ p)
    (hp : p ≤ 10) (n : Nat) (reason : Text) :
    IsWorth (if n = 0 then s
      else (s.add (lesser 0.1 ((n : Binary64) * w))).because reason).sum
      (q + (min 10 (p * n) : Nat)) (k + 14) := by
  split
  · next hnone =>
    rw [hnone, Nat.mul_zero, Nat.min_zero, Nat.cast_zero, add_zero]
    exact hs.mono (by omega)
  · exact hs.add (isWorth_capped hw hone hp n) (by rw [abs_le]; omega) (by omega)

/-- One of the two verdicts is chosen. -/
theorem choose_eq_or (json script : Verdict) :
    choose json script = json ∨ choose json script = script := by
  rw [choose]
  split
  · exact .inl rfl
  · split
    · exact .inr rfl
    · exact ite_eq_or_eq _ json script

/-- JSON is chosen if it is decisive or has the greater confidence. -/
theorem choose_eq_json {json script : Verdict} (h : decisive.lt json.confidence = true ∨
    script.confidence.toRat < json.confidence.toRat) : choose json script = json := by
  rw [choose]
  split
  · rfl
  · next hless =>
    have hlt := h.resolve_left hless
    have hnone : ¬decisive.lt script.confidence = true := by
      rw [lt_iff] at hless ⊢
      linarith
    rw [if_neg hnone, if_pos ((le_iff _ _).mpr hlt.le)]

/-- JavaScript is chosen if it has the greater confidence and JSON is not decisive. -/
theorem choose_eq_script {json script : Verdict} (hless : ¬decisive.lt json.confidence = true)
    (hlt : json.confidence.toRat < script.confidence.toRat) : choose json script = script := by
  have hgreater : ¬script.confidence.le json.confidence = true :=
    fun hle => hlt.not_ge ((le_iff _ _).mp hle)
  rw [choose, if_neg hless, if_neg hgreater, ite_self]

variable [Alphabet]

/-- The points of those of some features that a text has. -/
def featurePoints (t : Text) (fs : List ScriptFeature) : Nat :=
  ((fs.filter fun f => f.pattern.isIn t).map fun f => Measure.hundredths f.weight).sum

/-- The points of a container as JSON. -/
def containerPoints (t : Text) : Nat :=
  80 + (if 3 ≤ jsonFeatureCount t then 30 else 0) - 10 * scriptOnlyCount t

/-- The points of a strict document as JavaScript. -/
def scriptPoints (t : Text) : Nat :=
  featurePoints t scriptFeatures + min 10 (2 * statementLineCount t) +
    min 10 (3 * blockCount t) - 30

/-- The features that a text has add their points to a score. -/
theorem isWorth_features {t : Text} {fs : List ScriptFeature}
    (hfs : ∀ f ∈ fs, IsWorth f.weight (Measure.hundredths f.weight) 1 ∧
      Measure.hundredths f.weight ≤ 20) {s : Score} {p : Int} {k : Nat} (hs : IsWorth s.sum p k)
    (hp : 0 ≤ p) (hpoints : p + 20 * fs.length ≤ 600) (hslips : k + 2 * fs.length ≤ 1000) :
    IsWorth (fs.foldl (fun s f =>
      if f.pattern.isIn t then (s.add f.weight).because f.description else s) s).sum
      (p + featurePoints t fs) (k + 2 * fs.length) := by
  induction fs generalizing s p k with
  | nil =>
    rw [featurePoints, List.filter_nil, List.map_nil, List.sum_nil, Nat.cast_zero, add_zero]
    exact hs
  | cons f fs ih =>
    obtain ⟨hweight, hbound⟩ := hfs f List.mem_cons_self
    have hfs' := fun g hg => hfs g (List.mem_cons_of_mem f hg)
    rw [List.length_cons] at hpoints hslips
    rw [List.foldl_cons, List.length_cons, featurePoints, List.filter_cons]
    by_cases hfound : f.pattern.isIn t = true
    · have hadd := hs.add hweight (by rw [abs_le]; omega) (by omega)
      have htail := ih hfs' (s := (s.add f.weight).because f.description) hadd (by omega)
        (by push_cast at hpoints; omega) (by omega)
      rw [if_pos hfound, if_pos hfound, List.map_cons, List.sum_cons, Nat.cast_add, ← add_assoc]
      exact htail.mono (by omega)
    · rw [if_neg hfound, if_neg hfound]
      exact (ih hfs' hs hp (by push_cast at hpoints; omega) (by omega)).mono (by omega)

/-- Fifteen features speak for JavaScript. -/
theorem length_scriptFeatures : scriptFeatures.length = 15 := rfl

/-- Every feature of JavaScript is worth its points. -/
theorem isWorth_scriptFeatures : ∀ f ∈ scriptFeatures,
    IsWorth f.weight (Measure.hundredths f.weight) 1 ∧ Measure.hundredths f.weight ≤ 20 := by
  have hweights : ∀ x ∈ scriptFeatures.map ScriptFeature.weight,
      x ∈ [(0.2 : Binary64), 0.15, 0.1, 0.05] := by
    change ∀ x ∈ [(0.2 : Binary64), 0.15, 0.1, 0.1, 0.1, 0.1, 0.05, 0.05, 0.1, 0.05, 0.1, 0.15,
      0.15, 0.15, 0.1], _
    decide +kernel
  have hpoints : [(0.2 : Binary64), 0.15, 0.1, 0.05].map Measure.hundredths = [20, 15, 10, 5] := by
    decide +kernel
  simp only [List.map_cons, List.map_nil, List.cons.injEq, and_true] at hpoints
  obtain ⟨h20, h15, h10, h5⟩ := hpoints
  intro f hf
  have hweight := hweights f.weight (List.mem_map_of_mem hf)
  simp only [List.mem_cons, List.not_mem_nil, or_false] at hweight
  rcases hweight with h | h | h | h <;> rw [h]
  · rw [h20]
    exact ⟨isWorth_literal (by decide), by decide⟩
  · rw [h15]
    exact ⟨isWorth_literal (by decide), by decide⟩
  · rw [h10]
    exact ⟨isWorth_literal (by decide), by decide⟩
  · rw [h5]
    exact ⟨isWorth_literal (by decide), by decide⟩

/-- The score of a container as JSON has this sum. -/
theorem sum_jsonScore {v : Json} (hv : isContainer v = true) (t : Text) :
    (jsonScore (some v) t).sum = containerSum (3 ≤ jsonFeatureCount t) (scriptOnlyCount t) := by
  unfold jsonScore containerSum
  dsimp only
  rw [if_pos hv]
  by_cases hfeatures : 3 ≤ jsonFeatureCount t <;> by_cases hconstructs : scriptOnlyCount t = 0 <;>
    simp only [hfeatures, hconstructs, if_true, if_false, decide_true, decide_false,
      Bool.false_eq_true] <;> rfl

/-- A text has at most all ten constructs that JSON has not. -/
theorem scriptOnlyCount_le (t : Text) : scriptOnlyCount t ≤ 10 := List.countP_le_length

/-- All features of JavaScript together have at most three hundred points. -/
theorem featurePoints_le (t : Text) : featurePoints t scriptFeatures ≤ 300 := by
  have hsum := List.sum_le_card_nsmul
    ((scriptFeatures.filter fun f => f.pattern.isIn t).map fun f => Measure.hundredths f.weight) 20
    (fun n hn => by
      obtain ⟨f, hf, rfl⟩ := List.mem_map.mp hn
      exact (isWorth_scriptFeatures f (List.mem_of_mem_filter hf)).2)
  have hlength : (scriptFeatures.filter fun f => f.pattern.isIn t).length ≤ 15 :=
    List.length_filter_le _ _
  rw [List.length_map, smul_eq_mul] at hsum
  exact hsum.trans (Nat.mul_le_mul_right 20 hlength)

/-- The confidence in a container as JSON is worth its points. -/
theorem isWorth_jsonVerdict {v : Json} (hv : isContainer v = true) (t : Text) :
    IsWorth ((jsonScore (some v) t).verdict .json).confidence (min 100 (containerPoints t)) 21 := by
  have hsum := (isWorth_containerSum (3 ≤ jsonFeatureCount t) (scriptOnlyCount_le t)).clamp
    (by decide)
  have hpoints : max 0 (min 100 ((80 : Int) +
      (if decide (3 ≤ jsonFeatureCount t) = true then 30 else 0) -
      (10 * scriptOnlyCount t : Nat))) = min 100 (containerPoints t : Int) := by
    unfold containerPoints
    simp only [decide_eq_true_iff]
    split <;> omega
  rw [hpoints, ← sum_jsonScore hv] at hsum
  exact hsum

/-- The confidence in a strict document as JavaScript is worth its points. -/
theorem isWorth_scriptVerdict (v : Json) (t : Text) :
    IsWorth ((scriptScore (some v) t).verdict .javascript).confidence
      (min 100 (scriptPoints t)) 61 := by
  have hzero : IsWorth ({} : Score).sum 0 1 :=
    isWorth_literal (by decide)
  have htwo : IsWorth 0.02 2 1 := isWorth_literal (by decide)
  have hthree : IsWorth 0.03 3 1 := isWorth_literal (by decide)
  have hthirty : IsWorth 0.3 30 1 := isWorth_literal (by decide)
  have hfeatures := isWorth_features (t := t) isWorth_scriptFeatures hzero le_rfl
    (by rw [length_scriptFeatures]; decide) (by rw [length_scriptFeatures]; decide)
  rw [length_scriptFeatures] at hfeatures
  have hbound := featurePoints_le t
  have hstatements := isWorth_counted (p := 2) hfeatures (by omega) (by omega) (by decide) htwo
    (by decide) (by decide) (statementLineCount t)
    (Text.ofNat (statementLineCount t) ++ Text.ofString " lines end with a semicolon")
  have hblocks := isWorth_counted (p := 3) hstatements (by omega) (by omega) (by decide) hthree
    (by decide) (by decide) (blockCount t)
    (Text.ofNat (blockCount t) ++ Text.ofString " code blocks")
  have hpenalty := (hblocks.sub hthirty (by rw [abs_le]; omega) (by decide)).clamp (by decide)
  have hpoints : max 0 (min 100 ((0 : Int) + featurePoints t scriptFeatures +
      (min 10 (2 * statementLineCount t) : Nat) + (min 10 (3 * blockCount t) : Nat) - 30)) =
      min 100 (scriptPoints t : Int) := by
    unfold scriptPoints
    omega
  rw [hpoints] at hpenalty
  exact hpenalty

/-- A container is judged as JSON from seventy points on and where it has more points as JSON than
as JavaScript, and as JavaScript where it has fewer of both. -/
theorem choose_container {v : Json} (hv : isContainer v = true) (t : Text) :
    (70 ≤ containerPoints t ∨ scriptPoints t < containerPoints t →
      choose ((jsonScore (some v) t).verdict .json) ((scriptScore (some v) t).verdict .javascript) =
        (jsonScore (some v) t).verdict .json) ∧
    (containerPoints t < 70 → containerPoints t < scriptPoints t →
      choose ((jsonScore (some v) t).verdict .json) ((scriptScore (some v) t).verdict .javascript) =
        (scriptScore (some v) t).verdict .javascript) := by
  have hjson := isWorth_jsonVerdict hv t
  have hscript := isWorth_scriptVerdict v t
  have hdecisive : decisive.lt ((jsonScore (some v) t).verdict .json).confidence = true ↔
      70 ≤ containerPoints t := by
    rw [Score.verdict, sum_jsonScore hv, decisive_containerSum _ (scriptOnlyCount_le t),
      containerPoints]
    simp only [decide_eq_true_iff]
  constructor
  · intro h
    refine choose_eq_json (or_iff_not_imp_left.mpr fun hless => ?_)
    have hseventy := mt hdecisive.mpr hless
    have hpoints := h.resolve_left hseventy
    exact hscript.toRat_lt hjson (by omega) (by decide)
  · intro hseventy hpoints
    exact choose_eq_script (mt hdecisive.mp hseventy.not_ge)
      (hjson.toRat_lt hscript (by omega) (by decide))

end SourcePress.Detection
