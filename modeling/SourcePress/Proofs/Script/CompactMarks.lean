import SourcePress.Proofs.Repair.Literals
import SourcePress.Script.Compact

/-!
# The marks of compact code

Compact code is made mark by mark: the kept marks stay, comments and live blanks are left out, and
in front of a kept mark a space may stay. What is true of compact code whatever its scan gives is
shown on these marks: they have the kept marks of the code, no live end of a line, and compact code
made from them is the same.
-/

namespace SourcePress.Script

open Lexis

/-- The marks of compact code behind the code point that was kept last: the kept ones, and live
marks for the spaces that stay. -/
def compactMarksFrom (previous : Option CodePoint) (gap : Bool) : List Mark → List Mark
  | [] => []
  | m :: rest =>
    if isDropped m then compactMarksFrom previous true rest
    else (gapBefore previous gap m).map Region.code.mark ++
      m :: compactMarksFrom (some m.point) false rest

/-- The mark that is kept next. -/
def nextKept? (ms : List Mark) : Option Mark := ms.find? fun m => !isDropped m

/-- The mark that is kept next is the first one, unless it is left out. -/
theorem nextKept?_cons (m : Mark) (ms : List Mark) :
    nextKept? (m :: ms) = if isDropped m then nextKept? ms else some m := by
  rw [nextKept?, List.find?_cons]
  cases isDropped m <;> rfl

/-- True of a live solidus. -/
def isSolidus (m : Mark) : Bool := m.live? = some (.scalar '/')

/-- True of a live solidus or asterisk: behind a solidus it would make the marker of a comment. -/
def endsMarker (m : Mark) : Bool := isSolidus m || m.live? = some (.scalar '*')

/-- True of marks in which a live solidus and a live solidus or asterisk, kept next to each other,
are apart by marks that are left out. -/
def gluesMarker : List Mark → Bool
  | [] => false
  | m :: rest =>
    (isSolidus m && rest.head?.any isDropped && (nextKept? rest).any endsMarker) ||
      gluesMarker rest

/-- The code points of the marks of compact code are compact code. -/
theorem points_compactMarksFrom (previous : Option CodePoint) (gap : Bool) (ms : List Mark) :
    points (compactMarksFrom previous gap ms) = compactFrom previous gap ms := by
  induction ms generalizing previous gap with
  | nil => rfl
  | cons m ms ih =>
    rw [compactMarksFrom, compactFrom]
    split
    · exact ih _ _
    · rw [points_append, points_map_mark, points_cons, ih]

/-- What stays before a kept mark is nothing or one space. -/
theorem gapBefore_eq (previous : Option CodePoint) (gap : Bool) (m : Mark) :
    gapBefore previous gap m = [] ∨ gap = true ∧ gapBefore previous gap m = [.scalar ' '] := by
  cases previous with
  | none => exact .inl rfl
  | some p =>
    rw [gapBefore]
    split
    · next h => exact .inr ⟨(Bool.and_eq_true_iff.mp h).1, rfl⟩
    · exact .inl rfl

/-- Without a gap nothing stays before a kept mark. -/
theorem gapBefore_false (previous : Option CodePoint) (m : Mark) :
    gapBefore previous false m = [] :=
  (gapBefore_eq previous false m).resolve_right fun h => Bool.false_ne_true h.1

/-- Marks that are all left out leave a gap. -/
theorem compactMarksFrom_dropped {ms : List Mark} (hne : ms ≠ [])
    (h : ∀ m ∈ ms, isDropped m = true) (previous : Option CodePoint) (gap : Bool)
    (rest : List Mark) :
    compactMarksFrom previous gap (ms ++ rest) = compactMarksFrom previous true rest := by
  induction ms generalizing gap with
  | nil => exact absurd rfl hne
  | cons m ms ih =>
    obtain ⟨hm, hms⟩ := List.forall_mem_cons.mp h
    rw [List.cons_append, compactMarksFrom, if_pos hm]
    by_cases hnil : ms = []
    · rw [hnil, List.nil_append]
    · exact ih hnil hms true

/-- Marks that are all kept stay as they are behind a kept one. -/
theorem compactMarksFrom_kept {ms : List Mark} (h : ∀ m ∈ ms, isDropped m = false)
    (p : CodePoint) (rest : List Mark) :
    ∃ p', compactMarksFrom (some p) false (ms ++ rest) =
      ms ++ compactMarksFrom (some p') false rest := by
  induction ms generalizing p with
  | nil => exact ⟨p, rfl⟩
  | cons m ms ih =>
    obtain ⟨hm, hms⟩ := List.forall_mem_cons.mp h
    obtain ⟨p', hp⟩ := ih hms m.point
    refine ⟨p', ?_⟩
    rw [List.cons_append, compactMarksFrom, hm, gapBefore_false, hp]
    rfl

/-- Compact code has the kept marks of the code and no others. -/
theorem filter_compactMarksFrom (previous : Option CodePoint) (gap : Bool) (ms : List Mark) :
    (compactMarksFrom previous gap ms).filter (fun m => !isDropped m) =
      ms.filter fun m => !isDropped m := by
  induction ms generalizing previous gap with
  | nil => rfl
  | cons m ms ih =>
    rw [compactMarksFrom]
    cases hm : isDropped m with
    | true => simp [hm, ih]
    | false =>
      have hspace : isDropped (Region.code.mark (.scalar ' ')) = true := by decide
      rcases gapBefore_eq previous gap m with hgap | ⟨-, hgap⟩
      · simp [hm, hgap, ih]
      · simp [hm, hgap, hspace, ih]

/-- Compact code is compact. -/
theorem compactFrom_compactMarksFrom (previous : Option CodePoint) (gap : Bool)
    (ms : List Mark) :
    compactFrom previous false (compactMarksFrom previous gap ms) =
      compactFrom previous gap ms := by
  induction ms generalizing previous gap with
  | nil => rfl
  | cons m ms ih =>
    rw [compactMarksFrom, compactFrom]
    cases hm : isDropped m with
    | true => exact ih previous true
    | false =>
      have hspace : isDropped (Region.code.mark (.scalar ' ')) = true := by decide
      rcases gapBefore_eq previous gap m with hgap | ⟨rfl, hgap⟩
      · simp [hgap, compactFrom, hm, gapBefore_false, ih]
      · simp [hgap, compactFrom, hm, hspace, ih]

/-- The marks of compact code are kept ones and live spaces. -/
theorem mem_compactMarksFrom {previous : Option CodePoint} {gap : Bool} {ms : List Mark} {m : Mark}
    (h : m ∈ compactMarksFrom previous gap ms) :
    isDropped m = false ∨ m = Region.code.mark (.scalar ' ') := by
  induction ms generalizing previous gap with
  | nil => cases h
  | cons n ms ih =>
    rw [compactMarksFrom] at h
    cases hn : isDropped n with
    | true =>
      rw [hn, if_pos rfl] at h
      exact ih h
    | false =>
      rw [hn, if_neg Bool.false_ne_true] at h
      rcases List.mem_append.mp h with hspace | hkept
      · rcases gapBefore_eq previous gap n with hgap | ⟨-, hgap⟩
        · rw [hgap] at hspace
          cases hspace
        · rw [hgap] at hspace
          exact .inr (List.mem_singleton.mp hspace)
      · rcases List.mem_cons.mp hkept with rfl | hrest
        · exact .inl hn
        · exact ih hrest

/-- A live end of a line is left out. -/
theorem isDropped_of_isLiveLineEnd {m : Mark} (h : isLiveLineEnd m = true) :
    isDropped m = true := by
  obtain ⟨hlive, hend⟩ := Bool.and_eq_true_iff.mp h
  have hblank : m.point.isBlank := CodePoint.isBlank_of_isLineEnd hend
  rw [isDropped, hlive, hblank]
  simp

/-- Compact code has no live end of a line. -/
theorem filter_isLiveLineEnd (previous : Option CodePoint) (gap : Bool) (ms : List Mark) :
    (compactMarksFrom previous gap ms).filter (fun m => !isLiveLineEnd m) =
      compactMarksFrom previous gap ms := by
  refine List.filter_eq_self.mpr fun m hm => ?_
  rw [Bool.not_eq_true']
  rcases mem_compactMarksFrom hm with hkept | rfl
  · exact Bool.eq_false_iff.mpr fun hend =>
      absurd (isDropped_of_isLiveLineEnd hend) (by simp [hkept])
  · decide

/-- In the last part of marks nothing is brought together that is not so in the whole. -/
theorem gluesMarker_of_append {front ms : List Mark} (h : gluesMarker (front ++ ms) = false) :
    gluesMarker ms = false := by
  induction front with
  | nil => exact h
  | cons m front ih => exact ih (Bool.or_eq_false_iff.mp h).2

/-- No space stays behind punctuation that is no sign. -/
theorem needsSpace_behind {p : CodePoint} (hp : isPunctuation p = true) (hplus : p ≠ .scalar '+')
    (hminus : p ≠ .scalar '-') (m : Mark) : needsSpace p m = false := by
  rw [needsSpace, if_neg, if_pos hp]
  intro h
  simp only [Bool.and_eq_true, Bool.or_eq_true, decide_eq_true_eq] at h
  obtain ⟨⟨-, hsign⟩, hpoint⟩ := h
  rw [← hpoint] at hsign
  exact hsign.elim hplus hminus

/-- Behind a solidus no space stays, so the next kept mark follows it. -/
theorem head?_compactFrom_solidus (gap : Bool) (ms : List Mark) :
    (compactFrom (some (.scalar '/')) gap ms).head? = (nextKept? ms).map Mark.point := by
  induction ms generalizing gap with
  | nil => rfl
  | cons m ms ih =>
    rw [compactFrom, nextKept?_cons]
    cases hm : isDropped m with
    | true => exact ih true
    | false =>
      have hspace : needsSpace (.scalar '/') m = false :=
        needsSpace_behind (by decide) (by decide) (by decide) m
      have hgap : gapBefore (some (.scalar '/')) gap m = [] := by
        rw [gapBefore, hspace, Bool.and_false]
        rfl
      rw [hgap]
      rfl

/-- The significant code points of a text are those of its kept marks that are live. -/
theorem significant_eq_kept (t : Text) :
    Repair.significant t = ((scan t).filter fun m => !isDropped m).filterMap Mark.live? := by
  rw [Repair.significant]
  induction scan t with
  | nil => rfl
  | cons m ms ih =>
    rw [List.filterMap_cons, List.filter_cons]
    cases hlive : m.isLive with
    | false =>
      have hnone : m.live? = none := by simp [Mark.live?, hlive]
      cases hm : isDropped m <;> simp [hnone, ih]
    | true =>
      have hsome : m.live? = some m.point := by simp [Mark.live?, hlive]
      have hcomment : m.isComment = false := by
        rw [Mark.isLive] at hlive
        rw [Mark.isComment]
        cases hr : m.region <;> simp_all [Region.isLive, Region.isComment]
      have hdropped : isDropped m = m.point.isBlank := by simp [isDropped, hlive, hcomment]
      cases hblank : m.point.isBlank <;> simp [hsome, hdropped, hblank, ih]

end SourcePress.Script
